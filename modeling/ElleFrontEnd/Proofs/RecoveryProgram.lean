import ElleFrontEnd.Proofs.Recovery

/-!
# Going on after a failure within blocks and programs

A block that goes on records the failure of a statement where a block that stops hands it on, and a program records it
either way.  So `Resumes` holds of blocks, of all that holds blocks, and of declarations; a run over a program that
stops is compared with one that goes on by `Halted`.  In sum, going on after a failure adds declarations and diagnostics
behind those of the parse that stops, and changes none of them.
-/

namespace ElleFrontEnd

open ElleFrontEnd.Parser (Silent)

variable {α β : Type} {limit : Nat}

namespace Resumes

section
variable {g g' : Inner} (hg : Resuming g g')
include hg

/-! ### Simple statements -/

theorem initializer (header : Bool) : Resumes (Parser.initializer g header) (Parser.initializer g' header) :=
  after (.accept _) fun _ => ite ((hg.expression header).before fun _ => .pure _) (done none)

theorem typedBinding (header : Bool) (type : TypeExpr) (name : String) :
    Resumes (Parser.typedBinding g header type name) (Parser.typedBinding g' header type name) := by
  refine looking fun _ => ite ?_ ((initializer hg header).before fun _ => .pure _)
  exact after .skip fun _ => (hg.expression false).before fun _ => (Silent.closing _ _).bind fun _ => .pure _

theorem binding? (header : Bool) : Resumes (Parser.binding? g header) (Parser.binding? g' header) := by
  have hsame : Parser.typeAndName g' = Parser.typeAndName g := by
    unfold Parser.typeAndName
    rw [hg.type]
  unfold Parser.binding?
  rw [hsame]
  refine after (.accept _) fun _ => ite ?_ (looking fun _ => looking fun _ => ite ?_ ?_)
  · exact after .identifier fun _ => (initializer hg header).before fun _ => .pure _
  · exact after .identifier fun _ => after .skip fun _ => (hg.expression header).before fun _ => .pure _
  refine looking fun _ => looking fun _ => ite (done none) (after (.attempt (.typeAndName hg.silent)) fun o => ?_)
  cases o with
  | none => exact done none
  | some named => exact (typedBinding hg header _ _).before fun _ => .pure _

theorem assignment? (header : Bool) : Resumes (Parser.assignment? g header) (Parser.assignment? g' header) := by
  refine looking fun kind => ?_
  split
  · exact done none
  split
  · exact done none
  · exact after .skip fun _ => after (.requireOperand _) fun _ => (hg.expression header).before fun _ => .pure _

theorem simpleStatement : Resumes (Parser.simpleStatement g) (Parser.simpleStatement g') := by
  refine (binding? hg false).bind fun o => ?_
  cases o with
  | some form => exact done _
  | none =>
    refine (hg.expression false).bind fun target => (assignment? hg false).before fun o => ?_
    cases o with
    | none => exact .pure _
    | some assigned => exact .pure _

/-! ### Control flow -/

theorem headerCondition : Resumes (Parser.headerCondition g) (Parser.headerCondition g') :=
  (hg.expression true).before fun _ => .pure _

theorem elsePart : Resumes (Parser.elsePart g) (Parser.elsePart g') := by
  refine after (.accept _) fun _ => ite (looking fun _ => ite ?_ ?_) (done _)
  · exact looking fun _ => hg.elseIf.spanned
  · exact hg.block.before fun _ => .pure _

theorem ifBody : Resumes (Parser.ifBody g) (Parser.ifBody g') := by
  refine after (.expect _ _) fun _ => (headerCondition hg).bind fun condition => hg.block.bind fun body => ?_
  exact (elsePart hg).before fun otherwise => .pure _

theorem forInit (header : Bool) : Resumes (Parser.forInit g header) (Parser.forInit g' header) := by
  refine looking fun _ => (binding? hg header).bind fun o => ?_
  match o with
  | some (.variable _ _ _ _) => exact looking fun _ => done _
  | some (.buffer _ _ _) => exact looking fun _ => of_silent (.fail _)
  | none => exact (hg.expression header).before fun _ => .pure _

theorem forStep (header : Bool) : Resumes (Parser.forStep g header) (Parser.forStep g' header) := by
  refine looking fun _ => (hg.expression header).bind fun target => (assignment? hg header).before fun o => ?_
  cases o with
  | none => exact .pure _
  | some assigned => exact (Silent.look _).bind fun _ => .pure _

theorem forHeader (header : Bool) : Resumes (Parser.forHeader g header) (Parser.forHeader g' header) := by
  refine (forInit hg header).bind fun init => after .semicolon fun _ => (hg.expression header).bind fun condition => ?_
  exact after .semicolon fun _ => (forStep hg header).before fun step => .pure _

theorem forStatement : Resumes (Parser.forStatement g) (Parser.forStatement g') := by
  refine after (.expect _ _) fun _ => looking fun _ => looking fun _ => ite ?_ (looking fun _ => ite ?_ ?_)
  · refine after .identifier fun _ => after .skip fun _ => (hg.expression true).bind fun iterable => ?_
    exact hg.block.before fun body => .pure _
  · refine after .skip fun _ => (forHeader hg false).bind fun header => after (.closing _ _) fun _ => ?_
    exact hg.block.before fun body => .pure _
  · exact (forHeader hg true).bind fun header => hg.block.before fun body => .pure _

theorem returnStatement : Resumes (Parser.returnStatement g) (Parser.returnStatement g') := by
  refine after .skip fun _ => looking fun _ => ite (of_silent (Silent.semicolon.bind fun _ => .pure _)) ?_
  exact (hg.expression false).before fun _ => Silent.semicolon.bind fun _ => .pure _

theorem statement : Resumes (Parser.statement g) (Parser.statement g') := by
  have hword {form : Span → Stmt} :
      Resumes (do let _ ← Parser.skip; Parser.semicolon; pure form)
        (do let _ ← Parser.skip; Parser.semicolon; pure form) :=
    of_silent (Silent.skip.bind fun _ => Silent.semicolon.bind fun _ => .pure _)
  have hform : Resumes (Parser.statementForm g) (Parser.statementForm g') := by
    refine looking fun kind => ?_
    split
    · exact (ifBody hg).before fun _ => .pure _
    · exact after .skip fun _ => (headerCondition hg).bind fun _ => hg.block.before fun _ => .pure _
    · exact forStatement hg
    · exact after .skip fun _ => (hg.expression false).before fun _ => Silent.semicolon.bind fun _ => .pure _
    · exact returnStatement hg
    · exact hword
    · exact hword
    · exact hg.block.before fun _ => .pure _
    · exact (simpleStatement hg).before fun _ => Silent.semicolon.bind fun _ => .pure _
  exact looking fun _ => hform.spanned

/-! ### Blocks -/

omit hg in
/-- A failure that the one hands on and the other records. -/
theorem outcome {p q : Parser α} (h : Resumes p q) {f f' : Except Diagnostic α → Parser β}
    (hok : ∀ a, Resumes (f (.ok a)) (f' (.ok a))) (hfail : ∀ e, f (.error e) = Parser.fail e)
    (hrecord : ∀ e s, (f' (.error e) s).2.errors = s.errors ++ [e]) :
    Resumes (Parser.outcome p >>= f) (Parser.outcome q >>= f') := by
  intro s
  change Resumed s (Parser.andThen (Parser.outcome p) f s) (Parser.andThen (Parser.outcome q) f' s)
  unfold Parser.andThen Parser.outcome
  have h := h s
  generalize p s = x, q s = y at h
  cases h with
  | same silent =>
    obtain ⟨e | a, s₁⟩ := x
    · dsimp only at silent ⊢
      rw [hfail]
      exact .later silent ⟨[], by rw [hrecord, silent]⟩
    · exact (hok a s₁).of_errors silent
  | later silent first =>
    -- the failure was recorded further in, and one that is recorded here comes behind it
    obtain ⟨more, hmore⟩ := first
    dsimp only
    rw [hfail]
    obtain ⟨d | a, s₂⟩ := y
    · exact .of_adds silent hmore ⟨[d], hrecord d s₂⟩
    · exact .of_adds silent hmore ((hok a).adds s₂)

theorem blockRound (opened : Span) :
    Resumes (Parser.blockRound ⟨limit, false⟩ g opened) (Parser.blockRound ⟨limit, true⟩ g' opened) := by
  refine after (.accept _) fun _ => ite (done _) (looking fun _ => ite (looking fun _ => of_silent (.fail _)) ?_)
  refine after (.accept _) fun _ => ite (done _) ((statement hg).outcome (fun _ => done _) (fun _ => ?_) fun _ _ => ?_)
  · rfl
  · rfl

theorem blockBody : Resumes (Parser.blockBody ⟨limit, false⟩ g) (Parser.blockBody ⟨limit, true⟩ g') :=
  after (.expect _ _) fun opened => (collect (blockRound hg opened)).spanned

end

end Resumes

theorem Inner.ofRoom_type (o : ParseOptions) (room : Nat) :
    (Inner.ofRoom o room).type = Parser.typeExpr o.maxDepth room := by
  cases room with
  | zero => rfl
  | succ room => rfl

/-- At every depth, a parse that goes on after failures does so behind the first failure of one that stops. -/
theorem resuming_ofRoom (limit room : Nat) :
    Resuming (Inner.ofRoom ⟨limit, false⟩ room) (Inner.ofRoom ⟨limit, true⟩ room) := by
  induction room with
  | zero =>
    have hdeep {α : Type} : (Parser.tooDeep limit : Parser α).Silent := fun _ => rfl
    exact
      { type := rfl
        silent := fun _ => hdeep
        expression := fun _ => .of_silent hdeep
        chain := fun _ _ => .of_silent hdeep
        unary := fun _ => .of_silent hdeep
        block := .of_silent hdeep
        elseIf := .of_silent hdeep }
  | succ room ih =>
    exact
      { type := by rw [Inner.ofRoom_type, Inner.ofRoom_type]
        silent := Silent.typeExpr limit (room + 1)
        expression := Resumes.expressionBody ih
        chain := Resumes.chainBody ih
        unary := Resumes.unaryBody ih
        block := Resumes.blockBody ih
        elseIf := Resumes.ifBody ih }

/-! ### Declarations -/

namespace Parser.Silent

theorem pathSegment : Parser.pathSegment.Silent := by
  refine (look _).bind fun kind => ?_
  split
  · exact skip.bind fun _ => .pure _
  · exact identifier

theorem importPath : Parser.importPath.Silent :=
  (expect _ _).bind fun _ => (Silent.separatedBy _ pathSegment).bind fun _ => semicolon.bind fun _ => .pure _

theorem globalLine : Parser.globalLine.Silent := by
  have hoption : Parser.globalOption.Silent := by
    refine (look _).bind fun kind => ?_
    split
    · exact skip.bind fun _ => .pure _
    · exact skip.bind fun _ => .pure _
    · exact unexpected _
  exact (expect _ _).bind fun _ => (Silent.separatedBy _ hoption).bind fun _ => semicolon.bind fun _ => .pure _

theorem moduleLine : Parser.moduleLine.Silent :=
  skip.bind fun _ => identifier.bind fun _ => semicolon.bind fun _ => .pure _

theorem modifierList : Parser.modifierList.Silent := by
  refine collect ((look _).bind fun _ => .ite ((look _).bind fun _ => ?_) ((look _).bind fun _ => ?_))
  · split
    · exact skip.bind fun _ => skip.bind fun _ => .pure _
    · exact skip.bind fun _ => unexpected _
  · split
    · exact skip.bind fun _ => .pure _
    · exact .pure _

theorem declName : Parser.declName.Silent := by
  refine (look _).bind fun _ => (look _).bind fun kind => ?_
  split
  · exact skip.bind fun _ => (look _).bind fun _ => .pure _
  · refine identifier.bind fun _ => (look _).bind fun _ => .ite (pathTail.bind fun _ => ?_) ?_ <;>
      exact (look _).bind fun _ => .pure _

section
variable {g : Inner} (hg : ∀ angles, (g.type angles).Silent)
include hg

theorem returnType : (Parser.returnType g).Silent :=
  (accept _).bind fun _ => .ite ((hg 0).bind fun _ => .pure _) (.pure _)

theorem constType : (Parser.constType g).Silent :=
  (look _).bind fun _ => (look _).bind fun _ => .ite (.pure _) ((hg 0).bind fun _ => .pure _)

theorem structField : (Parser.structField g).Silent := by
  refine (look _).bind fun _ => (look _).bind fun _ => (look _).bind fun _ => .ite ?_ ?_
  · exact identifier.bind fun _ => skip.bind fun _ => (hg 0).bind fun _ => (look _).bind fun _ => .pure _
  · exact (hg 0).bind fun _ => identifier.bind fun _ => (look _).bind fun _ => .pure _

theorem fieldRound (opened : Span) : (Parser.fieldRound g opened).Silent := by
  refine (accept _).bind fun _ => .ite (.pure _) ?_
  refine (look _).bind fun _ => (look _).bind fun _ => (look _).bind fun _ => .ite ?_ ?_
  · exact (look _).bind fun _ => (look _).bind fun _ => .fail _
  refine (structField hg).bind fun _ => (accept _).bind fun _ => .ite (.pure _) ?_
  refine (accept _).bind fun _ => .ite (.pure _) ?_
  exact (look _).bind fun _ => .ite (.pure _) (unexpected _)

end

end Parser.Silent

namespace Resumes

section
variable {g g' : Inner} (hg : Resuming g g')
include hg

theorem attributeList : Resumes (Parser.attributeList g) (Parser.attributeList g') := by
  refine collect (looking fun _ => ite ?_ (done _))
  refine after .skip fun _ => after .identifier fun _ => looking fun _ => ite (arguments hg).spanned ?_
  exact looking fun _ => done _

theorem functionBody (modifiers : List Modifier) (name : DeclName) :
    Resumes (Parser.functionBody g modifiers name) (Parser.functionBody g' modifiers name) := by
  refine looking fun _ => ite (hg.block.before fun _ => .ite (.fail _) (.pure _)) ?_
  exact of_silent ((Silent.onError _ .semicolon).bind fun _ => .pure _)

theorem functionDecl (modifiers : List Modifier) :
    Resumes (Parser.functionDecl g modifiers) (Parser.functionDecl g' modifiers) := by
  have hsame : Parser.returnType g' = Parser.returnType g := by
    unfold Parser.returnType
    rw [hg.type]
  unfold Parser.functionDecl
  rw [hsame]
  refine after (.expect _ _) fun _ => after .declName fun name => after .typeParams fun _ => ?_
  refine (paramList hg).bind fun _ => (attributeList hg).bind fun _ => after (.returnType hg.silent) fun _ => ?_
  exact (functionBody hg modifiers name).before fun _ => .pure _

theorem constDecl (modifiers : List Modifier) :
    Resumes (Parser.constDecl g modifiers) (Parser.constDecl g' modifiers) := by
  have hsame : Parser.constType g' = Parser.constType g := by
    unfold Parser.constType
    rw [hg.type]
  unfold Parser.constDecl
  rw [hsame]
  refine after (.expect _ _) fun _ => after (.constType hg.silent) fun _ => after .identifier fun _ => ?_
  refine after (.expect _ _) fun _ => (hg.expression false).before fun _ => ?_
  exact Silent.semicolon.bind fun _ => .pure _

theorem structDecl (modifiers : List Modifier) :
    Resumes (Parser.structDecl g modifiers) (Parser.structDecl g' modifiers) := by
  have hsame : Parser.fieldRound g' = Parser.fieldRound g := by
    unfold Parser.fieldRound Parser.structField
    rw [hg.type]
  unfold Parser.structDecl
  rw [hsame]
  refine after (.expect _ _) fun _ => after .identifier fun _ => after .typeParams fun _ => ?_
  refine (attributeList hg).before fun _ => (Silent.expect _ _).bind fun opened => ?_
  exact (Silent.collect (.fieldRound hg.silent opened)).bind fun _ => (Silent.accept _).bind fun _ => .pure _

theorem modifiedForm : Resumes (Parser.modifiedForm g) (Parser.modifiedForm g') := by
  refine after .modifierList fun modifiers => looking fun kind => ?_
  split
  · exact (functionDecl hg modifiers).before fun _ => .ite (.pure _) (.pure _)
  · exact (constDecl hg modifiers).before fun _ => .pure _
  · exact (structDecl hg modifiers).before fun _ => .pure _
  · exact of_silent fun _ => rfl

theorem declaration : Resumes (Parser.declaration g) (Parser.declaration g') := by
  have hform : Resumes (Parser.declarationForm g) (Parser.declarationForm g') := by
    refine looking fun kind => ?_
    split
    · exact of_silent (Silent.importPath.bind fun _ => .pure _)
    · exact of_silent (Silent.globalLine.bind fun _ => .pure _)
    · exact of_silent (Silent.moduleLine.bind fun _ => .pure _)
    · exact modifiedForm hg
  exact looking fun _ => hform.spanned

end

end Resumes

/-! ### Programs -/

/-- The end of a program that stops behind its first failure, beside the end of one that goes on from there.  What has
been read by then is related by `R`. -/
inductive Halted (R : α → α → Prop) (s : ParseState) :
    Except Diagnostic α × ParseState → Except Diagnostic α × ParseState → Prop
  | same {a : α} {s' : ParseState} (silent : s'.errors = s.errors) : Halted R s (.ok a, s') (.ok a, s')
  | halted {a b : α} {e : Diagnostic} {more : List Diagnostic} {s₁ s₂ : ParseState}
      (stops : s₁.errors = s.errors ++ [e]) (goesOn : s₂.errors = s.errors ++ e :: more) (read : R a b) :
    Halted R s (.ok a, s₁) (.ok b, s₂)

namespace Halted

variable {R : α → α → Prop} {s s₁ : ParseState} {x y : Except Diagnostic α × ParseState}

theorem of_errors (hs : s₁.errors = s.errors) (h : Halted R s₁ x y) : Halted R s x y := by
  cases h with
  | same silent => exact .same (silent.trans hs)
  | halted stops goesOn read => exact .halted (hs ▸ stops) (hs ▸ goesOn) read

/-- The run that goes on never fails, and takes back nothing that has been recorded. -/
theorem records (h : Halted R s x y) : ∃ b s' new, y = (.ok b, s') ∧ s'.errors = s.errors ++ new := by
  cases h with
  | same silent => exact ⟨_, _, [], rfl, by rw [silent, List.append_nil]⟩
  | halted _ goesOn _ => exact ⟨_, _, _, rfl, goesOn⟩

/-- Where the first parser has stopped, what follows it only hands on what has been read. -/
theorem bind {R' : β → β → Prop} {p q : Parser α} {f f' : α → Parser β} (hp : ∀ s, Halted R s (p s) (q s))
    (hf : ∀ a s, Halted R' s (f a s) (f' a s))
    (hstop : ∀ a b, R a b → ∃ c, f a = pure c ∧ ∀ s c' s', f' b s = (.ok c', s') → R' c c') (s : ParseState) :
    Halted R' s ((p >>= f) s) ((q >>= f') s) := by
  change Halted R' s (Parser.andThen p f s) (Parser.andThen q f' s)
  unfold Parser.andThen
  have h := hp s
  generalize p s = x, q s = y at h
  cases h with
  | same silent => exact (hf _ _).of_errors silent
  | @halted a b e more s₁ s₂ stops goesOn read =>
    obtain ⟨c, hc, hread⟩ := hstop a b read
    obtain ⟨c', s₃, new, hc', hnew⟩ := (hf b s₂).records
    have hall : s₃.errors = s.errors ++ e :: (more ++ new) := by
      rw [hnew, goesOn, List.append_assoc, List.cons_append]
    dsimp only
    rw [hc, hc']
    exact .halted stops hall (hread s₂ c' s₃ hc')

/-- Rounds of which the first stops where the second goes on list the items of the first at the head of those of the
second. -/
theorem collectFor {round round' : Parser (Parser.Round α)}
    (hr : ∀ s, Halted (fun r _ => r = .stop) s (round s) (round' s)) (budget : List Token) (s : ParseState) :
    Halted (· <+: ·) s (Parser.collectFor round budget s) (Parser.collectFor round' budget s) := by
  induction budget generalizing s with
  | nil => exact .same rfl
  | cons t budget ih =>
    refine Halted.bind hr (fun r s => ?_) (fun r r' hstop => ?_) s
    · cases r with
      | stop => exact .same rfl
      | last a => exact .same rfl
      | more a =>
        refine Halted.bind ih (fun as s => .same rfl) (fun as bs hsub => ⟨a :: as, rfl, ?_⟩) s
        intro s cs s' h
        cases h
        exact List.cons_prefix_cons.2 ⟨rfl, hsub⟩
      | none => exact ih s
    · -- the first parser has stopped, and whatever the second lists from here on begins with no items
      subst hstop
      exact ⟨[], rfl, fun _ _ _ _ => List.nil_prefix⟩

theorem programRound (s : ParseState) : Halted (fun r _ => r = .stop) s
    (Parser.programRound ⟨limit, false⟩ s) (Parser.programRound ⟨limit, true⟩ s) := by
  change Halted _ s ((Parser.programRound ⟨limit, false⟩).run s) ((Parser.programRound ⟨limit, true⟩).run s)
  simp only [Parser.programRound, Parser.atEnd, Parser.acceptMark, Parser.look_bind, Parser.ite_run, Parser.accept_bind]
  split
  · exact .same rfl
  split
  · exact .same s.advance_errors
  change Halted _ s (Parser.andThen (Parser.outcome _) _ s) (Parser.andThen (Parser.outcome _) _ s)
  unfold Parser.andThen Parser.outcome
  have h := Resumes.declaration (resuming_ofRoom limit limit) s
  generalize Parser.declaration (Inner.ofRoom ⟨limit, false⟩ limit) s = x,
    Parser.declaration (Inner.ofRoom ⟨limit, true⟩ limit) s = y at h
  cases h with
  | @same x silent =>
    obtain ⟨e | d, s₁⟩ := x
    · -- both record the failure
      exact .halted (congrArg (· ++ [e]) silent) (congrArg (· ++ [e]) silent) rfl
    · exact .same silent
  | @later e s₁ y silent first =>
    -- a block has recorded the failure that ends the program that stops
    obtain ⟨more, hmore⟩ := first
    obtain ⟨d | d, s₂⟩ := y
    · have hall : s₂.errors ++ [d] = s.errors ++ e :: (more ++ [d]) := by
        have hmore : s₂.errors = _ := hmore
        rw [hmore, List.append_assoc, List.cons_append]
      exact .halted (congrArg (· ++ [e]) silent) hall rfl
    · exact .halted (congrArg (· ++ [e]) silent) hmore rfl

end Halted

/-- A program that stops at its first failure, beside one that goes on behind it. -/
theorem halted_program (limit : Nat) (s : ParseState) :
    Halted (· <+: ·) s (Parser.program ⟨limit, false⟩ s) (Parser.program ⟨limit, true⟩ s) :=
  Halted.collectFor Halted.programRound (s.peek :: s.rest) s

/-- Whether or not reading goes on after a failure, the same program is read, or the same failure is met first. -/
theorem parseTokens_recover (tokens : List Token) (limit : Nat) (goesOn : Bool) :
    (∃ p, parseTokens tokens ⟨limit, false⟩ = .ok p ∧ parseTokens tokens ⟨limit, goesOn⟩ = .ok p) ∨
      ∃ e more, parseTokens tokens ⟨limit, false⟩ = .error [e] ∧
        parseTokens tokens ⟨limit, goesOn⟩ = .error (e :: more) := by
  have h := halted_program limit { rest := tokens }
  unfold parseTokens parsePartial
  cases goesOn <;>
    generalize Parser.program ⟨limit, false⟩ { rest := tokens } = x,
      Parser.program ⟨limit, true⟩ { rest := tokens } = y at h <;> cases h with
  | @same declarations s' silent =>
    have silent : s'.errors = [] := silent
    simp [silent]
  | @halted before all e more s₁ s₂ stops goesOn read =>
    have stops : s₁.errors = [e] := stops
    have goesOn : s₂.errors = e :: more := goesOn
    simp [stops, goesOn]

/-- What is read as a program is so whether or not reading would go on after a failure. -/
theorem parseTokens_ok_recover {tokens : List Token} {limit : Nat} {goesOn : Bool} {p : Program}
    (h : parseTokens tokens ⟨limit, goesOn⟩ = .ok p) (goesOn' : Bool) :
    parseTokens tokens ⟨limit, goesOn'⟩ = .ok p := by
  have hstrict : parseTokens tokens ⟨limit, false⟩ = .ok p := by
    rcases parseTokens_recover tokens limit goesOn with ⟨p', hstops, hgoes⟩ | ⟨e, more, -, hgoes⟩
    · rw [hstops, ← hgoes, h]
    · rw [hgoes] at h
      cases h
  rcases parseTokens_recover tokens limit goesOn' with ⟨p', hstops, hgoes⟩ | ⟨e, more, hstops, -⟩
  · rw [hgoes, ← hstops, hstrict]
  · rw [hstrict] at hstops
    cases hstops

/-- Going on after a failure only adds: a parse that stops reports the first of the diagnostics of one that goes on, and
none where that one has none; it reads the declarations before that failure, and where nothing fails it reads the same
program. -/
theorem parsePartial_recover (tokens : List Token) (limit : Nat) :
    let (program, errors) := parsePartial tokens { maxDepth := limit, recover := false }
    let (program', errors') := parsePartial tokens { maxDepth := limit, recover := true }
    errors = errors'.head?.toList ∧ program.declarations <+: program'.declarations ∧
      (errors' = [] → program = program') := by
  have h := halted_program limit { rest := tokens }
  unfold parsePartial
  generalize Parser.program ⟨limit, false⟩ { rest := tokens } = x,
    Parser.program ⟨limit, true⟩ { rest := tokens } = y at h
  cases h with
  | @same declarations s' silent =>
    have silent : s'.errors = [] := silent
    simp [silent]
  | @halted before all e more s₁ s₂ stops goesOn read =>
    have stops : s₁.errors = [e] := stops
    have goesOn : s₂.errors = e :: more := goesOn
    simp [stops, goesOn, read]

end ElleFrontEnd
