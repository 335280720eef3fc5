import ElleFrontEnd.Proofs.RecoveryProgram
import ElleFrontEnd.Proofs.TrialGrammar

/-!
# Programs at two depth limits

A tighter limit may fail where a wider one reads a program.  For a program whose types on trial lie within the tighter
limit that is all: it is read there as well, or the first diagnostic names the limit (`parseTokens_narrow`).  A type on
trial beyond the limit is given up without a word, and then another program may be read, or something else be reported;
two small sources show both.
-/

namespace ElleFrontEnd

/-! ### Declarations -/

namespace Follows

open ElleFrontEnd.Parser (Yields)

variable {limit room : Nat} {g g' : Inner} (hg : Inner.Narrows limit room g g')
include hg

theorem attributeList : Follows limit (highest Attribute.trialDepth · ≤ room) (Parser.attributeList g)
    (Parser.attributeList g') := by
  have hround : Follows limit (Yields.OfRound (Attribute.trialDepth · ≤ room)) (Parser.attributeRound g)
      (Parser.attributeRound g') := by
    refine after fun _ => ite (after fun _ => after fun _ => after fun _ => ite ?_ (refl _)) (refl _)
    exact (arguments hg).spanned fun _ _ h => h
  exact (collect hround).mono fun _ => highest_le.1

theorem returnType : Curtails limit (Parser.returnType g) (Parser.returnType g') :=
  .after fun _ => .ite ((hg.type 0).bind fun _ => .refl _) (.refl _)

theorem functionBody (modifiers : List Modifier) (name : DeclName) :
    Follows limit (optHeight Block.trialDepth · ≤ room) (Parser.functionBody g modifiers name)
      (Parser.functionBody g' modifiers name) := by
  refine after fun _ => ite (hg.block.before fun body => .ite ?_ (.pure id)) (refl _)
  exact .fails fun s a s' h => by simp at h

theorem functionDecl (modifiers : List Modifier) : Follows limit (FunctionDecl.trialDepth · ≤ room)
    (Parser.functionDecl g modifiers) (Parser.functionDecl g' modifiers) := by
  refine after fun _ => after fun name => after fun _ => (of_curtails (paramList hg)).behind fun _ => ?_
  refine (attributeList hg).bind (fun attributes => (of_curtails (returnType hg)).behind fun _ => ?_)
    fun attributes => ?_
  · exact (functionBody hg modifiers name).before fun body => .pure fun h => (Nat.max_le.1 h).2
  · exact .behind fun _ => .behind fun _ => .pure fun h => (Nat.max_le.1 h).1

theorem constDecl (modifiers : List Modifier) : Follows limit (fun decl => decl.value.trialDepth ≤ room)
    (Parser.constDecl g modifiers) (Parser.constDecl g' modifiers) := by
  have htype : Curtails limit (Parser.constType g) (Parser.constType g') :=
    .after fun _ => .after fun _ => .ite (.refl _) ((hg.type 0).bind fun _ => .refl _)
  refine after fun _ => (of_curtails htype).behind fun _ => after fun _ => after fun _ => ?_
  exact (hg.expression false).before fun value => .behind fun _ => .pure id

theorem fieldRound (opened : Span) : Curtails limit (Parser.fieldRound g opened) (Parser.fieldRound g' opened) := by
  have hfield : Curtails limit (Parser.structField g) (Parser.structField g') := by
    refine .after fun _ => .after fun _ => .after fun _ => .ite (.after fun _ => .after fun _ => ?_) ?_ <;>
      exact (hg.type 0).bind fun _ => .refl _
  refine .after fun _ => .ite (.refl _) (.after fun _ => .after fun _ => .after fun _ => .ite (.refl _) ?_)
  exact hfield.bind fun _ => .refl _

theorem structDecl (modifiers : List Modifier) :
    Follows limit (fun decl => highest Attribute.trialDepth decl.attributes ≤ room) (Parser.structDecl g modifiers)
      (Parser.structDecl g' modifiers) := by
  refine after fun _ => after fun _ => after fun _ =>
    (attributeList hg).bind (fun attributes => ?_) fun attributes => ?_
  · exact of_curtails (.after fun opened => (Curtails.collect (fieldRound hg opened)).bind fun _ => .refl _)
  · exact .behind fun _ => .behind fun _ => .behind fun _ => .pure id

theorem modifiedForm : Follows limit (fun form => ∃ span, (form span).trialDepth ≤ room) (Parser.modifiedForm g)
    (Parser.modifiedForm g') := by
  refine after fun modifiers => after fun kind => ?_
  split
  · refine (functionDecl hg modifiers).before fun decl => .ite ?_ ?_ <;> exact .pure fun ⟨span, h⟩ => h
  · exact (constDecl hg modifiers).before fun decl => .pure fun ⟨span, h⟩ => h
  · exact (structDecl hg modifiers).before fun decl => .pure fun ⟨span, h⟩ => h
  · exact refl _

theorem declaration : Follows limit (·.trialDepth ≤ room) (Parser.declaration g) (Parser.declaration g') := by
  have hform : Follows limit (fun form => ∃ span, (form span).trialDepth ≤ room) (Parser.declarationForm g)
      (Parser.declarationForm g') := by
    refine after fun kind => ?_
    split
    · exact refl _
    · exact refl _
    · exact refl _
    · exact modifiedForm hg
  exact after fun _ => hform.spanned fun form span h => ⟨span, h⟩

end Follows

/-! ### Programs -/

namespace Parser

variable {limit limit' : Nat} {s s' s₁ : ParseState}

/-- The run gets to `a` and `s'`, unless all that it records is that it has run out of levels. -/
def StopsTooDeep {α : Type} (limit : Nat) (p : Parser α) (s : ParseState) (a : α) (s' : ParseState) : Prop :=
  p.run s = (.ok a, s') ∨ ∃ before s₁ e, p.run s = (.ok before, s₁) ∧ s₁.errors = [e] ∧ e.cause = .tooDeep limit

namespace StopsTooDeep

variable {α : Type} {round : Parser (Round α)} {t : Token} {budget : List Token} {a : α} {as : List α}

theorem more (hr : round.run s = (.ok (.more a), s₁)) (h : StopsTooDeep limit (collectFor round budget) s₁ as s') :
    StopsTooDeep limit (collectFor round (t :: budget)) s (a :: as) s' := by
  rcases h with h | ⟨before, s₂, e, h, herrors⟩
  · exact .inl (bind_ok.2 ⟨_, _, hr, bind_ok.2 ⟨_, _, h, rfl⟩⟩)
  · exact .inr ⟨a :: before, s₂, e, bind_ok.2 ⟨_, _, hr, bind_ok.2 ⟨_, _, h, rfl⟩⟩, herrors⟩

theorem none (hr : round.run s = (.ok .none, s₁)) (h : StopsTooDeep limit (collectFor round budget) s₁ as s') :
    StopsTooDeep limit (collectFor round (t :: budget)) s as s' := by
  rcases h with h | ⟨before, s₂, e, h, herrors⟩
  · exact .inl (bind_ok.2 ⟨_, _, hr, h⟩)
  · exact .inr ⟨before, s₂, e, bind_ok.2 ⟨_, _, hr, h⟩, herrors⟩

theorem stop {e : Diagnostic} (hr : round.run s = (.ok .stop, s₁)) (herrors : s₁.errors = [e])
    (cause : e.cause = .tooDeep limit) : StopsTooDeep limit (collectFor round (t :: budget)) s as s' :=
  .inr ⟨[], s₁, e, bind_ok.2 ⟨_, _, hr, rfl⟩, herrors, cause⟩

/-- A program in which nothing fails is read at a tighter limit up to its end, or to a declaration that runs out of
levels. -/
theorem declared (budget : List Token) (hlimit : limit ≤ limit') {ds : List Declaration}
    (h : Declared (Inner.ofRoom ⟨limit', false⟩ limit') s ds s') (hs : s.errors = [])
    (hds : ∀ d ∈ ds, d.trialDepth ≤ limit) (hb : s.rest.length < budget.length) :
    StopsTooDeep limit (collectFor (programRound ⟨limit, false⟩) budget) s ds s' := by
  -- the rounds of the wider parse; each takes a token, so the budget is enough for as many
  induction h generalizing budget with
  | nil he =>
    obtain ⟨t, budget, rfl⟩ := List.exists_cons_of_length_pos (Nat.zero_lt_of_lt hb)
    exact .inl (bind_ok.2 ⟨_, _, (programRound_stop hs).2 ⟨he, rfl⟩, rfl⟩)
  | @stray s s' ds hk _ ih =>
    obtain ⟨t, budget, rfl⟩ := List.exists_cons_of_length_pos (Nat.zero_lt_of_lt hb)
    have hlt := length_advance_lt (s := s) (by simp [hk])
    exact .none (programRound_stray hk)
      (ih _ (s.advance_errors.trans hs) hds (Nat.lt_of_lt_of_le hlt (Nat.le_of_lt_succ hb)))
  | @cons s s₁ s' d ds he hk hd _ ih =>
    obtain ⟨t, budget, rfl⟩ := List.exists_cons_of_length_pos (Nat.zero_lt_of_lt hb)
    have hlt := length_of_declaration (settled_ofRoom _ _) hd
    obtain ⟨hdepth, hdepths⟩ := List.forall_mem_cons.1 hds
    have hreach : Reaches limit d s₁ ((declaration (Inner.ofRoom ⟨limit, false⟩ limit)).run s) :=
      Follows.declaration (narrows_ofRoom hlimit) s d s₁ hd hdepth
    have hsilent := (Resumes.declaration (resuming_ofRoom limit limit)).silent s
    change (((declaration (Inner.ofRoom ⟨limit, false⟩ limit)).run s).2).errors = _ at hsilent
    generalize hrun : (declaration (Inner.ofRoom ⟨limit, false⟩ limit)).run s = x at hreach hsilent
    cases hreach with
    | ok =>
      have hbudget := Nat.lt_of_lt_of_le hlt (Nat.le_of_lt_succ hb)
      exact .more (programRound_more.2 ⟨he, hk, hrun⟩) (ih _ (hsilent.trans hs) hdepths hbudget)
    | @tooDeep e s₂ cause =>
      -- nothing was recorded before, so this is the only diagnostic
      refine .stop ((programRound_error he hk hrun).trans (if_neg (by simp))) ?_ cause
      exact congrArg (· ++ [e]) (hsilent.trans hs)

theorem program (hlimit : limit ≤ limit') {ds : List Declaration}
    (h : Declared (Inner.ofRoom ⟨limit', false⟩ limit') s ds s') (hs : s.errors = [])
    (hds : ∀ d ∈ ds, d.trialDepth ≤ limit) : StopsTooDeep limit (Parser.program ⟨limit, false⟩) s ds s' :=
  declared (s.peek :: s.rest) hlimit h hs hds (Nat.lt_succ_self _)

end StopsTooDeep

end Parser

/-- A program whose types on trial lie within a tighter limit is read there as well, unless levels run out, and then the
first diagnostic says so. -/
theorem parseTokens_narrow {tokens : List Token} {limit limit' : Nat} (goesOn : Bool) {goesOn' : Bool} {p : Program}
    (hlimit : limit ≤ limit') (h : parseTokens tokens ⟨limit', goesOn'⟩ = .ok p) (hp : p.trialDepth ≤ limit) :
    parseTokens tokens ⟨limit, goesOn⟩ = .ok p ∨
      ∃ e more, parseTokens tokens ⟨limit, goesOn⟩ = .error (e :: more) ∧ e.cause = .tooDeep limit := by
  -- it is enough to look at parses that stop at their first failure
  have h := parseTokens_ok_recover h false
  obtain ⟨s', hs', hdecl⟩ := parseTokens_ok.1 h
  have hstrict : parseTokens tokens ⟨limit, false⟩ = .ok p ∨
      ∃ e, parseTokens tokens ⟨limit, false⟩ = .error [e] ∧ e.cause = .tooDeep limit := by
    unfold parseTokens parsePartial
    rcases Parser.StopsTooDeep.program hlimit hdecl rfl (highest_le.1 hp) with hrun | ⟨before, s₁, e, hrun, he, cause⟩
    · rw [show Parser.program ⟨limit, false⟩ { rest := tokens } = _ from hrun]
      exact .inl (by simp [hs'])
    · rw [show Parser.program ⟨limit, false⟩ { rest := tokens } = _ from hrun]
      exact .inr ⟨e, by simp [he], cause⟩
  rcases parseTokens_recover tokens limit goesOn with ⟨p', h', hp'⟩ | ⟨e, more, h', he⟩ <;> rw [h'] at hstrict
  · rcases hstrict with hstrict | ⟨e, hstrict, -⟩
    · exact .inl (hp'.trans hstrict)
    · cases hstrict
  · rcases hstrict with hstrict | ⟨e', hstrict, cause⟩
    · cases hstrict
    · obtain rfl : e = e' := by simpa using hstrict
      exact .inr ⟨e, more, he, cause⟩

/-! ### Two limits -/

theorem ok_of_trialDepth {x : Except (List Diagnostic) Program} {n : Nat}
    (h : x.toOption.map Program.trialDepth = some n) : ∃ p, x = .ok p ∧ p.trialDepth = n := by
  cases x with
  | error errors => cases h
  | ok p => exact ⟨p, rfl, Option.some.inj h⟩

theorem parseTokens_of_causes {tokens : List Token} {o : ParseOptions} {cause : Cause} {causes : List Cause}
    (h : (parsePartial tokens o).2.map Diagnostic.cause = cause :: causes) :
    parseTokens tokens o = .error (parsePartial tokens o).2 := by
  have hne : (parsePartial tokens o).2 ≠ [] := by
    intro hempty
    rw [hempty] at h
    cases h
  simp [parseTokens, hne]

/-- Where two limits both let a program be read, they read the same one, as long as its types on trial lie within the
tighter limit. -/
theorem parseTokens_limit_eq {tokens : List Token} {limit limit' : Nat} {goesOn goesOn' : Bool} {p p' : Program}
    (hlimit : limit ≤ limit') (h : parseTokens tokens ⟨limit, goesOn⟩ = .ok p)
    (h' : parseTokens tokens ⟨limit', goesOn'⟩ = .ok p') (hp : p'.trialDepth ≤ limit) : p = p' := by
  rcases parseTokens_narrow goesOn hlimit h' hp with hread | ⟨e, more, herror, -⟩
  · rw [h] at hread
    cases hread
    rfl
  · rw [h] at herror
    cases herror

/-- A program that only the wider of two limits lets be read is rejected for the sake of the limit, and the first
diagnostic says so, as long as its types on trial lie within the tighter limit. -/
theorem parseTokens_tooDeep {tokens : List Token} {limit limit' : Nat} {goesOn goesOn' : Bool} {p : Program}
    {errors : List Diagnostic} (hlimit : limit < limit') (h' : parseTokens tokens ⟨limit', goesOn'⟩ = .ok p)
    (h : parseTokens tokens ⟨limit, goesOn⟩ = .error errors) (hp : p.trialDepth ≤ limit) :
    errors.head?.map Diagnostic.cause = some (.tooDeep limit) := by
  rcases parseTokens_narrow goesOn (Nat.le_of_lt hlimit) h' hp with hread | ⟨e, more, herror, cause⟩
  · rw [h] at hread
    cases hread
  · rw [h] at herror
    cases herror
    exact congrArg some cause

/-- A declaration in a block, whose type needs levels up to the third and whose value needs more. -/
def nestedValueTokens : List Token := (lex "fn f() { V<A> x = ((((y)))); }").tokens

/-- It is the value that is rejected. -/
theorem parseTokens_tooDeep_nested : ∃ p errors, parseTokens nestedValueTokens {} = .ok p ∧ p.trialDepth = 3 ∧
    parseTokens nestedValueTokens { maxDepth := 3 } = .error errors ∧
      errors.head?.map Diagnostic.cause = some (.tooDeep 3) := by
  have hwide : (parseTokens nestedValueTokens {}).toOption.map Program.trialDepth = some 3 := by decide +kernel
  have hcauses : (parsePartial nestedValueTokens { maxDepth := 3 }).2.map Diagnostic.cause = [.tooDeep 3] := by
    decide +kernel
  obtain ⟨p, hp, hdepth⟩ := ok_of_trialDepth hwide
  have herrors := parseTokens_of_causes hcauses
  exact ⟨p, _, hp, hdepth, herrors, parseTokens_tooDeep (by decide) hp herrors (Nat.le_of_eq hdepth)⟩

/-- A declaration in a block, whose type needs levels up to the third. -/
def primitiveArgTokens : List Token := (lex "fn f() { V<i32> x; }").tokens

/-- Where there are two, the type is given up, and all that is reported is that `<` has no operand. -/
theorem parseTokens_not_tooDeep : ¬ ∀ (tokens : List Token) (limit limit' : Nat) (p : Program)
    (errors : List Diagnostic), limit < limit' → parseTokens tokens { maxDepth := limit' } = .ok p →
      parseTokens tokens { maxDepth := limit } = .error errors → ∃ e ∈ errors, ∃ n, e.cause = .tooDeep n := by
  intro h
  have hwide : (parseTokens primitiveArgTokens { maxDepth := 3 }).toOption.map Program.trialDepth = some 3 := by
    decide +kernel
  have hcauses : (parsePartial primitiveArgTokens { maxDepth := 2 }).2.map Diagnostic.cause =
      [.noOperand .lt (.keyword (.primitive .i32))] := by decide +kernel
  obtain ⟨p, hp, -⟩ := ok_of_trialDepth hwide
  obtain ⟨e, he, n, hn⟩ := h _ 2 3 p _ (by decide) hp (parseTokens_of_causes hcauses)
  have hmem := List.mem_map_of_mem (f := Diagnostic.cause) he
  rw [hcauses, hn] at hmem
  simp at hmem

end ElleFrontEnd
