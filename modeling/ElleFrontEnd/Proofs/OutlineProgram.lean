import ElleFrontEnd.Proofs.OutlineExpr
import ElleFrontEnd.Proofs.ReadDeclaration

/-!
# The outlines of statements and programs

A statement or a declaration that is read is a node over all the tokens that belong to it.  The statements of a block
and the declarations of a program stand one behind another, also where others between them have failed and were
skipped (`outlined_program`).
-/

namespace ElleFrontEnd

theorem stmtListOutlines_eq_map (ss : List Stmt) : stmtListOutlines ss = ss.map Stmt.outline := by
  induction ss with
  | nil => rfl
  | cons s ss ih => rw [stmtListOutlines, ih, List.map_cons]

namespace Parser

variable {text : List Char} {s s₀ s₁ s' : ParseState} {g : Inner} {header : Bool}

/-- What is read of a statement before its stretch is known: whatever the stretch is, its outline is a node over what
has been read. -/
def FormRead (text : List Char) (outline : Span → Outline) (s s' : ParseState) : Prop :=
  ∃ words parts, (∀ span, outline span = .node span words parts) ∧ (∀ k ∈ words, k.Legible) ∧ Reads text parts s s'

theorem FormRead.node {outline : Span → Outline} (hp : Placed text s) (h : FormRead text outline s s')
    (hlt : s.start < s'.readStop) : Reads text [outline (s'.spanFrom s.start)] s s' := by
  obtain ⟨words, parts, heq, hw, hparts⟩ := h
  rw [heq]
  exact hparts.node hp hlt hw

/-- Without the parentheses around it, an expression stands inside of where it was read. -/
theorem outlined_unparenthesized {e : Expr} (h : Reads text [e.outline] s s') :
    Reads text [e.unparenthesized.outline] s s' := by
  have hmem : e.outline ∈ [e.outline] := List.mem_singleton_self _
  have hbetween := h.standing.between _ hmem
  have hlaminar := h.laminar _ hmem
  cases e with
  | paren span inner =>
    cases hlaminar with
    | node _ _ _ hstanding hparts =>
      exact ⟨h.placed, h.stop_le, h.start_le, hstanding.mono hbetween.1 hbetween.2, hparts,
        by simpa [Expr.outline, Expr.unparenthesized] using h.legible⟩
  | _ => exact h

section
variable (ho : g.Outlined text)
include ho

theorem outlined_initializer : (initializer g header).Outlines text optExprOutlines := by
  intro s o s' hp h
  rcases initializer_ok.1 h with ⟨-, e, rfl, he⟩ | ⟨-, rfl, rfl⟩
  · exact (ho.expression header _ _ _ (hp.advances (.advance s)).1 he).behindAdvance hp
  · exact .refl hp

theorem outlined_headerCondition : (headerCondition g).Outlines text fun e => [e.outline] := by
  intro s e s' hp h
  obtain ⟨e₀, he, rfl⟩ := headerCondition_ok.1 h
  exact outlined_unparenthesized (ho.expression true _ _ _ hp he)

/-- A value that is assigned, behind its operator. -/
theorem outlined_assignment {op : AssignOp} {value : Expr} (hp : Placed text s)
    (h : (assignment? g header).run s = (.ok (some (op, value)), s')) : Reads text [value.outline] s s' := by
  obtain ⟨-, -, -, -, hv⟩ := assignment?_some.1 h
  exact (ho.expression header _ _ _ (hp.advances (.advance s)).1 hv).behindAdvance hp

/-- An `else` with its block, or with another `if`, which is a node from its `if` on. -/
theorem outlined_elsePart : (elsePart g).Outlines text Else.outlines := by
  intro s o s' hp h
  have hnext := (hp.advances (.advance s)).1
  rcases elsePart_ok.1 h with ⟨-, hk, parts, hif, rfl⟩ | ⟨-, -, body, hb, rfl⟩ | ⟨-, rfl, rfl⟩
  · have hparts := ho.elseIf _ _ _ hnext hif
    have hnode := hparts.node hnext (hparts.start_lt (List.cons_ne_nil _ _)) (List.forall_mem_nil _)
    exact hnode.behindAdvance hp
  · exact (ho.block _ _ _ hnext hb).behindAdvance hp
  · exact .refl hp

theorem outlined_ifBody : (ifBody g).Outlines text IfParts.outlines := by
  intro s parts s' hp h
  obtain ⟨-, s₁, s₂, hc, hb, he⟩ := ifBody_ok.1 h
  have hcondition := outlined_headerCondition ho _ _ _ (hp.advances (.advance s)).1 hc
  have hbody := ho.block _ _ _ hcondition.placed hb
  exact (hcondition.cons (hbody.cons (outlined_elsePart ho _ _ _ hbody.placed he))).behindAdvance hp

variable (hg : g.Settled)
include hg

theorem formRead_binding {form : BindingForm} (hp : Placed text s)
    (h : (binding? g header).run s = (.ok (some form), s')) :
    FormRead text (fun span => (form.stmt span).outline) s s' := by
  have hnext := (hp.advances (.advance s)).1
  rcases (binding?_some hg).1 h with ⟨-, name, init, hn, hi, rfl⟩ | ⟨-, name, e, hn, he, rfl⟩ |
    ⟨-, -, ⟨type, name⟩, s₁, ht, hb⟩
  · have hinit := outlined_initializer ho _ _ _ (hnext.advances (.advance _)).1 hi
    exact ⟨[.ident name], _, fun span => rfl, by simpa using hnext.legible hn (by simp),
      (hinit.behindAdvance hnext).behindAdvance hp⟩
  · have hvalue := ho.expression header _ _ _ (hnext.advances (.advance _)).1 he
    exact ⟨[.ident name], _, fun span => rfl, by simpa using hp.legible hn (by simp),
      (hvalue.behindAdvance hnext).behindAdvance hp⟩
  · obtain ⟨s₂, ht', hn, rfl⟩ := typeAndName_ok.1 ht
    have htype := ho.type 0 _ _ _ hp ht'
    have hname : (TokenKind.ident name).Legible := htype.placed.legible hn (by simp)
    have hplaced := htype.thenAdvance.placed
    rcases typedBinding_ok.1 hb with ⟨-, size, s₃, hs, -, rfl, rfl⟩ | ⟨-, init, hi, rfl⟩
    · have hsize := (ho.expression false _ _ _ (hplaced.advances (.advance _)).1 hs).behindAdvance hplaced
      exact ⟨[.ident name], _, fun span => rfl, by simpa using hname, htype.thenAdvance.cons hsize.thenAdvance⟩
    · exact ⟨[.ident name], _, fun span => rfl, by simpa using hname,
        htype.thenAdvance.trans (outlined_initializer ho _ _ _ hplaced hi)⟩

theorem formRead_simpleStatement {form : Span → Stmt} (hp : Placed text s)
    (h : (simpleStatement g).run s = (.ok form, s')) : FormRead text (fun span => (form span).outline) s s' := by
  rcases (simpleStatement_ok hg).1 h with ⟨binding, hb, rfl⟩ | ⟨-, target, s₁, ht, h⟩
  · exact formRead_binding ho hg hp hb
  · have htarget := ho.expression false _ _ _ hp ht
    rcases h with ⟨op, value, ha, rfl⟩ | ⟨-, rfl, rfl⟩
    · exact ⟨[], _, fun span => rfl, by simp, htarget.cons (outlined_assignment ho htarget.placed ha)⟩
    · exact ⟨[], _, fun span => rfl, by simp, htarget⟩

/-- A declaration at the head of a loop has at least its name. -/
theorem start_lt_of_binding {form : BindingForm} (hp : Placed text s)
    (h : (binding? g header).run s = (.ok (some form), s')) : s.start < s'.readStop := by
  have hnext := (hp.advances (.advance s)).1
  rcases (binding?_some hg).1 h with ⟨hk, name, init, hn, hi, rfl⟩ | ⟨-, name, e, hn, he, rfl⟩ |
    ⟨-, -, ⟨type, name⟩, s₁, ht, hb⟩
  · have hinit := outlined_initializer ho _ _ _ (hnext.advances (.advance _)).1 hi
    exact (hinit.behindAdvance hnext).start_lt_of_peek hp (by simp [hk])
  · have hvalue := ho.expression header _ _ _ (hnext.advances (.advance _)).1 he
    exact (hvalue.behindAdvance hnext).start_lt_of_peek hp (by simp [hn])
  · obtain ⟨s₂, ht', -, rfl⟩ := typeAndName_ok.1 ht
    have htype := ho.type 0 _ _ _ hp ht'
    have hrest := Reads.of_advances htype.thenAdvance.placed
      (advances_run (Alike.advances fun ts => Alike.typedBinding (.refl ts) (hg.steady ts) header rfl name) hb)
    exact (htype.thenAdvance.cons hrest).start_lt (by simp)

theorem outlined_forInit : (forInit g header).Outlines text fun i => [i.outline] := by
  intro s init s' hp h
  rcases (forInit_ok hg).1 h with ⟨binding, type, name, value, hb, rfl⟩ | ⟨-, e, he, rfl⟩
  · exact (formRead_binding ho hg hp hb).node hp (start_lt_of_binding ho hg hp hb)
  · exact ho.expression header _ _ _ hp he

omit hg in
theorem outlined_forStep : (forStep g header).Outlines text fun step => [step.outline] := by
  intro s step s' hp h
  obtain ⟨target, s₁, ht, ⟨op, value, ha, rfl⟩ | ⟨-, rfl, rfl⟩⟩ := forStep_ok.1 h
  · have htarget := ho.expression header _ _ _ hp ht
    have hall := htarget.cons (outlined_assignment ho htarget.placed ha)
    exact hall.node hp (hall.start_lt (by simp)) (by simp)
  · exact ho.expression header _ _ _ hp ht

theorem outlined_forHeader :
    (forHeader g header).Outlines text fun parts => [parts.1.outline, parts.2.1.outline, parts.2.2.outline] := by
  intro s parts s' hp h
  obtain ⟨s₁, s₂, hi, -, hc, -, hs⟩ := forHeader_ok.1 h
  have hinit := (outlined_forInit ho hg _ _ _ hp hi).thenAdvance
  have hcondition := (ho.expression header _ _ _ hinit.placed hc).thenAdvance
  exact hinit.cons (hcondition.cons (outlined_forStep ho _ _ _ hcondition.placed hs))

theorem formRead_forStatement {form : Span → Stmt} (hp : Placed text s)
    (h : (forStatement g).run s = (.ok form, s')) : FormRead text (fun span => (form span).outline) s s' := by
  have hnext := (hp.advances (.advance s)).1
  obtain ⟨-, ⟨name, iterable, s₁, body, hn, -, hi, hb, rfl⟩ | ⟨-, h⟩⟩ := forStatement_ok.1 h
  · have hbehind := (hnext.advances ((Advances.advance _).trans (.advance _))).1
    have hiterable := ho.expression true _ _ _ hbehind hi
    have hall := hiterable.cons (ho.block _ _ _ hiterable.placed hb)
    exact ⟨[.ident name], _, fun span => rfl, by simpa using hnext.legible hn (by simp),
      hall.behind hp ((Advances.advance s).trans ((Advances.advance _).trans (.advance _)))⟩
  · obtain ⟨init, condition, step, body, rfl, ⟨-, s₁, hh, -, hb⟩ | ⟨-, s₁, hh, hb⟩⟩ := forLoopRest_ok.1 h
    · have hheader := (outlined_forHeader ho hg _ _ _ (hnext.advances (.advance _)).1 hh).thenAdvance
      exact ⟨[], _, fun span => rfl, by simp,
        (hheader.trans (ho.block _ _ _ hheader.placed hb)).behind hp ((Advances.advance s).trans (.advance _))⟩
    · have hheader := outlined_forHeader ho hg _ _ _ hnext hh
      exact ⟨[], _, fun span => rfl, by simp, (hheader.trans (ho.block _ _ _ hheader.placed hb)).behindAdvance hp⟩

omit hg in
theorem formRead_returnStatement {form : Span → Stmt} (hp : Placed text s)
    (h : (returnStatement g).run s = (.ok form, s')) : FormRead text (fun span => (form span).outline) s s' := by
  have hnext := (hp.advances (.advance s)).1
  rcases returnStatement_ok.1 h with ⟨-, rfl, rfl⟩ | ⟨-, e, s₁, he, -, rfl, rfl⟩
  · exact ⟨[], _, fun span => rfl, by simp, (Reads.advance hnext).behindAdvance hp⟩
  · exact ⟨[], _, fun span => rfl, by simp, ((ho.expression false _ _ _ hnext he).thenAdvance).behindAdvance hp⟩

omit hg in
/-- The statements of a block stand inside of where the block was read. -/
theorem outlined_blockStatements {body : Block} (hp : Placed text s) (h : g.block.run s = (.ok body, s')) :
    Reads text (stmtListOutlines body.statements) s s' := by
  have hblock := ho.block _ _ _ hp h
  have hmem : body.outline ∈ [body.outline] := List.mem_singleton_self _
  have hbetween := hblock.standing.between _ hmem
  have hlaminar := hblock.laminar _ hmem
  cases body with
  | mk span statements =>
    cases hlaminar with
    | node _ _ _ hstanding hparts =>
      exact ⟨hblock.placed, hblock.stop_le, hblock.start_le, hstanding.mono hbetween.1 hbetween.2, hparts,
        by simpa [Block.outline, Block.statements] using hblock.legible⟩

theorem formRead_statementForm {form : Span → Stmt} (hp : Placed text s)
    (h : (statementForm g).run s = (.ok form, s')) : FormRead text (fun span => (form span).outline) s s' := by
  have hnext := (hp.advances (.advance s)).1
  rcases statementForm_ok.1 h with ⟨-, parts, hif, rfl⟩ | ⟨-, condition, s₁, body, hc, hb, rfl⟩ | ⟨-, h⟩ |
    ⟨-, e, s₁, he, -, rfl, rfl⟩ | ⟨-, h⟩ | ⟨-, -, rfl, rfl⟩ | ⟨-, -, rfl, rfl⟩ | ⟨-, body, hb, rfl⟩ |
    ⟨-, s₁, hs, -, rfl⟩
  · exact ⟨[], _, fun span => rfl, by simp, outlined_ifBody ho _ _ _ hp hif⟩
  · have hcondition := outlined_headerCondition ho _ _ _ hnext hc
    exact ⟨[], _, fun span => rfl, by simp,
      (hcondition.cons (ho.block _ _ _ hcondition.placed hb)).behindAdvance hp⟩
  · exact formRead_forStatement ho hg hp h
  · exact ⟨[], _, fun span => rfl, by simp, ((ho.expression false _ _ _ hnext he).thenAdvance).behindAdvance hp⟩
  · exact formRead_returnStatement ho hp h
  · exact ⟨[], [], fun span => rfl, by simp, (Reads.advance hnext).behindAdvance hp⟩
  · exact ⟨[], [], fun span => rfl, by simp, (Reads.advance hnext).behindAdvance hp⟩
  · exact ⟨[], _, fun span => rfl, by simp, outlined_blockStatements ho hp hb⟩
  · obtain ⟨words, parts, heq, hw, hparts⟩ := formRead_simpleStatement ho hg hp hs
    exact ⟨words, parts, heq, hw, hparts.thenAdvance⟩

theorem outlined_statement : (Parser.statement g).Outlines text fun st => [st.outline] := by
  intro s st s' hp h
  have hlength := length_of_statement hg h
  have hadvances := advances_run (Alike.advances fun ts => Alike.statement (.refl ts) (hg.steady ts)) h
  obtain ⟨form, hform, rfl⟩ := statement_ok.1 h
  exact (formRead_statementForm ho hg hp hform).node hp (hp.start_lt hadvances hlength)

/-- The statements of a block stand one behind another, whatever was skipped between them. -/
theorem outlined_blockRound (o : ParseOptions) (opened : Span) :
    (blockRound o g opened).Outlines text fun r => r.items.map Stmt.outline := by
  intro s r s' hp h
  have hadvances := advances_run
    (Alike.advances fun ts => Alike.blockRound (.refl ts) (hg.steady ts) o opened opened) h
  cases r with
  | stop | none => exact .of_advances hp hadvances
  | last st => exact absurd h blockRound_last
  | more st => exact outlined_statement ho hg _ _ _ hp (blockRound_more.1 h).2.2.2

theorem outlined_blockBody (o : ParseOptions) : (blockBody o g).Outlines text fun b => [b.outline] := by
  intro s body s' hp h
  simp [blockBody, expectMark, spanFrom] at h
  obtain ⟨hk, statements, h, rfl⟩ := h
  have hstatements := Outlines.collect (outlined_blockRound ho hg o _) _ _ _ (hp.advances (.advance s)).1 h
  dsimp only at hstatements
  rw [← stmtListOutlines_eq_map] at hstatements
  exact .nodeBehind hp (by simp [hk]) hstatements (by simp)

end

theorem outlined_ofRoom (text : List Char) (o : ParseOptions) (room : Nat) : (Inner.ofRoom o room).Outlined text := by
  induction room with
  | zero =>
    have hfails {α : Type} {f : α → List Outline} : (tooDeep o.maxDepth : Parser α).Outlines text f :=
      fun s a s' _ h => absurd (tooDeep_ok.1 h) id
    exact ⟨fun _ => hfails, fun _ => hfails, fun _ _ => hfails, fun _ => hfails, hfails, hfails⟩
  | succ room ih =>
    have hg := settled_ofRoom o room
    exact ⟨fun angles => outlined_typeExpr o.maxDepth (room + 1) angles, fun _ => outlined_expressionBody ih hg,
      fun _ level => outlined_chainBody ih hg level, fun _ => outlined_unaryBody ih hg, outlined_blockBody ih hg o,
      outlined_ifBody ih⟩

/-! ### Declarations -/

theorem outlined_declName : declName.Outlines text fun name => [name.outline] := by
  intro s name s' hp h
  have hnext := (hp.advances (.advance s)).1
  rcases declName_ok.1 h with ⟨raw, hk, rfl, rfl⟩ | ⟨first, hk, h⟩
  · exact .nodeBehind hp (by simp [hk]) (.refl hnext) (by simpa using hp.legible hk (by simp))
  · have hfirst : (TokenKind.ident first).Legible := hp.legible hk (by simp)
    rcases h with ⟨-, tail, ht, rfl⟩ | ⟨-, rfl, rfl⟩
    · exact .nodeBehind hp (by simp [hk]) (.of_advances hnext (advances_pathTail ht))
        (legible_nameWords (List.forall_mem_cons.2 ⟨hfirst, legible_pathTail hnext ht⟩))
    · exact .nodeBehind hp (by simp [hk]) (.refl hnext) (by simpa using hfirst)

theorem wordKind_spelling (k : Keyword) : wordKind k.spelling = .keyword k := by
  rcases k with type | _ | _ | _ | _ | _ | _ | kind | _ | _ | _ | _ | _ | _ | _ | _ | _ | value
  case primitive => cases type <;> decide
  case visibility => cases kind <;> decide
  case boolean => cases value <;> decide
  all_goals decide

/-- A segment of a module path is a word, reserved or not. -/
theorem legible_pathSegment {segment : String} (hp : Placed text s) (h : pathSegment.run s = (.ok segment, s')) :
    (wordKind segment).Legible := by
  obtain ⟨-, ⟨k, -, rfl⟩ | hk⟩ := pathSegment_ok.1 h
  · exact wordKind_spelling k ▸ legible_keyword k
  · unfold wordKind
    split
    · exact legible_keyword _
    · exact hp.legible hk (by simp)

section
variable (ho : g.Outlined text) (hg : g.Settled)
include ho hg

theorem outlined_attributed {as : List Attribute} (hp : Placed text s) (h : Attributed g s as s') :
    Reads text (as.map Attribute.outline) s s' := by
  induction h with
  | nil _ => exact .refl hp
  | bare hk hn _ _ ih =>
    have hnext := (hp.advances (.advance _)).1
    have hfirst := Reads.nodeBehind hp (by simp [hk]) (.advance hnext)
      (List.forall_mem_singleton.2 (hnext.legible hn (by simp)))
    exact hfirst.cons (ih hfirst.placed)
  | called hk hn _ hargs _ ih =>
    have hnext := (hp.advances (.advance _)).1
    have hargs := outlined_arguments ho hg _ _ _ (hnext.advances (.advance _)).1 hargs
    have hfirst := Reads.nodeBehind hp (by simp [hk]) (hargs.behindAdvance hnext)
      (List.forall_mem_singleton.2 (hnext.legible hn (by simp)))
    exact hfirst.cons (ih hfirst.placed)

theorem outlined_functionDecl {ms : List Modifier} {f : FunctionDecl} (hp : Placed text s)
    (h : (functionDecl g ms).run s = (.ok f, s')) :
    Reads text f.outlines s s' ∧ ∀ k ∈ nameWords f.generics ++ f.params.words, k.Legible := by
  obtain ⟨-, -, s₁, s₂, s₃, s₄, s₅, hn, ht, hps, has, hr, hb⟩ := (functionDecl_ok hg).1 h
  have hname := outlined_declName _ _ _ (hp.advances (.advance s)).1 hn
  have hgenerics := Reads.of_advances hname.placed
    (advances_run (Alike.advances fun ts => Alike.typeParams (.refl ts)) ht)
  obtain ⟨hparams, hw⟩ := outlined_paramList ho hg hgenerics.placed hps
  have hattributes := outlined_attributed ho hg hparams.placed has
  have hreturn : Reads text (optTypeOutlines f.returnType) s₄ s₅ := by
    rcases returnType_ok.1 hr with ⟨-, t, hsome, ht⟩ | ⟨-, hnone, rfl⟩
    · rw [hsome]
      exact (ho.type 0 _ _ _ (hattributes.placed.advances (.advance _)).1 ht).behindAdvance hattributes.placed
    · rw [hnone]
      exact .refl hattributes.placed
  have hbody : Reads text (optBlockOutlines f.body) s₅ s' := by
    rcases functionBody_ok.1 hb with ⟨-, -, body, hsome, hb⟩ | ⟨-, hnone, rfl⟩
    · rw [hsome]
      exact ho.block _ _ _ hreturn.placed hb
    · rw [hnone]
      exact .advance hreturn.placed
  refine ⟨(hname.cons (hgenerics.trans (hparams.trans (hattributes.trans (hreturn.trans hbody))))).behindAdvance hp, ?_⟩
  exact List.forall_mem_append.2 ⟨legible_typeParams hname.placed ht, hw⟩

omit hg in
theorem outlined_constDecl {ms : List Modifier} {c : ConstDecl} (hp : Placed text s)
    (h : (constDecl g ms).run s = (.ok c, s')) : Reads text c.outlines s s' ∧ (TokenKind.ident c.name).Legible := by
  obtain ⟨-, -, s₁, s₂, ht, hn, -, hv, -, rfl⟩ := constDecl_ok.1 h
  have hnext := (hp.advances (.advance s)).1
  have htype : Reads text (optTypeOutlines c.type) s.advance s₁ := by
    rcases constType_ok.1 ht with ⟨-, -, hnone, rfl⟩ | ⟨-, t, hsome, ht⟩
    · rw [hnone]
      exact .refl hnext
    · rw [hsome]
      exact ho.type 0 _ _ _ hnext ht
  have hbehind := htype.thenAdvance.thenAdvance
  have hvalue := (ho.expression false _ _ _ hbehind.placed hv).thenAdvance
  exact ⟨(hbehind.trans hvalue).behindAdvance hp, htype.placed.legible hn (by simp)⟩

omit hg in
theorem outlined_structField : (structField g).Outlines text fun f => [f.outline] := by
  intro s f s' hp h
  obtain ⟨hspan, h⟩ := structField_ok.1 h
  have hnext := (hp.advances (.advance s)).1
  have hfield : Reads text [f.type.outline] s s' ∧ (TokenKind.ident f.name).Legible := by
    rcases h with ⟨-, hk, ht⟩ | ⟨-, s₁, ht, hk, rfl⟩
    · have htype := ho.type 0 _ _ _ (hnext.advances (.advance _)).1 ht
      exact ⟨(htype.behindAdvance hnext).behindAdvance hp, hp.legible hk (by simp)⟩
    · have htype := ho.type 0 _ _ _ hp ht
      exact ⟨htype.thenAdvance, htype.placed.legible hk (by simp)⟩
  have hnode := hfield.1.node hp (hfield.1.start_lt (by simp)) (List.forall_mem_singleton.2 hfield.2)
  rwa [← hspan] at hnode

omit hg in
theorem outlined_fields {fs : List Field} (hp : Placed text s) (h : Fields g s fs s') :
    Reads text (fs.map Field.outline) s s' := by
  induction h with
  | nil _ => exact .advance hp
  | ended _ h _ _ ih =>
    have hfirst := (outlined_structField ho _ _ _ hp h).thenAdvance
    exact hfirst.cons (ih hfirst.placed)
  | last _ h _ he => exact he ▸ (outlined_structField ho _ _ _ hp h).thenAdvance

theorem outlined_structDecl {ms : List Modifier} {d : StructDecl} (hp : Placed text s)
    (h : (structDecl g ms).run s = (.ok d, s')) :
    Reads text d.outlines s s' ∧ ∀ k ∈ nameWords (d.name :: d.generics), k.Legible := by
  obtain ⟨-, -, hn, s₁, s₂, s₃, ht, has, -, hfs, hend⟩ := (structDecl_ok hg).1 h
  have hnext := (hp.advances (.advance s)).1
  have hname : (TokenKind.ident d.name).Legible := hnext.legible hn (by simp)
  have hgenerics := Reads.of_advances (hnext.advances (.advance _)).1
    (advances_run (Alike.advances fun ts => Alike.typeParams (.refl ts)) ht)
  have hattributes := (outlined_attributed ho hg hgenerics.placed has).thenAdvance
  have hfields := outlined_fields ho hattributes.placed hfs
  have hall := ((hgenerics.trans (hattributes.trans hfields)).behindAdvance hnext).behindAdvance hp
  refine ⟨?_, List.forall_mem_cons.2 ⟨hname, legible_typeParams (hnext.advances (.advance _)).1 ht⟩⟩
  rw [hend]
  split
  · exact hall.thenAdvance
  · exact hall

theorem formRead_modifiedForm {form : Span → Declaration} (hp : Placed text s)
    (h : (modifiedForm g).run s = (.ok form, s')) : FormRead text (fun span => (form span).outline) s s' := by
  obtain ⟨ms, s₁, hms, h⟩ := modifiedForm_ok.1 h
  have hmodifiers := Reads.of_advances hp
    (advances_run (Alike.advances fun ts => Alike.modifierList (.refl ts)) (modifierList_ok.2 hms))
  rcases h with ⟨-, decl, hd, rfl⟩ | ⟨-, decl, hd, rfl⟩ | ⟨-, decl, hd, rfl⟩
  · obtain ⟨hparts, hw⟩ := outlined_functionDecl ho hg hmodifiers.placed hd
    refine ⟨_, _, fun span => ?_, hw, hmodifiers.trans hparts⟩
    unfold functionForm
    split <;> rfl
  · obtain ⟨hparts, hw⟩ := outlined_constDecl ho hmodifiers.placed hd
    exact ⟨_, _, fun span => rfl, by simpa using hw, hmodifiers.trans hparts⟩
  · obtain ⟨hparts, hw⟩ := outlined_structDecl ho hg hmodifiers.placed hd
    exact ⟨_, _, fun span => rfl, hw, hmodifiers.trans hparts⟩

theorem formRead_declarationForm {form : Span → Declaration} (hp : Placed text s)
    (h : (declarationForm g).run s = (.ok form, s')) : FormRead text (fun span => (form span).outline) s s' := by
  rcases declarationForm_ok.1 h with ⟨-, path, hi, rfl⟩ | ⟨-, options, hl, rfl⟩ |
    ⟨-, name, hm, rfl⟩ | ⟨-, -, -, h⟩
  · have hadvances := advances_run (Alike.advances fun ts => Alike.importPath (.refl ts)) hi
    obtain ⟨-, s₁, hl, -, rfl⟩ := importPath_ok.1 hi
    have hwords := forall_of_listed advances_pathSegment (fun _ _ _ hp h => legible_pathSegment hp h)
      (hp.advances (.advance s)).1 hl
    exact ⟨_, [], fun span => rfl, by simpa using hwords, .of_advances hp hadvances⟩
  · have hadvances := advances_run (Alike.advances fun ts => Alike.globalLine (.refl ts)) hl
    exact ⟨[], [], fun span => rfl, by simp, .of_advances hp hadvances⟩
  · have hadvances := advances_run (Alike.advances fun ts => Alike.moduleLine (.refl ts)) hm
    obtain ⟨hk, -, rfl⟩ := moduleLine_ok.1 hm
    exact ⟨_, [], fun span => rfl, by simpa using (hp.advances (.advance s)).1.legible hk (by simp),
      .of_advances hp hadvances⟩
  · exact formRead_modifiedForm ho hg hp h

theorem outlined_declaration : (declaration g).Outlines text fun d => [d.outline] := by
  intro s d s' hp h
  have hlength := length_of_declaration hg h
  have hadvances := advances_run (Alike.advances fun ts => Alike.declaration (.refl ts) (hg.steady ts)) h
  obtain ⟨form, hform, rfl⟩ := declaration_ok.1 h
  exact (formRead_declarationForm ho hg hp hform).node hp (hp.start_lt hadvances hlength)

end

/-- The declarations of a program stand one behind another, whatever was skipped between them. -/
theorem outlined_program (text : List Char) (o : ParseOptions) :
    (program o).Outlines text fun ds => ds.map Declaration.outline := by
  refine Outlines.collect fun s r s' hp h => ?_
  have hadvances := advances_run (Alike.advances fun ts => Alike.programRound (.refl ts) o) h
  cases r with
  | stop | none => exact .of_advances hp hadvances
  | last d => exact absurd h programRound_last
  | more d =>
    exact outlined_declaration (outlined_ofRoom text o o.maxDepth) (settled_ofRoom o o.maxDepth) _ _ _ hp
      (programRound_more.1 h).2.2

end Parser

end ElleFrontEnd
