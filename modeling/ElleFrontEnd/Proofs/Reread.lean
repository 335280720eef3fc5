import ElleFrontEnd.Proofs.LeadGrammar
import ElleFrontEnd.Proofs.Ready

/-!
# Reading again what was printed

What was read from a source is printed, and the printed form is read again.  Where a parser succeeded on the source, it
succeeds on the printed form, with the same tree but for the spans and up to the same place, provided that what
follows there agrees with what followed in the source (`Meets`): it is the same token, or one that ends every
expression.

The printed form may be read in another place than the source was: the header of a statement may have got parentheses
or lost them (`Admits`), and nesting may go deeper, since `&&` is printed as two operators and the condition of a
statement in parentheses.

This module has the parts that are not expressions: lists, types and parameters.
-/

namespace ElleFrontEnd

open Fragment

/-! ### What may follow -/

/-- Whether an expression has ended before the token, wherever it stands. -/
def closes : TokenKind → Bool
  | .punctuation .comma | .punctuation .semicolon | .punctuation .colon | .punctuation .rParen | .punctuation .rBracket
  | .punctuation .lBrace | .punctuation .rBrace => true
  | _ => false

theorem opensOperand_of_closes {even : Bool} {k : TokenKind} (h : closes k = true) :
    Parser.opensOperand even k = false := by
  unfold closes at h
  split at h <;> first | rfl | simp at h

/-- What follows agrees with what followed at `s`.  Outside of the header of a statement, no brace follows. -/
structure Continues (header : Bool) (s : ParseState) (f : List Fragment) : Prop where
  agrees : next f = s.peek.kind ∨ closes (next f) = true
  loose : Loose f
  brace : header = false → next f ≠ .punctuation .lBrace

/-- What may follow an expression that ended at `s`. -/
structure Meets (header : Bool) (s : ParseState) (f : List Fragment) : Prop extends Continues header s f where
  lt : ¬ touchesWith (.operator .lt) f

/-- Whether an expression that was read in a header or not may be read in one: it has no brace, or did not need one to
be kept from it. -/
def Admits (header header' : Bool) (ks : List TokenKind) : Prop :=
  header' = true → header = true ∨ TokenKind.punctuation .lBrace ∉ ks

theorem Admits.of_append {header header' : Bool} {ks ls : List TokenKind} (h : Admits header header' (ks ++ ls)) :
    Admits header header' ks ∧ Admits header header' ls :=
  ⟨fun hh => (h hh).imp id fun hb hm => hb (List.mem_append_left _ hm),
    fun hh => (h hh).imp id fun hb hm => hb (List.mem_append_right _ hm)⟩

theorem Admits.of_false {header : Bool} {ks : List TokenKind} : Admits header false ks := fun h => by simp at h

/-- Before a token that closes, an expression has ended in the source and in the printed form. -/
theorem Meets.of_closes {header : Bool} {s : ParseState} {f : List Fragment} (h : closes (next f) = true)
    (hb : header = false → next f ≠ .punctuation .lBrace) : Meets header s f := by
  have hne {k : TokenKind} (hk : closes k = false) : next f ≠ k := by
    rintro rfl
    simp [h] at hk
  exact ⟨⟨.inr h, loose_of_ne (hne rfl), hb⟩, fun ht => hne (k := .operator .lt) rfl ht.2⟩

theorem Meets.of_space {header : Bool} {s : ParseState} {f : List Fragment} (h : Continues header s (.space :: f)) :
    Meets header s (.space :: f) := ⟨h, by simp [touchesWith]⟩

namespace Continues

variable {header : Bool} {s : ParseState} {f : List Fragment} (h : Continues header s f)
include h

/-- What does not follow in the source, and does not close an expression, does not follow in the printed form. -/
theorem ne {k : TokenKind} (hk : s.peek.kind ≠ k) (hc : closes k = false) : next f ≠ k := by
  rintro rfl
  rcases h.agrees with ha | ha
  · exact hk ha.symm
  · simp [ha] at hc

theorem peek {u : ParseState} (hu : Clear u f) : u.peek.kind = next f := hu.fragments.peek_of_loose hu.owed h.loose

theorem stops {level : Nat} {u : ParseState} (hs : Parser.Stops level s) (hu : Clear u f) : Parser.Stops level u := by
  refine ⟨?_, ?_, ?_, fun op hk hfix => ?_⟩
  · rw [h.peek hu]
    exact h.ne hs.paren rfl
  · rw [h.peek hu]
    exact h.ne hs.dot rfl
  · rw [h.peek hu]
    exact h.ne hs.bracket rfl
  · rw [h.peek hu] at hk
    rcases h.agrees with ha | ha
    · exact hs.operator op (ha.symm.trans hk) hfix
    · simp [hk, closes] at ha

end Continues

/-- Whether a type can be read back where nesting is limited to `room`. -/
structure TypeWithin (room : Nat) (t : TypeExpr) : Prop where
  wellFormed : t.WellFormed
  height : t.height 0 ≤ room

/-- Whether type arguments can be read back where nesting is limited to `room`. -/
structure ArgsWithin (room : Nat) (args : List TypeExpr) : Prop where
  ne_nil : args ≠ []
  wellFormed : typeListWellFormed args
  height : typeListHeight 0 args ≤ room

/-- Whether fragments begin with the type arguments of a call. -/
def Fragment.OpensCall (room : Nat) (f : List Fragment) : Prop :=
  ∃ args f', f = Fragment.angles (commas (typeListLayout args)) ++ f' ∧ next f' = .punctuation .lParen ∧
    ArgsWithin room args

/-- What may follow a primary expression that ended at `s`: type arguments only where those of a call followed in the
source, and no parenthesis that would belong to a sigil. -/
structure Behind (room : Nat) (e : Expr) (header : Bool) (s : ParseState) (f : List Fragment) : Prop
    extends Continues header s f where
  lt : touchesWith (.operator .lt) f → e.takesGenerics = true ∧ OpensCall room f
  sigil : (∃ span n, e = .sigil span n none) → ¬ touchesWith (.punctuation .lParen) f

theorem Behind.meets {room : Nat} {e : Expr} {header : Bool} {s : ParseState} {f : List Fragment}
    (h : Behind room e header s f) (he : e.takesGenerics = false) : Meets header s f :=
  ⟨h.toContinues, fun ht => by simp [(h.lt ht).1] at he⟩

/-! ### Lists -/

namespace Fragment

theorem next_append {f : List Fragment} {k : TokenKind} {ks : List TokenKind} (h : tokens f = k :: ks)
    (f' : List Fragment) : next (f ++ f') = k :=
  (next_of_tokens (by rw [tokens_append, h]; rfl)).1

end Fragment

theorem exprListLayout_eq_map (depth : Nat) (es : List Expr) :
    exprListLayout depth es = es.map (Expr.layout depth true) := by
  induction es with
  | nil => rfl
  | cons e es ih => rw [exprListLayout, ih, List.map_cons]

namespace Parser

variable {α : Type} {s s' : ParseState} {R : α → α → Prop} {item item' : Parser α} {layout : α → List Fragment}
  {close : Punctuation}

/-- A printed item of a list is read again before a comma and before the closer, and opens with a token of its own. -/
structure RereadsItem (close : Punctuation) (item' : Parser α) (layout : α → List Fragment) (R : α → α → Prop) (a : α) :
    Prop where
  opens : ∃ k ks, tokens (layout a) = k :: ks ∧ k ≠ .punctuation close ∧ k ≠ .eof ∧ k ≠ .operator .gt
  rereads : ∀ {u : ParseState} {f : List Fragment}, next f = .punctuation .comma ∨ next f = .punctuation close →
    Faces u (layout a ++ f) → ∃ a' u', item'.run u = (.ok a', u') ∧ R a a' ∧ Clear u' f

/-- A printed list between commas is read, if each of its items is. -/
theorem commaListed_shows (hc : close ≠ .comma) {as : List α}
    (has : ∀ a ∈ as, RereadsItem close item' layout R a) {u : ParseState} {f : List Fragment}
    (hu : Faces u (commas (as.map layout) ++ f)) (hf : next f = .punctuation close) :
    ∃ as' u', CommaListed close item' u as' u' ∧ List.Forall₂ R as as' ∧ Faces u' f := by
  have hnot {a : α} {u : ParseState} {f : List Fragment} (ha : RereadsItem close item' layout R a)
      (hu : Faces u (layout a ++ f)) : ¬ endsList close u := by
    obtain ⟨k, ks, hk, hne, he, hg⟩ := ha.opens
    have hp : u.peek.kind = k := by
      rw [hu.peek (by rwa [next_append hk]), next_append hk]
    rintro (h | h)
    · exact hne (hp.symm.trans h)
    · rw [ParseState.atEnd, hp] at h
      cases k <;> simp [TokenKind.isEof] at h he
  induction as generalizing u with
  | nil =>
    simp only [List.map_nil, commas_nil, List.nil_append] at hu
    exact ⟨[], u, .nil (.inl (by rw [hu.peek (by simp [hf]), hf])), .nil, hu⟩
  | cons a as ih =>
    have ha := has a List.mem_cons_self
    cases as with
    | nil =>
      simp only [List.map_cons, List.map_nil, commas_singleton] at hu
      obtain ⟨a', u', hrun, hR, hu'⟩ := ha.rereads (.inr hf) hu
      refine ⟨[a'], u', .last (hnot ha hu) hrun ?_, .cons hR .nil, hu'.faces⟩
      intro hk
      have := hu'.next_of_peek hk (by simp)
      rw [hf] at this
      exact hc (by simpa using this)
    | cons b bs =>
      rw [List.map_cons, List.map_cons, commas_cons_cons, List.append_assoc] at hu
      obtain ⟨a', u₁, hrun, hR, hu₁⟩ := ha.rereads (.inl rfl) hu
      obtain ⟨hk, hu₂⟩ := hu₁.faces.mark
      obtain ⟨bs', u', hlist, hRs, hu'⟩ := ih (fun c hm => has c (List.mem_cons_of_mem _ hm)) (by simpa using hu₂.space)
      exact ⟨a' :: bs', u', .more (hnot ha hu) hrun hk hlist, .cons hR hRs, hu'⟩

/-- A printed list between commas is read again. -/
theorem commaListed_rereads (hkeep : item.Keeps)
    (hitem : ∀ {s a s'}, Ready s → item.run s = (.ok a, s') → RereadsItem close item' layout R a)
    (hc : close ≠ .comma) {as : List α} (hs : Ready s) (h : CommaListed close item s as s') {u : ParseState}
    {f : List Fragment} (hu : Faces u (commas (as.map layout) ++ f)) (hf : next f = .punctuation close) :
    ∃ as' u', CommaListed close item' u as' u' ∧ List.Forall₂ R as as' ∧ Faces u' f := by
  refine commaListed_shows hc ?_ hu hf
  clear hu hf
  induction h with
  | nil _ => simp
  | last _ h _ => simpa using hitem hs h
  | more _ h _ _ ih => exact List.forall_mem_cons.2 ⟨hitem hs h, ih (hkeep hs h).advance⟩

end Parser

/-! ### What is read again -/

/-- Whether a type has ended before the token, where it is no type argument. -/
def endsType : TokenKind → Bool
  | .punctuation .comma | .punctuation .semicolon | .punctuation .rParen | .punctuation .lBrace | .ident _ => true
  | _ => false

/-- An expression that was read in a header or not, up to `s`, is read again by `p`. -/
def RereadsExpr (p : Bool → Parser Expr) (header : Bool) (e : Expr) (s : ParseState) : Prop :=
  ∀ (depth : Nat) (header' : Bool) (u : ParseState) (f : List Fragment),
    Admits header header' (tokens (e.layout depth true)) → Meets header' s f → Faces u (e.layout depth true ++ f) →
    ∃ e' u', (p header').run u = (.ok e', u') ∧ SameExpr e e' ∧ Clear u' f

/-- The printed form of an `if`. -/
def IfParts.layout (depth : Nat) (parts : IfParts) : List Fragment :=
  ifLayout (headerLayout parts.condition (parts.condition.layout depth true)) (parts.body.layout depth) ++
    parts.otherwise.layout depth

/-- What the parsers `g` of nested constructs have read from a source, the parsers `G` read again from its printed
form. -/
structure Inner.Replayed (g G : Inner) (limit room limit' room' : Nat) : Prop where
  settled : g.Settled
  settled' : G.Settled
  forms : g.Forms
  keeping : g.Keeping
  leading : g.Leading limit room
  type' : G.type = Parser.typeExpr limit' room'
  room_le : room ≤ room'
  positive : ∀ {header s e s'}, (g.expression header).run s = (.ok e, s') → 0 < room
  unwrapped : ∀ {header s span e s'}, Ready s → (g.expression header).run s = (.ok (.paren span e), s') →
    ∃ s₁, RereadsExpr G.expression false e s₁
  expression : ∀ {header s e s'}, Ready s → (g.expression header).run s = (.ok e, s') →
    RereadsExpr G.expression header e s'
  chain : ∀ {header level s e s'}, level ≤ leadingLevel → Ready s → (g.chain header level).run s = (.ok e, s') →
    RereadsExpr (G.chain · level) header e s'
  unary : ∀ {header s e s'}, Ready s → (g.unary header).run s = (.ok e, s') → RereadsExpr G.unary header e s'
  block : ∀ {s body s'}, Ready s → g.block.run s = (.ok body, s') →
    ∀ {depth : Nat} {u : ParseState} {f : List Fragment},
    Faces u (body.layout depth ++ f) → ∃ body' u', G.block.run u = (.ok body', u') ∧ SameBlock body body' ∧ Clear u' f
  elseIf : ∀ {s parts s'}, Ready s → g.elseIf.run s = (.ok parts, s') → ∀ {depth : Nat} {u : ParseState}
    {f : List Fragment}, next f ≠ .keyword .elseKw → Faces u (parts.layout depth ++ f) →
    ∃ parts' u', G.elseIf.run u = (.ok parts', u') ∧ SameIf parts parts' ∧ Clear u' f

/-! ### Types -/

/-- A type opens with a word, a name or a parenthesis; behind a word or a name, it ends or goes on with an operator or
a bracket. -/
theorem TypeExpr.layout_second (t : TypeExpr) : ∃ k f, t.layout = .token k :: f ∧ opensType k = true ∧
    (k = .punctuation .lParen ∨ f = [] ∨ ∃ k' f', f = .token k' :: f' ∧
      (k' = .operator .star ∨ k' = .punctuation .lBracket ∨ k' = .operator .lt)) := by
  match t with
  | .primitive _ _ | .named _ _ =>
    rw [layout]
    exact ⟨_, _, rfl, rfl, .inr (.inl rfl)⟩
  | .generic _ _ _ =>
    rw [layout]
    exact ⟨_, _, rfl, rfl, .inr (.inr ⟨_, _, rfl, .inr (.inr rfl)⟩)⟩
  | .tuple _ _ _ =>
    rw [layout]
    exact ⟨_, _, rfl, rfl, .inl rfl⟩
  | .array _ t dims =>
    obtain ⟨k, f, h, hk, hf⟩ := t.layout_second
    rw [layout, h]
    refine ⟨k, _, rfl, hk, ?_⟩
    rcases hf with rfl | rfl | ⟨k', f', rfl, hk'⟩
    · exact .inl rfl
    · cases dims with
      | zero => exact .inr (.inl rfl)
      | succ n => exact .inr (.inr ⟨_, _, rfl, .inr (.inl rfl)⟩)
    · exact .inr (.inr ⟨k', _, rfl, hk'⟩)
  | .pointer _ t depth =>
    obtain ⟨k, f, h, hk, hf⟩ := t.layout_second
    rw [layout, h]
    refine ⟨k, _, rfl, hk, ?_⟩
    rcases hf with rfl | rfl | ⟨k', f', rfl, hk'⟩
    · exact .inl rfl
    · cases depth with
      | zero => exact .inr (.inl rfl)
      | succ n => exact .inr (.inr ⟨_, _, rfl, .inl rfl⟩)
    · exact .inr (.inr ⟨k', _, rfl, hk'⟩)

namespace Parser

variable {s s' u : ParseState} {g G : Inner} {limit room limit' room' : Nat} {f : List Fragment}

/-- The first two tokens of a type and a name. -/
theorem TypeExpr.peek_of_faces {t : TypeExpr} {n : String} (hu : Faces u (t.layout ++ space :: ofName n :: f)) :
    opensType u.peek.kind = true ∧ (u.peek.kind = .punctuation .lParen ∨ u.kindAt 1 = .ident n ∨
      u.kindAt 1 = .operator .star ∨ u.kindAt 1 = .punctuation .lBracket ∨ u.kindAt 1 = .operator .lt) := by
  obtain ⟨k, f', hf, hk, hs⟩ := t.layout_second
  have hg : k ≠ .operator .gt := by
    rintro rfl
    simp [opensType] at hk
  have he : k ≠ .eof := by
    rintro rfl
    simp [opensType] at hk
  rw [hf, List.cons_append] at hu
  have hp := hu.peek (by simpa using hg)
  have hsecond (hgt : next (f' ++ space :: ofName n :: f) ≠ .operator .gt) :
      u.kindAt 1 = next (f' ++ space :: ofName n :: f) := by
    simpa using hu.kindAt_one (by simpa using hg) (by simpa using he) (by simpa using hgt)
  simp only [next_token] at hp
  rw [hp]
  refine ⟨hk, ?_⟩
  rcases hs with rfl | rfl | ⟨k', f', rfl, rfl | rfl | rfl⟩
  · exact .inl rfl
  · exact .inr (.inl (hsecond (by simp)))
  · exact .inr (.inr (.inl (hsecond (by simp))))
  · exact .inr (.inr (.inr (.inl (hsecond (by simp)))))
  · exact .inr (.inr (.inr (.inr (hsecond (by simp)))))

/-- A type that is printed as a bare name was read from one. -/
theorem typeExpr_of_name {t : TypeExpr} {n : String} (h : (typeExpr limit room 0).run s = (.ok t, s'))
    (hl : t.layout = [ofName n]) : s.peek.kind = .ident n ∧ s' = s.advance := by
  have hw := wellFormed_typeExpr h
  have hnamed : ∃ span, t = .named span n := by
    cases t with
    | named span m =>
      simp [TypeExpr.layout] at hl
      exact ⟨span, by rw [hl]⟩
    | primitive | generic | tuple => simp [TypeExpr.layout, Fragment.angles, parens] at hl
    | array span t dims =>
      obtain ⟨k, f, hf, -⟩ := t.layout_cons
      obtain ⟨d, rfl⟩ : ∃ d, dims = d + 1 := ⟨dims - 1, by have := hw.2.2; omega⟩
      simp [TypeExpr.layout, hf, List.replicate_succ] at hl
    | pointer span t depth =>
      obtain ⟨k, f, hf, -⟩ := t.layout_cons
      obtain ⟨d, rfl⟩ : ∃ d, depth = d + 1 := ⟨depth - 1, by have := hw.2.2; omega⟩
      simp [TypeExpr.layout, hf, List.replicate_succ] at hl
  obtain ⟨span, rfl⟩ := hnamed
  obtain ⟨inner, rfl, hbody⟩ := typeExpr_ok.1 h
  obtain ⟨base, s₁, hb, hgrow⟩ := typeBody_ok.1 hbody
  have hnot {t t' : TypeExpr} {start : Nat} {s s' : ParseState} (h : Grows (typeSuffix start) t s t' s') :
      t' = t ∧ s' = s ∨ t'.isPointer = true ∨ t'.isArray = true := by
    induction h with
    | stop h => exact .inl ⟨rfl, ((typeSuffix_none.1 h).2).symm⟩
    | next h _ ih =>
      rcases ih with ⟨rfl, rfl⟩ | h'
      · obtain ⟨-, ⟨-, n, -, rfl⟩ | ⟨-, -, n, -, rfl⟩⟩ := typeSuffix_some.1 h
        · exact .inr (.inl rfl)
        · exact .inr (.inr rfl)
      · exact .inr h'
  rcases hnot hgrow with ⟨rfl, rfl⟩ | h | h
  · rcases baseType_ok.1 hb with ⟨p, -, -, ht⟩ | ⟨m, hk, hm⟩ | ⟨-, ht⟩
    · simp at ht
    · rcases namedType_ok.1 hm with ⟨-, -, args, -, ht⟩ | ⟨-, rfl, ht⟩
      · simp at ht
      · cases ht
        exact ⟨hk, rfl⟩
    · obtain ⟨_, _, _, _, -, -, -, -, -, hpair⟩ := tupleType_ok.1 ht
      cases hpair
  · simp [TypeExpr.isPointer] at h
  · simp [TypeExpr.isArray] at h

/-- A printed type is read before a token that ends it. -/
theorem shows_type (hG : G.type = typeExpr limit room) {t : TypeExpr} (ht : TypeWithin room t)
    (hf : endsType (next f) = true) (hu : Faces u (t.layout ++ f)) :
    ∃ t' u', (G.type 0).run u = (.ok t', u') ∧ SameType t t' ∧ Clear u' f := by
  have hne {k : TokenKind} (hk : endsType k = false) : next f ≠ k := by
    rintro rfl
    simp [hf] at hk
  obtain ⟨t', u', hrun, hsame, hs⟩ := readsTypes_typeExpr limit room t 0 u f ht.wellFormed ht.height
    ⟨hne rfl, hne rfl, fun ht => hne (k := .operator .lt) rfl ht.2, fun ht => absurd ht.2 (hne rfl)⟩ hu
  rw [hG]
  exact ⟨t', u', hrun, hsame, .of_shows hs (hne rfl)⟩

/-- Printed type arguments are read before a parenthesis or a brace. -/
theorem shows_typeArgs (hG : G.type = typeExpr limit room) {args : List TypeExpr} (hargs : ArgsWithin room args)
    (hf : next f = .punctuation .lParen ∨ next f = .punctuation .lBrace)
    (hu : Faces u (Fragment.angles (commas (typeListLayout args)) ++ f)) :
    ∃ args' u', (typeArgs G.type 0).run u = (.ok args', u') ∧
      Same (typeListMapSpans noSpan) args args' ∧ Clear u' f := by
  have hgt : next f ≠ .operator .gt := by rcases hf with hf | hf <;> simp [hf]
  rw [hG]
  obtain ⟨args', u', hrun, hsame, hs⟩ := typeArgs_shows (advances_typeExpr limit room)
    (readsTypes_typeExpr limit room) hargs.ne_nil hargs.wellFormed hargs.height hu fun ht => absurd ht.2 hgt
  refine ⟨args', u', hrun, ?_, .of_shows hs hgt⟩
  change typeListMapSpans noSpan args = typeListMapSpans noSpan args'
  rw [typeListMapSpans_eq_map, typeListMapSpans_eq_map, map_eq_of_same hsame]

variable (hr : g.Replayed G limit room limit' room')
include hr

/-- A type that was read from a source nests no deeper than is allowed where it is printed. -/
theorem typeWithin_type {t : TypeExpr} (h : (g.type 0).run s = (.ok t, s')) : TypeWithin room' t := by
  rw [hr.leading.type] at h
  exact ⟨wellFormed_typeExpr h, Nat.le_trans (typeExpr_height _ _ _ _ _ _ h) hr.room_le⟩

/-- Types are read again. -/
theorem rereads_type {t : TypeExpr} (h : (g.type 0).run s = (.ok t, s')) (hf : endsType (next f) = true)
    (hu : Faces u (t.layout ++ f)) : ∃ t' u', (G.type 0).run u = (.ok t', u') ∧ SameType t t' ∧ Clear u' f :=
  shows_type hr.type' (typeWithin_type hr h) hf hu

/-- Type arguments that were read from a source nest no deeper than is allowed where they are printed. -/
theorem argsWithin_typeArgs {args : List TypeExpr} (h : (typeArgs g.type 0).run s = (.ok args, s')) :
    ArgsWithin room' args := by
  obtain ⟨hne, hw, hheight⟩ := wellFormed_typeArgs_leading hr.leading h
  exact ⟨hne, hw, Nat.le_trans hheight hr.room_le⟩

end Parser

end ElleFrontEnd
