import ElleFrontEnd.Proofs.Lossless
import ElleFrontEnd.Proofs.Words
import Mathlib.Algebra.GroupWithZero.Nat

/-!
# Counting parentheses

The parentheses of a text are counted by its `(`.  Printing a token writes as many as the token has
(`count_render`), lexing finds no more in its tokens than there are in the text (`openingsOf_lex_le`), and reading a
type passes as many as are printed of it (`openings_typeExpr`).
-/

namespace ElleFrontEnd

open Fragment

/-- The number of `(` that a token is written with. -/
def TokenKind.openings (kind : TokenKind) : Nat := kind.display.toList.count '('

/-- The number of `(` that tokens are written with. -/
def openingsOf (kinds : List TokenKind) : Nat := (kinds.map TokenKind.openings).sum

/-- The number of `(` in printed fragments. -/
def Fragment.openings (f : List Fragment) : Nat := openingsOf (tokens f)

@[simp] theorem openings_keyword (k : Keyword) : (TokenKind.keyword k).openings = 0 := by
  cases k with
  | primitive type => cases type <;> decide
  | visibility kind => cases kind <;> decide
  | boolean value => cases value <;> decide
  | _ => decide

@[simp] theorem openings_operator (o : Operator) : (TokenKind.operator o).openings = 0 := by
  cases o <;> decide

@[simp] theorem openings_punctuation (p : Punctuation) :
    (TokenKind.punctuation p).openings = if p = .lParen then 1 else 0 := by
  cases p <;> decide

@[simp] theorem openingsOf_nil : openingsOf [] = 0 := rfl

@[simp] theorem openingsOf_cons (k : TokenKind) (ks : List TokenKind) :
    openingsOf (k :: ks) = k.openings + openingsOf ks := rfl

@[simp] theorem openingsOf_append (ks ls : List TokenKind) : openingsOf (ks ++ ls) = openingsOf ks + openingsOf ls := by
  simp [openingsOf]

/-! ### Fragments -/

namespace Fragment

@[simp] theorem openings_nil : openings [] = 0 := rfl

@[simp] theorem openings_token (k : TokenKind) (f : List Fragment) :
    openings (.token k :: f) = k.openings + openings f := rfl

@[simp] theorem openings_space (f : List Fragment) : openings (space :: f) = openings f := rfl

@[simp] theorem openings_line (d : Nat) (f : List Fragment) : openings (line d :: f) = openings f := rfl

@[simp] theorem openings_append (f g : List Fragment) : openings (f ++ g) = openings f + openings g := by
  simp [openings]

@[simp] theorem openings_parens (f : List Fragment) : openings (parens f) = openings f + 1 := by
  simp [parens, Nat.add_comm]

@[simp] theorem openings_angles (f : List Fragment) : openings (angles f) = openings f := by simp [angles]

@[simp] theorem openings_flatten (items : List (List Fragment)) :
    openings items.flatten = (items.map openings).sum := by
  induction items with
  | nil => rfl
  | cons item items ih => simp [ih]

/-- Separators without parentheses do not count. -/
theorem openings_separated {sep : List Fragment} (hsep : openings sep = 0) (items : List (List Fragment)) :
    openings (separated sep items) = (items.map openings).sum := by
  induction items with
  | nil => rfl
  | cons item items ih =>
    cases items with
    | nil => simp [separated]
    | cons next items =>
      simp [separated] at ih
      simp [separated, hsep, ih]

@[simp] theorem openings_commas (items : List (List Fragment)) :
    openings (commas items) = (items.map openings).sum :=
  openings_separated (by simp [commaSpace]) items

/-- The `(` of a printed text are those of its tokens. -/
theorem count_render (indent : Nat) (f : List Fragment) : (render indent f).toList.count '(' = openings f := by
  induction f with
  | nil => rfl
  | cons a f ih =>
    have hrender : render indent (a :: f) = a.text indent ++ render indent f := String.join_cons
    rw [hrender, String.toList_append, List.count_append, ih]
    cases a with
    | token k => rfl
    | space => simp [text]
    | line d => simp [text, List.count_replicate]

end Fragment

/-! ### Texts -/

/-- Lexemes in their places hold no more `(` than what they take. -/
theorem openingsOf_placed_le {place : Place} {cuts : List Cut} (hcuts : ∀ cut ∈ cuts, cut.Faithful)
    (hf : (placed place cuts).errors = []) :
    openingsOf ((placed place cuts).tokens.map Token.kind) ≤ (cuts.flatMap Cut.taken).count '(' := by
  induction cuts generalizing place with
  | nil => exact Nat.zero_le _
  | cons cut cuts ih =>
    obtain ⟨hfaults, hlater⟩ : cut.lexeme.faults = [] ∧ (placed (place.after cut.taken) cuts).errors = [] := by
      simpa [placed, Cut.errorsAt] using hf
    have hrest := ih (fun c hc => hcuts c (List.mem_cons_of_mem _ hc)) hlater
    rw [List.flatMap_cons, List.count_append]
    cases htoken : cut.lexeme.token with
    | none =>
      rw [placed_cons_none htoken]
      omega
    | some k =>
      have hk : k.openings = cut.taken.count '(' := by
        rw [TokenKind.openings, ((hcuts cut List.mem_cons_self).written k htoken (.inl hfaults)).1]
      rw [placed_cons_some htoken, List.map_cons, openingsOf_cons, hk]
      omega

/-- The tokens of a source hold no more `(` than the source. -/
theorem openingsOf_lex_le {source : String} (h : (lex source).errors = []) :
    openingsOf ((lex source).tokens.map Token.kind) ≤ source.toList.count '(' := by
  have := openingsOf_placed_le (fun _ => faithful_of_mem) h
  rwa [flatMap_taken_lexemes] at this

/-! ### Reading on -/

/-- The number of `(` in the tokens to read. -/
def ParseState.openings (s : ParseState) : Nat := openingsOf s.kinds

/-- From `s`, at least `n` times `(` is passed up to `s'`. -/
def Opens (s : ParseState) (n : Nat) (s' : ParseState) : Prop := n + s'.openings ≤ s.openings

namespace Opens

variable {s s₁ s' : ParseState} {m n : Nat} {k : TokenKind}

theorem trans (h : Opens s m s₁) (h' : Opens s₁ n s') : Opens s (m + n) s' := by
  unfold Opens at *
  omega

theorem cast (h : Opens s m s') (hn : n = m) : Opens s n s' := hn ▸ h

theorem of_advances (h : Advances s s') : Opens s 0 s' := by
  obtain ⟨used, hused⟩ := h.passes
  simp [Opens, ParseState.openings, ParseState.kinds, hused.rest]

theorem refl (s : ParseState) : Opens s 0 s := of_advances (.refl s)

theorem advance (hk : s.peek.kind = k) (he : k ≠ .eof) : Opens s k.openings s.advance := by
  have hkinds : s.kinds = k :: s.advance.kinds := hk ▸ ParseState.kinds_of_peek (hk ▸ he)
  simp [Opens, ParseState.openings, hkinds]

/-- The items of a list pass what they pass one after another. -/
theorem listed {α : Type} {item : Parser α} {count : α → Nat} {ends separates : ParseState → Prop}
    (hitem : ∀ {s a s'}, item.run s = (.ok a, s') → Opens s (count a) s') {as : List α}
    (h : Listed ends separates item s as s') : Opens s (as.map count).sum s' := by
  induction h with
  | nil _ => exact refl _
  | last _ h _ => exact (hitem h).cast (by simp)
  | more _ h _ _ ih => exact (((hitem h).trans (of_advances (.advance _))).trans ih).cast (by simp)

end Opens

/-! ### Types -/

namespace Parser

variable {type : Nat → Parser TypeExpr} {limit room angles : Nat} {s s' : ParseState}

/-- Types pass the parentheses that are printed of them. -/
def OpensTypes (type : Nat → Parser TypeExpr) : Prop :=
  ∀ ⦃angles s t s'⦄, (type angles).run s = (.ok t, s') → Opens s (openings t.layout) s'

@[simp] theorem openings_stars (n : Nat) : openings (List.replicate n (.op .star)) = 0 := by
  induction n with
  | zero => rfl
  | succ n ih => simp [List.replicate_succ, ih]

@[simp] theorem openings_dims (n : Nat) :
    openings (List.replicate n [mark .lBracket, mark .rBracket]).flatten = 0 := by
  simp

/-- Stars and brackets add no parentheses to a type. -/
theorem openings_of_grows {start : Nat} {t t' : TypeExpr} {s₀ : ParseState} (h : Grows (typeSuffix start) t s t' s')
    (hs : Opens s₀ (openings t.layout) s) : Opens s₀ (openings t'.layout) s' := by
  induction h with
  | stop h => exact (typeSuffix_none.1 h).2 ▸ hs
  | next h _ ih =>
    have hpass := Opens.of_advances
      (advances_run (Alike.advances fun ts => Alike.typeSuffix (.refl ts) start start rfl) h)
    obtain ⟨-, ⟨-, n, -, rfl⟩ | ⟨-, -, n, -, rfl⟩⟩ := typeSuffix_some.1 h
    · exact ih ((hs.trans hpass).cast (by simp [TypeExpr.layout]))
    · exact ih ((hs.trans hpass).cast (by simp [TypeExpr.layout]))

variable (ha : ∀ angles s, Advances s (type angles s).2) (ht : OpensTypes type)
include ha ht

theorem openings_typeArgs {args : List TypeExpr} (h : (typeArgs type angles).run s = (.ok args, s')) :
    Opens s (openings (optTypeArgsLayout (some args))) s' := by
  obtain ⟨hk, s₁, hl, hc⟩ := (typeArgs_ok ha).1 h
  have hclose : Opens s₁ 0 s' :=
    .of_advances (advances_run (Alike.advances fun ts => Alike.closeAngle (.refl ts) _) hc)
  refine (((Opens.advance hk (by simp)).trans (.listed (@ht _) hl)).trans hclose).cast ?_
  simp [optTypeArgsLayout, typeListLayout_eq_map, Function.comp_def]

theorem openings_typeBody {t : TypeExpr} (h : (typeBody type angles).run s = (.ok t, s')) :
    Opens s (openings t.layout) s' := by
  obtain ⟨base, s₁, hb, hgrow⟩ := typeBody_ok.1 h
  refine openings_of_grows hgrow ?_
  rcases baseType_ok.1 hb with ⟨p, hk, rfl, rfl⟩ | ⟨name, hk, h⟩ | ⟨hk, h⟩
  · exact (Opens.advance hk (by simp)).cast (by simp [TypeExpr.layout])
  · rcases namedType_ok.1 h with ⟨-, -, args, hargs, rfl⟩ | ⟨-, rfl, rfl⟩
    · refine ((Opens.advance hk (by simp)).trans (openings_typeArgs ha ht hargs)).cast ?_
      simp [TypeExpr.layout, optTypeArgsLayout]
    · exact (Opens.advance hk (by simp)).cast (by simp [TypeExpr.layout])
  · obtain ⟨first, s₂, second, s₃, h₁, hcomma, h₂, hclose, rfl, rfl⟩ := tupleType_ok.1 h
    have hfirst := ((Opens.advance hk (by simp)).trans (ht h₁)).trans (.advance hcomma (by simp))
    refine ((hfirst.trans (ht h₂)).trans (.advance hclose (by simp))).cast ?_
    simp [TypeExpr.layout]
    omega

omit ha ht in
/-- A type passes the parentheses that are printed of it. -/
theorem openings_typeExpr : OpensTypes (typeExpr limit room) := by
  induction room with
  | zero => exact fun _ _ _ _ h => absurd (tooDeep_ok.1 h) id
  | succ room ih => exact fun _ _ _ _ h => openings_typeBody (advances_typeExpr limit room) ih h

end Parser

end ElleFrontEnd
