import ElleFrontEnd.Layout.Type
import ElleFrontEnd.Proofs.Height
import ElleFrontEnd.Proofs.Shows

/-!
# Printed types are read back

The types that reading yields are well formed (`wellFormed_typeExpr`): a run of `*` or `[]` is not empty and takes all
that stand there, and an argument list has an argument.  A well-formed type that is printed is read back as it was
(`typeExpr_shows`), wherever the nesting that it needs is allowed and nothing follows that could go on with a type.
-/

namespace ElleFrontEnd

open Fragment

/-! ### Well-formed types -/

namespace TypeExpr

/-- Whether the type ends in a run of `*`. -/
def isPointer : TypeExpr → Bool
  | .pointer _ _ _ => true
  | _ => false

/-- Whether the type ends in a run of `[]`. -/
def isArray : TypeExpr → Bool
  | .array _ _ _ => true
  | _ => false

end TypeExpr

mutual

/-- What holds of each type that has been read. -/
def TypeExpr.WellFormed : TypeExpr → Prop
  | .primitive _ _ | .named _ _ => True
  | .array _ element dims => element.WellFormed ∧ element.isArray = false ∧ 0 < dims
  | .pointer _ base depth => base.WellFormed ∧ base.isPointer = false ∧ 0 < depth
  | .generic _ _ args => args ≠ [] ∧ typeListWellFormed args
  | .tuple _ first second => first.WellFormed ∧ second.WellFormed

/-- What holds of type arguments that have been read. -/
def typeListWellFormed : List TypeExpr → Prop
  | [] => True
  | t :: ts => t.WellFormed ∧ typeListWellFormed ts

end

/-! ### What is read is well formed -/

namespace Parser

variable {s s' : ParseState}

theorem stepped_stop {p : ParseState → Prop} {move : ParseState → ParseState} {n : Nat} (h : Stepped p move n s s') :
    ¬ p s' := by
  induction h with
  | stop h => exact h
  | next _ _ ih => exact ih

theorem stepped_pos {p : ParseState → Prop} {move : ParseState → ParseState} {n : Nat} (h : Stepped p move n s s')
    (hs : p s) : 0 < n := by
  cases h with
  | stop h => exact absurd hs h
  | next _ _ => omega

/-- What may not follow a type, because it would have become part of it. -/
def Closed (t : TypeExpr) (s : ParseState) : Prop :=
  (t.isPointer = true → s.peek.kind ≠ .operator .star) ∧ (t.isArray = true → ¬ s.atBrackets)

theorem wellFormed_of_grows {start : Nat} {t t' : TypeExpr} (h : Grows (typeSuffix start) t s t' s')
    (ht : t.WellFormed) (hc : Closed t s) : t'.WellFormed := by
  induction h with
  | stop _ => exact ht
  | @next t t₁ t' s s₁ s' h _ ih =>
    obtain ⟨-, ⟨hk, n, hn, rfl⟩ | ⟨-, hk, n, hn, rfl⟩⟩ := typeSuffix_some.1 h
    · have hn := starRun_ok.1 hn
      have hp : t.isPointer = false := by
        by_contra hp
        exact hc.1 (by simpa using hp) hk
      exact ih ⟨ht, hp, stepped_pos hn hk⟩ ⟨fun _ => stepped_stop hn, by simp [TypeExpr.isArray]⟩
    · have hn := bracketRun_ok.1 hn
      have hp : t.isArray = false := by
        by_contra hp
        exact hc.2 (by simpa using hp) hk
      exact ih ⟨ht, hp, stepped_pos hn hk⟩ ⟨by simp [TypeExpr.isPointer], fun _ => stepped_stop hn⟩

section

variable {type : Nat → Parser TypeExpr} {angles start : Nat}

theorem typeListWellFormed_of_listed {ends separates : ParseState → Prop} {item : Parser TypeExpr}
    (ht : ∀ s t s', item.run s = (.ok t, s') → t.WellFormed) {args : List TypeExpr}
    (h : Listed ends separates item s args s') : typeListWellFormed args := by
  induction h with
  | nil _ => trivial
  | last _ h _ => exact ⟨ht _ _ _ h, trivial⟩
  | more _ h _ _ ih => exact ⟨ht _ _ _ h, ih⟩

variable (ha : ∀ angles s, Advances s (type angles s).2)
  (ht : ∀ angles s t s', (type angles).run s = (.ok t, s') → t.WellFormed)
include ha ht

theorem wellFormed_typeArgs {args : List TypeExpr} (h : (typeArgs type angles).run s = (.ok args, s')) :
    args ≠ [] ∧ typeListWellFormed args := by
  obtain ⟨-, s₁, hl, -⟩ := (typeArgs_ok ha).1 h
  refine ⟨?_, typeListWellFormed_of_listed (ht _) hl⟩
  cases hl with
  | nil hf => exact hf.elim
  | last _ _ _ | more _ _ _ _ => simp

theorem wellFormed_baseType {t : TypeExpr} (h : (baseType type angles start).run s = (.ok t, s')) :
    t.WellFormed ∧ t.isPointer = false ∧ t.isArray = false := by
  rcases baseType_ok.1 h with ⟨p, -, -, rfl⟩ | ⟨name, -, h⟩ | ⟨-, h⟩
  · exact ⟨trivial, rfl, rfl⟩
  · rcases namedType_ok.1 h with ⟨-, -, args, hargs, rfl⟩ | ⟨-, -, rfl⟩
    · exact ⟨wellFormed_typeArgs ha ht hargs, rfl, rfl⟩
    · exact ⟨trivial, rfl, rfl⟩
  · obtain ⟨first, s₁, second, s₂, h₁, -, h₂, -, -, rfl⟩ := tupleType_ok.1 h
    exact ⟨⟨ht _ _ _ _ h₁, ht _ _ _ _ h₂⟩, rfl, rfl⟩

theorem wellFormed_typeBody {t : TypeExpr} (h : (typeBody type angles).run s = (.ok t, s')) : t.WellFormed := by
  obtain ⟨base, s₁, hb, hgrow⟩ := typeBody_ok.1 h
  obtain ⟨hw, hp, ha⟩ := wellFormed_baseType ha ht hb
  exact wellFormed_of_grows hgrow hw ⟨by simp [hp], by simp [ha]⟩

end

theorem advances_typeExpr (limit room angles : Nat) (s : ParseState) :
    Advances s (typeExpr limit room angles s).2 :=
  Alike.advances (fun ts => Alike.typeExpr (.refl ts) limit room angles) s

/-- The types that are read are well formed. -/
theorem wellFormed_typeExpr {limit room angles : Nat} {t : TypeExpr}
    (h : (typeExpr limit room angles).run s = (.ok t, s')) : t.WellFormed := by
  induction room generalizing angles s t s' with
  | zero => exact absurd (tooDeep_ok.1 h) id
  | succ room ih => exact wellFormed_typeBody (advances_typeExpr limit room) (fun _ _ _ _ => ih) h

/-! ### Well-formed types are read back -/

/-- What may follow a printed type: nothing that could go on with it, and a `>` right behind it only where a list of
type arguments is open. -/
structure TypeEnd (angles : Nat) (f : List Fragment) : Prop where
  star : next f ≠ .operator .star
  bracket : next f ≠ .punctuation .lBracket
  lt : ¬ touchesWith (.operator .lt) f
  gt : touchesWith (.operator .gt) f → 0 < angles

variable {u : ParseState} {f : List Fragment}

theorem starRun_shows {n : Nat} (h : Shows u (List.replicate n (op .star) ++ f)) (ho : u.owed = 0)
    (hf : next f ≠ .operator .star) : ∃ u', starRun.run u = (.ok n, u') ∧ Shows u' f ∧ u'.owed = 0 := by
  suffices ∃ u', Stepped (fun s => s.peek.kind = .operator .star) ParseState.advance n u u' ∧ Shows u' f ∧
      u'.owed = 0 by simpa only [starRun_ok] using this
  induction n generalizing u with
  | zero => exact ⟨u, .stop fun hk => hf (h.next_of_peek ho hk (by simp)), h, ho⟩
  | succ n ih =>
    rw [List.replicate_succ, List.cons_append] at h
    obtain ⟨u', hstep, hs⟩ := ih (h.advance (by simp) (by simp)) (by simp [ho])
    exact ⟨u', .next (h.peek (by simp)) hstep, hs⟩

theorem bracketRun_shows {n : Nat}
    (h : Shows u ((List.replicate n [mark .lBracket, mark .rBracket]).flatten ++ f)) (ho : u.owed = 0)
    (hf : next f ≠ .punctuation .lBracket) : ∃ u', bracketRun.run u = (.ok n, u') ∧ Shows u' f ∧ u'.owed = 0 := by
  suffices ∃ u', Stepped ParseState.atBrackets (fun s => s.advance.advance) n u u' ∧ Shows u' f ∧
      u'.owed = 0 by simpa only [bracketRun_ok] using this
  induction n generalizing u with
  | zero => exact ⟨u, .stop fun hk => hf (h.next_of_peek ho hk.1 (by simp)), h, ho⟩
  | succ n ih =>
    rw [List.replicate_succ, List.flatten_cons, List.append_assoc] at h
    have h₁ := h.advance (by simp) (by simp)
    obtain ⟨u', hstep, hs⟩ := ih (h₁.advance (by simp) (by simp)) (by simp [ho])
    exact ⟨u', .next ⟨h.peek (by simp), h.kindAt_one (by simp) (by simp) (by simp)⟩ hstep, hs⟩

theorem closeAngle_shows {angles : Nat} (h : Shows u (op .gt :: f))
    (hf : touchesWith (.operator .gt) f → 0 < angles) :
    ∃ u', (closeAngle (angles + 1)).run u = (.ok (), u') ∧ Shows u' f := by
  by_cases ho : u.owed = 0
  · rcases h.peek_gt ho with ⟨hk, hs⟩ | ⟨ht, hk, hs⟩
    · exact ⟨_, closeAngle_ok.2 (.inr (.inl ⟨ho, hk, rfl⟩)), hs⟩
    · have := hf ht
      exact ⟨_, closeAngle_ok.2 (.inr (.inr ⟨ho, by omega, hk, rfl⟩)), hs⟩
  · exact ⟨_, closeAngle_ok.2 (.inl ⟨by omega, rfl⟩), h.take_owed (by omega)⟩

/-- Whether a parser of types reads back each well-formed type that nests no deeper than `room`. -/
def ReadsTypes (type : Nat → Parser TypeExpr) (room : Nat) : Prop :=
  ∀ (t : TypeExpr) (angles : Nat) (u : ParseState) (f : List Fragment), t.WellFormed → t.height 0 ≤ room →
    TypeEnd angles f → Faces u (t.layout ++ f) →
    ∃ t' u', (type angles).run u = (.ok t', u') ∧ SameType t t' ∧ Shows u' f

section

variable {type : Nat → Parser TypeExpr} {room : Nat} (ha : ∀ angles s, Advances s (type angles s).2)
  (hr : ReadsTypes type room)
include ha hr

omit ha in
/-- Type arguments up to the `>` that closes them. -/
theorem args_shows {angles : Nat} {args : List TypeExpr} (hne : args ≠ []) (hw : typeListWellFormed args)
    (hn : typeListHeight 0 args ≤ room) (h : Faces u (commas (typeListLayout args) ++ op .gt :: f)) :
    ∃ args' u', Listed (fun _ => False) separatesArgs (type (angles + 1)) u args' u' ∧
      List.Forall₂ SameType args args' ∧ Shows u' (op .gt :: f) := by
  induction args generalizing u with
  | nil => exact absurd rfl hne
  | cons t ts ih =>
    rw [typeListHeight] at hn
    cases ts with
    | nil =>
      have hend : TypeEnd (angles + 1) (op .gt :: f) := ⟨by simp, by simp, by simp [touchesWith], by simp⟩
      obtain ⟨t', u', hrun, hsame, hs⟩ := hr t (angles + 1) u _ hw.1 (by omega) hend
        (by simpa [commas, separated, typeListLayout] using h)
      refine ⟨[t'], u', .last id hrun ?_, .cons hsame .nil, hs⟩
      rintro ⟨ho, hk⟩
      simpa using hs.next_of_peek ho hk (by simp)
    | cons t₂ ts =>
      have hl : commas (typeListLayout (t :: t₂ :: ts)) =
          t.layout ++ mark .comma :: space :: commas (typeListLayout (t₂ :: ts)) := by
        simp [commas, separated, typeListLayout, commaSpace]
      rw [hl, List.append_assoc] at h
      have hend : TypeEnd (angles + 1) (mark .comma :: space :: commas (typeListLayout (t₂ :: ts)) ++ op .gt :: f) :=
        ⟨by simp, by simp, by simp [touchesWith], by simp [touchesWith]⟩
      obtain ⟨t', u₁, hrun, hsame, hs⟩ := hr t (angles + 1) u _ hw.1 (by omega) hend h
      have hrest := hs.advance (by simp) (by simp)
      obtain ⟨ts', u', hlist, hsames, hs'⟩ := ih (by simp) hw.2 (by omega) (.inr hrest)
      exact ⟨t' :: ts', u', .more id hrun ⟨hs.owed (by simp), hs.peek (by simp)⟩ hlist, .cons hsame hsames, hs'⟩

/-- A list of type arguments. -/
theorem typeArgs_shows {angles : Nat} {args : List TypeExpr} (hne : args ≠ []) (hw : typeListWellFormed args)
    (hn : typeListHeight 0 args ≤ room) (h : Faces u (Fragment.angles (commas (typeListLayout args)) ++ f))
    (hf : touchesWith (.operator .gt) f → 0 < angles) :
    ∃ args' u', (typeArgs type angles).run u = (.ok args', u') ∧ List.Forall₂ SameType args args' ∧ Shows u' f := by
  have hs := h.advance (by simp [Fragment.angles]) (by simp [Fragment.angles])
  have hk := h.peek (by simp [Fragment.angles])
  simp only [Fragment.angles, List.cons_append, next_token, after_token, List.append_assoc] at hs hk
  obtain ⟨args', u₁, hlist, hsame, hs₁⟩ := args_shows hr hne hw hn (.inl hs)
  obtain ⟨u', hclose, hs'⟩ := closeAngle_shows hs₁ hf
  exact ⟨args', u', (typeArgs_ok ha).2 ⟨hk, u₁, hlist, hclose⟩, hsame, hs'⟩

/-- The base of a type and the runs behind it, as far as they make up the type. -/
theorem typeSpine_shows {angles start : Nat} {t : TypeExpr} {f : List Fragment} (hw : t.WellFormed)
    (hn : t.height 0 ≤ room + 1)
    (h : Faces u (t.layout ++ f)) (hp : t.isPointer = true → next f ≠ .operator .star)
    (hb : t.isArray = true → next f ≠ .punctuation .lBracket) (hlt : ¬ touchesWith (.operator .lt) f)
    (hgt : touchesWith (.operator .gt) f → 0 < angles) :
    ∃ base u₀ t' u', (baseType type angles start).run u = (.ok base, u₀) ∧ SameType t t' ∧ Shows u' f ∧
      ∀ t'' u'', Grows (typeSuffix start) t' u' t'' u'' → Grows (typeSuffix start) base u₀ t'' u'' := by
  match t with
  | .primitive span p =>
    rw [TypeExpr.layout] at h
    obtain ⟨hk, hs, -⟩ := h.word
    exact ⟨.primitive (u.advance.spanFrom start) p, _, .primitive (u.advance.spanFrom start) p, _,
      baseType_ok.2 (.inl ⟨p, hk, rfl, rfl⟩), rfl, hs,
      fun _ _ hgrow => hgrow⟩
  | .named span name =>
    rw [TypeExpr.layout] at h
    have ho : u.owed = 0 := h.owed (by simp)
    obtain ⟨hk, hs, -⟩ := h.name
    have hname : (namedType type angles start name).run u = _ :=
      namedType_ok.2 (.inr ⟨hs.not_lt (by simp [ho]) hlt, rfl, rfl⟩)
    exact ⟨.named (u.advance.spanFrom start) name, _, .named (u.advance.spanFrom start) name, _,
      baseType_ok.2 (.inr (.inl ⟨name, hk, hname⟩)), rfl, hs,
      fun _ _ hgrow => hgrow⟩
  | .generic span name args =>
    rw [TypeExpr.height] at hn
    rw [TypeExpr.layout] at h
    obtain ⟨hk, hs, -⟩ := h.name
    have hopen : u.advance.peek.kind = .operator .lt ∧ u.advance.isAdjacent = true :=
      ⟨hs.peek (by simp [Fragment.angles]), hs.isAdjacent (by simp [Fragment.angles]) (by simp [Fragment.angles])⟩
    obtain ⟨args', u', hrun, hsame, hs'⟩ := typeArgs_shows ha hr hw.1 hw.2 (by omega) (.inl hs) hgt
    have hname : (namedType type angles start name).run u = _ :=
      namedType_ok.2 (.inl ⟨hopen.1, hopen.2, args', hrun, rfl⟩)
    refine ⟨.generic (u'.spanFrom start) name args', u', .generic (u'.spanFrom start) name args', _,
      baseType_ok.2 (.inr (.inl ⟨name, hk, hname⟩)), ?_, hs',
      fun _ _ hgrow => hgrow⟩
    refine congrArg (TypeExpr.generic .zero name) ?_
    rw [typeListMapSpans_eq_map, typeListMapSpans_eq_map]
    exact map_eq_of_same hsame
  | .tuple span first second =>
    rw [TypeExpr.height] at hn
    have hl : (TypeExpr.tuple span first second).layout ++ f =
        mark .lParen :: (first.layout ++ mark .comma :: space :: (second.layout ++ mark .rParen :: f)) := by
      simp [TypeExpr.layout, parens, commas, separated, commaSpace]
    rw [hl] at h
    obtain ⟨hk, hs, -⟩ := h.mark
    obtain ⟨first', u₁, hrun, hsame, hs₁⟩ := hr first angles _ _ hw.1 (by omega)
      ⟨by simp, by simp, by simp [touchesWith], by simp [touchesWith]⟩ (.inl hs)
    obtain ⟨hk₁, hs₁, -⟩ := Faces.mark (.inl hs₁)
    obtain ⟨second', u₂, hrun', hsame', hs₂⟩ := hr second angles _ _ hw.2 (by omega)
      ⟨by simp, by simp, by simp [touchesWith], by simp [touchesWith]⟩ (.inr hs₁)
    obtain ⟨hk₂, hs₂, -⟩ := Faces.mark (.inl hs₂)
    have htuple : (tupleType type angles start).run u = _ :=
      tupleType_ok.2 ⟨first', u₁, second', u₂, hrun, hk₁, hrun', hk₂, rfl, rfl⟩
    exact ⟨.tuple (u₂.advance.spanFrom start) first' second', _, .tuple (u₂.advance.spanFrom start) first' second', _,
      baseType_ok.2 (.inr (.inr ⟨hk, htuple⟩)),
      congrArg₂ (TypeExpr.tuple .zero) hsame hsame', hs₂, fun _ _ hgrow => hgrow⟩
  | .array span element dims =>
    obtain ⟨d, rfl⟩ : ∃ d, dims = d + 1 := ⟨dims - 1, by have := hw.2.2; omega⟩
    rw [TypeExpr.height] at hn
    have hl : (TypeExpr.array span element (d + 1)).layout ++ f = element.layout ++
        ((List.replicate (d + 1) [mark .lBracket, mark .rBracket]).flatten ++ f) := by
      simp [TypeExpr.layout]
    rw [hl] at h
    obtain ⟨base, u₀, t', u', hbase, hsame, hs, hgrow⟩ := typeSpine_shows hw.1 hn h
      (by simp [List.replicate_succ]) (by simp [hw.2.1]) (by simp [List.replicate_succ, touchesWith])
      (by simp [List.replicate_succ, touchesWith])
    have ho : u'.owed = 0 := hs.owed (by simp [List.replicate_succ])
    have hk : u'.peek.kind = .punctuation .lBracket := hs.peek (by simp [List.replicate_succ])
    have hk' : u'.kindAt 1 = .punctuation .rBracket := by
      have := hs.kindAt_one (by simp [List.replicate_succ]) (by simp [List.replicate_succ])
        (by simp [List.replicate_succ])
      simpa [List.replicate_succ] using this
    obtain ⟨u'', hrun, hs', -⟩ := bracketRun_shows hs ho (hb rfl)
    refine ⟨base, u₀, .array (u''.spanFrom start) t' (d + 1), u'', hbase,
      congrArg (TypeExpr.array .zero · (d + 1)) hsame,
      hs', fun t'' v h => hgrow t'' v (.next (typeSuffix_some.2 ⟨ho, .inr ⟨by simp [hk], ⟨hk, hk'⟩, _, hrun, rfl⟩⟩) h)⟩
  | .pointer span base depth =>
    obtain ⟨d, rfl⟩ : ∃ d, depth = d + 1 := ⟨depth - 1, by have := hw.2.2; omega⟩
    rw [TypeExpr.height] at hn
    have hl : (TypeExpr.pointer span base (d + 1)).layout ++ f =
        base.layout ++ (List.replicate (d + 1) (op .star) ++ f) := by
      simp [TypeExpr.layout]
    rw [hl] at h
    obtain ⟨base', u₀, t', u', hbase, hsame, hs, hgrow⟩ := typeSpine_shows hw.1 hn h
      (by simp [hw.2.1]) (by simp [List.replicate_succ]) (by simp [List.replicate_succ, touchesWith])
      (by simp [List.replicate_succ, touchesWith])
    have ho : u'.owed = 0 := hs.owed (by simp [List.replicate_succ])
    have hk : u'.peek.kind = .operator .star := hs.peek (by simp [List.replicate_succ])
    obtain ⟨u'', hrun, hs', -⟩ := starRun_shows hs ho (hp rfl)
    refine ⟨base', u₀, .pointer (u''.spanFrom start) t' (d + 1), u'', hbase,
      congrArg (TypeExpr.pointer .zero · (d + 1)) hsame, hs',
      fun t'' v h => hgrow t'' v (.next (typeSuffix_some.2 ⟨ho, .inl ⟨hk, _, hrun, rfl⟩⟩) h)⟩

theorem readsTypes_typeBody : ReadsTypes (typeBody type) (room + 1) := by
  intro t angles u f hw hn hf h
  obtain ⟨base, u₀, t', u', hbase, hsame, hs, hgrow⟩ := typeSpine_shows ha hr hw hn h (fun _ => hf.star)
    (fun _ => hf.bracket) hf.lt hf.gt
  have hstop : (typeSuffix u.peek.span.start t').run u' = (.ok none, u') := by
    rw [typeSuffix_none]
    refine ⟨?_, rfl⟩
    rcases Nat.eq_zero_or_pos u'.owed with ho | ho
    · right
      exact ⟨fun hk => hf.star (hs.next_of_peek ho hk (by simp)),
        fun hk => hf.bracket (hs.next_of_peek ho hk.1 (by simp))⟩
    · exact .inl ho
  exact ⟨t', u', typeBody_ok.2 ⟨base, u₀, hbase, hgrow _ _ (.stop hstop)⟩, hsame, hs⟩

end

/-- A well-formed type is read back where the nesting that it needs is allowed. -/
theorem readsTypes_typeExpr (limit room : Nat) : ReadsTypes (typeExpr limit room) room := by
  induction room with
  | zero =>
    intro t angles u f hw hn hf h
    have : 0 < t.height 0 := t.height_pos
    omega
  | succ room ih => exact readsTypes_typeBody (advances_typeExpr limit room) ih

end Parser

end ElleFrontEnd
