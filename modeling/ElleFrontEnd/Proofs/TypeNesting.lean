import ElleFrontEnd.Proofs.Convey
import ElleFrontEnd.Proofs.Nesting

/-!
# The brackets of types

A type that is accepted is balanced in its parentheses and brackets, and balanced in its `<` and `>`, where a `>>`
counts as two `>`.  The two kinds of groups may cross, though: a pair of types goes on while a `>` is owed to an
argument list around the pair, so that the second half of a `>>` inside of the pair closes a list outside of it.  The
stretch is balanced as a whole just where no pair does so (`typeExpr_nests`).

What a type is made of is walked once for all relations between the places where a type begins and ends (`TypeWalk`).
-/

namespace ElleFrontEnd

/-! ### Brackets that cross -/

namespace Brackets

variable {α : Type} {b : Brackets α} {a y z : α} {as as' bs : List α} [DecidableEq α]

theorem exists_nests_of_append {awaited : List α} (h : b.nests awaited (as ++ as') = true) :
    ∃ awaited', b.nests awaited' as' = true := by
  induction as generalizing awaited with
  | nil => exact ⟨awaited, h⟩
  | cons a as ih =>
    rw [List.cons_append] at h
    unfold nests at h
    split at h
    · exact ih h
    · exact ih h
    · simp only [Bool.and_eq_true] at h
      exact ih h.2
    · cases h

/-- A sequence that closes what was open before it does not go on to a balanced one. -/
theorem nests_extra {awaited extra : List α} (h : b.nests (awaited ++ extra) as = true)
    (h' : b.nests awaited (as ++ as') = true) : extra = [] := by
  induction as generalizing awaited with
  | nil =>
    have hnil : awaited ++ extra = [] := by simpa [nests] using h
    exact (List.append_eq_nil_iff.1 hnil).2
  | cons a as ih =>
    rw [List.cons_append] at h'
    unfold nests at h h'
    cases hz : b.closer? a with
    | some z =>
      simp only [hz] at h h'
      rw [← List.cons_append] at h
      exact ih h h'
    | none =>
      cases hc : b.isCloser a with
      | false =>
        simp only [hz, hc] at h h'
        exact ih h h'
      | true =>
        cases awaited with
        | nil => simp [hz, hc] at h'
        | cons y awaited =>
          simp only [hz, hc, List.cons_append, Bool.and_eq_true] at h h'
          exact ih h.2 h'.2

/-- What follows an opener in a balanced sequence goes beyond any balanced sequence. -/
theorem not_prefix_of_opened (ha : b.closer? a = some z) (h : b.Balanced (bs ++ a :: as)) (h' : b.Balanced as') :
    ¬ as <+: as' := by
  rintro ⟨more, rfl⟩
  obtain ⟨awaited, hopen⟩ := exists_nests_of_append (nests_iff.2 h)
  have hclosed : b.nests ([] ++ z :: awaited) as = true := by simpa [nests, ha] using hopen
  exact absurd (nests_extra hclosed (nests_iff.2 h')) (List.cons_ne_nil _ _)

/-- Behind an opener and a balanced sequence, no closer stands but that of the opener. -/
theorem not_balanced_of_crossed (ha : b.closer? a = some z) (hy : b.isCloser y = true) (hne : z ≠ y)
    (h : b.Balanced as) : ¬ b.Balanced (bs ++ a :: (as ++ y :: as')) := by
  intro hall
  obtain ⟨awaited, hopen⟩ := exists_nests_of_append (nests_iff.2 hall)
  have hstop : b.nests (z :: awaited) (as ++ y :: as') = true := by simpa [nests, ha] using hopen
  rw [nests_append h] at hstop
  simp [nests, hy, b.closer?_of_isCloser hy, hne] at hstop

end Brackets

/-! ### The brackets of types -/

namespace TokenKind

/-- A `>>` as two `>`, and any other token as it is. -/
def halves : TokenKind → List TokenKind
  | .operator .shr => [.operator .gt, .operator .gt]
  | kind => [kind]

/-- The brackets of argument lists. -/
def angles : Brackets TokenKind where
  closer? kind := if kind = .operator .lt then some (.operator .gt) else none
  isCloser kind := kind = .operator .gt
  isCloser_closer := by
    intro a z h
    split at h
    · cases h
      rfl
    · cases h
  closer?_of_isCloser := by
    intro z h
    obtain rfl : z = .operator .gt := by simpa using h
    rfl

/-- All brackets: those of the source and those of argument lists. -/
def groups : Brackets TokenKind where
  closer? kind := (angles.closer? kind).or (brackets.closer? kind)
  isCloser kind := angles.isCloser kind || brackets.isCloser kind
  isCloser_closer := by
    intro a z h
    rcases Option.or_eq_some_iff.1 h with h | ⟨-, h⟩
    · simp [angles.isCloser_closer h]
    · simp [brackets.isCloser_closer h]
  closer?_of_isCloser := by
    intro z h
    rcases Bool.or_eq_true_iff.1 h with h | h
    · obtain rfl : z = .operator .gt := by simpa [angles] using h
      rfl
    · have hangles : angles.closer? z = none := by
        cases z with
        | operator op => exact absurd h (by simp [brackets])
        | _ => rfl
      simp [hangles, brackets.closer?_of_isCloser h]

/-- Kinds of tokens that are no part of a bracket. -/
structure Lone (kind : TokenKind) : Prop where
  notEof : kind ≠ .eof
  halves : kind.halves = [kind]
  plain : groups.IsPlain kind

theorem Lone.angles {kind : TokenKind} (h : kind.Lone) : angles.IsPlain kind :=
  ⟨(Option.or_eq_none_iff.1 h.plain.1).1, (Bool.or_eq_false_iff.1 h.plain.2).1⟩

end TokenKind

/-- The tokens of a stretch, with each `>>` as two `>`. -/
def halvesOf (used : List Token) : List TokenKind := used.flatMap fun t => t.kind.halves

@[simp] theorem halvesOf_nil : halvesOf [] = [] := rfl

@[simp] theorem halvesOf_cons (t : Token) (ts : List Token) : halvesOf (t :: ts) = t.kind.halves ++ halvesOf ts := rfl

@[simp] theorem halvesOf_append (ts us : List Token) : halvesOf (ts ++ us) = halvesOf ts ++ halvesOf us :=
  List.flatMap_append

/-! ### Places behind a number of tokens -/

/-- The state behind some more tokens. -/
def ParseState.onward (s : ParseState) : Nat → ParseState
  | 0 => s
  | n + 1 => s.advance.onward n

section

variable {s s' : ParseState} {used used' : List Token}

theorem ParseState.onward_add (s : ParseState) (m n : Nat) : s.onward (m + n) = (s.onward m).onward n := by
  induction m generalizing s with
  | zero => simp [onward]
  | succ m ih => rw [Nat.succ_add, onward, ih, onward]

/-- The tokens between two places. -/
theorem Passes.unique (h : Passes s used s') (h' : Passes s used' s') : used = used' :=
  List.append_cancel_right (h.rest.symm.trans h'.rest)

/-- Behind the first of the passed tokens, the others are passed. -/
theorem Passes.tail {t : Token} (h : Passes s (t :: used) s') : Passes s.advance used s' := by
  have hnext : s.advance = { s with last := some t, rest := used ++ s'.rest } :=
    ParseState.advance_cons h.rest (h.noEof t List.mem_cons_self)
  refine ⟨by rw [hnext], ?_, fun u hu => h.noEof u (List.mem_cons_of_mem _ hu)⟩
  rw [h.last, hnext, List.getLast?_cons]
  cases used.getLast? <;> rfl

/-- Where nothing else has changed, only the number of tokens counts. -/
theorem Passes.eq_onward (h : Passes s used s') (ho : s'.owed = s.owed) (he : s'.errors = s.errors) :
    s' = s.onward used.length := by
  induction used generalizing s with
  | nil =>
    obtain ⟨last, rest, owed, errors⟩ := s
    obtain ⟨last', rest', owed', errors'⟩ := s'
    obtain rfl : owed' = owed := ho
    obtain rfl : errors' = errors := he
    obtain rfl : rest = rest' := h.rest
    obtain rfl : last' = last := by simpa using h.last
    rfl
  | cons t ts ih => exact ih h.tail (ho.trans s.advance_owed.symm) (he.trans s.advance_errors.symm)

/-- Any number of the passed tokens may be passed first. -/
theorem Passes.split (h : Passes s used s') {n : Nat} (hn : n ≤ used.length) :
    (s.onward n).owed = s.owed ∧ (s.onward n).rest = used.drop n ++ s'.rest := by
  induction n generalizing s used with
  | zero => exact ⟨rfl, h.rest⟩
  | succ n ih =>
    cases used with
    | nil => simp at hn
    | cons t ts =>
      obtain ⟨ho, hr⟩ := ih h.tail (by simpa using hn)
      exact ⟨ho.trans s.advance_owed, hr⟩

end

/-! ### Walking types -/

namespace Parser

variable {limit room angles : Nat} {s s₁ s' : ParseState} {t : TypeExpr}

/-- A relation between the places where a type begins and ends, for each number of open argument lists.  It holds over
single tokens and empty brackets, goes on where nothing is owed, and is kept by argument lists and pairs. -/
structure TypeWalk (limit room : Nat) (R : Nat → ParseState → ParseState → Prop) : Prop where
  token {angles : Nat} {s : ParseState} : s.peek.kind.Lone → R angles s s.advance
  brackets {angles : Nat} {s : ParseState} : s.atBrackets → R angles s s.advance.advance
  trans {angles : Nat} {s s₁ s' : ParseState} : (s.owed = 0 → s₁.owed = 0) → R angles s s₁ → R angles s₁ s' →
    R angles s s'
  args {angles : Nat} {s s₁ s' : ParseState} : s.peek.kind = .operator .lt → R (angles + 1) s.advance s₁ →
    (closeAngle (angles + 1)).run s₁ = (.ok (), s') → R angles s s'
  pair {angles inner : Nat} {s s₁ s' : ParseState} {first second : TypeExpr} : s.peek.kind = .punctuation .lParen →
    inner < room → (typeExpr limit inner angles).run s.advance = (.ok first, s₁) →
    s₁.peek.kind = .punctuation .comma → (typeExpr limit inner angles).run s₁.advance = (.ok second, s') →
    s'.peek.kind = .punctuation .rParen → R angles s.advance s₁ → R angles s₁.advance s' → R angles s s'.advance

namespace TypeWalk

variable {R : Nat → ParseState → ParseState → Prop} (w : TypeWalk limit room R)
include w

theorem stepped {p : ParseState → Prop} {move : ParseState → ParseState} {n : Nat} {s₀ : ParseState}
    (hmove : ∀ s, p s → R angles s (move s)) (hkeep : ∀ s, (move s).owed = s.owed) (hs : R angles s₀ s)
    (ho : s.owed = 0) (h : Stepped p move n s s') : R angles s₀ s' ∧ s'.owed = 0 := by
  induction h with
  | stop _ => exact ⟨hs, ho⟩
  | next hp _ ih => exact ih (w.trans (fun _ => ho) hs (hmove _ hp)) ((hkeep _).trans ho)

/-- Stars and brackets are passed only where nothing is owed. -/
theorem suffixes {start : Nat} {t' : TypeExpr} {s₀ : ParseState} (hs : R angles s₀ s)
    (h : Grows (typeSuffix start) t s t' s') : R angles s₀ s' := by
  induction h with
  | stop h => exact (typeSuffix_none.1 h).2 ▸ hs
  | next h _ ih =>
    obtain ⟨ho, ⟨-, n, hn, -⟩ | ⟨-, -, n, hn, -⟩⟩ := typeSuffix_some.1 h
    · have hstar (s : ParseState) (hk : s.peek.kind = .operator .star) : R angles s s.advance :=
        w.token (hk ▸ ⟨by simp, rfl, rfl, rfl⟩)
      exact ih (w.stepped hstar (fun s => s.advance_owed) hs ho (starRun_ok.1 hn)).1
    · have hkeep (s : ParseState) : s.advance.advance.owed = s.owed := by simp
      exact ih (w.stepped (fun s hk => w.brackets hk) hkeep hs ho (bracketRun_ok.1 hn)).1

theorem listed {type : Parser TypeExpr} {args : List TypeExpr} {ends : ParseState → Prop}
    (ht : ∀ s t s', type.run s = (.ok t, s') → R angles s s') (hends : ∀ s, ¬ ends s)
    (h : Listed ends separatesArgs type s args s') : R angles s s' := by
  induction h with
  | nil h => exact absurd h (hends _)
  | last _ h _ => exact ht _ _ _ h
  | more _ h hsep _ ih =>
    have hcomma {s : ParseState} (hk : s.peek.kind = .punctuation .comma) : R angles s s.advance :=
      w.token (hk ▸ ⟨by simp, rfl, rfl, rfl⟩)
    have hitem := w.trans (fun _ => hsep.1) (ht _ _ _ h) (hcomma hsep.2)
    exact w.trans (fun _ => (ParseState.advance_owed _).trans hsep.1) hitem ih

/-- The relation holds between the ends of every type. -/
theorem typeExpr {inner : Nat} (hroom : inner ≤ room) (h : (typeExpr limit inner angles).run s = (.ok t, s')) :
    R angles s s' := by
  induction inner generalizing angles s t s' with
  | zero => exact absurd (tooDeep_ok.1 h) id
  | succ inner ih =>
    have hinner {angles : Nat} {s s' : ParseState} {t : TypeExpr}
        (h : (typeExpr limit inner angles).run s = (.ok t, s')) : R angles s s' := ih (Nat.le_of_succ_le hroom) h
    obtain ⟨base, s₁, hb, hgrow⟩ := typeBody_ok.1 h
    refine w.suffixes ?_ hgrow
    rcases baseType_ok.1 hb with ⟨p, hk, rfl, -⟩ | ⟨name, hk, h⟩ | ⟨hk, h⟩
    · exact w.token (hk ▸ ⟨by simp, rfl, rfl, rfl⟩)
    · have hname : R angles s s.advance := w.token (hk ▸ ⟨by simp, rfl, rfl, rfl⟩)
      rcases namedType_ok.1 h with ⟨-, -, args, hargs, -⟩ | ⟨-, rfl, -⟩
      · obtain ⟨hlt, s₂, hl, hc⟩ := (typeArgs_ok (advances_typeExpr limit inner)).1 hargs
        have hlist := w.listed (fun s t s' h => hinner h) (fun _ => id) hl
        exact w.trans (s.advance_owed.trans ·) hname (w.args hlt hlist hc)
      · exact hname
    · obtain ⟨first, s₂, second, s₃, h₁, hcomma, h₂, hclose, rfl, -⟩ := tupleType_ok.1 h
      exact w.pair hk hroom h₁ hcomma h₂ hclose (hinner h₁) (hinner h₂)

end TypeWalk

/-! ### Argument lists alone -/

/-- The `<` and `>` of the stretch close as many argument lists as there are more `>` owed behind it. -/
def AnglesNest (angles : Nat) (s s' : ParseState) : Prop :=
  s.owed ≤ angles → s'.owed ≤ angles ∧ ∃ used, Passes s used s' ∧ ∀ rest,
    TokenKind.angles.nests (List.replicate (angles - s.owed) (.operator .gt)) (halvesOf used ++ rest) =
      TokenKind.angles.nests (List.replicate (angles - s'.owed) (.operator .gt)) rest

theorem AnglesNest.trans (h : AnglesNest angles s s₁) (h' : AnglesNest angles s₁ s') : AnglesNest angles s s' := by
  intro ho
  obtain ⟨ho₁, used, hp, hn⟩ := h ho
  obtain ⟨ho', used', hp', hn'⟩ := h' ho₁
  refine ⟨ho', used ++ used', hp.trans hp', fun rest => ?_⟩
  rw [halvesOf_append, List.append_assoc, hn, hn']

/-- A token that is no part of an argument list. -/
theorem AnglesNest.advance (he : s.peek.kind ≠ .eof) (hh : s.peek.kind.halves = [s.peek.kind])
    (hk : TokenKind.angles.IsPlain s.peek.kind) : AnglesNest angles s s.advance := by
  intro ho
  refine ⟨by rwa [ParseState.advance_owed], _, .advance he, fun rest => ?_⟩
  simp [hh, Brackets.nests, hk.1, hk.2]

theorem AnglesNest.mark {mark : Punctuation} (h : s.peek.kind = .punctuation mark) : AnglesNest angles s s.advance :=
  .advance (by simp [h]) (by simp [h, TokenKind.halves]) (h ▸ ⟨rfl, rfl⟩)

theorem AnglesNest.args (hk : s.peek.kind = .operator .lt) (h : AnglesNest (angles + 1) s.advance s₁)
    (hc : (closeAngle (angles + 1)).run s₁ = (.ok (), s')) : AnglesNest angles s s' := by
  intro ho
  obtain ⟨ho₁, used, hp, hn⟩ := h (by rw [ParseState.advance_owed]; omega)
  have hopen := (Passes.advance (s := s) (by simp [hk])).trans hp
  -- the `<` opens one list more, whether or not a `>` is owed before it
  have hlist (rest : List TokenKind) :
      TokenKind.angles.nests (List.replicate (angles - s.owed) (.operator .gt))
          (halvesOf ([s.peek] ++ used) ++ rest) =
        TokenKind.angles.nests (List.replicate (angles + 1 - s₁.owed) (.operator .gt)) rest := by
    rw [ParseState.advance_owed, Nat.succ_sub ho, List.replicate_succ] at hn
    simpa [hk, TokenKind.halves, Brackets.nests, TokenKind.angles] using hn rest
  rcases closeAngle_ok.1 hc with ⟨h₁, rfl⟩ | ⟨h₁, hgt, rfl⟩ | ⟨h₁, hlt, hshr, rfl⟩
  · refine ⟨Nat.sub_le_of_le_add ho₁, _, hopen.trans (.of_place rfl rfl), fun rest => ?_⟩
    have hcount : angles - (s₁.owed - 1) = angles + 1 - s₁.owed := by omega
    simpa [hcount] using hlist rest
  · refine ⟨by simp [h₁], _, hopen.trans (.advance (by simp [hgt])), fun rest => ?_⟩
    rw [halvesOf_append, List.append_assoc, hlist]
    simp [h₁, hgt, TokenKind.halves, List.replicate_succ, Brackets.nests, TokenKind.angles]
  · refine ⟨by change s₁.owed + 1 ≤ angles; omega, _,
      (hopen.trans (.advance (by simp [hshr]))).trans (.of_place rfl rfl), fun rest => ?_⟩
    obtain ⟨n, rfl⟩ : ∃ n, angles = n + 1 := ⟨angles - 1, by omega⟩
    rw [List.append_nil, halvesOf_append, List.append_assoc, hlist]
    simp [h₁, hshr, TokenKind.halves, List.replicate_succ, Brackets.nests, TokenKind.angles]

theorem anglesNest_walk (limit room : Nat) : TypeWalk limit room AnglesNest where
  token h := .advance h.notEof h.halves h.angles
  brackets {angles s} h := by
    have hclose : s.advance.peek.kind = .punctuation .rBracket := by
      rw [← ParseState.kindAt_one (by simp [h.1])]
      exact h.2
    exact (AnglesNest.mark h.1).trans (.mark hclose)
  trans _ h h' := h.trans h'
  args := .args
  pair hk _ _ hcomma _ hclose h h' := by
    have hfirst := ((AnglesNest.mark hk).trans h).trans (.mark hcomma)
    exact hfirst.trans (h'.trans (.mark hclose))

/-! ### Pairs among argument lists -/

/-- A pair of types, read with `type` from behind its `(`, goes on with a `>` owed at its comma, or at its end. -/
def owesInPair (type : Parser TypeExpr) (s : ParseState) : Bool :=
  match type.run s with
  | (.ok _, s₁) => s₁.peek.kind = .punctuation .comma &&
    (s₁.owed ≠ 0 ||
      match type.run s₁.advance with
      | (.ok _, s₂) => s₂.peek.kind = .punctuation .rParen && s₂.owed ≠ 0
      | _ => false)
  | _ => false

/-- Wherever a pair of types begins among the next tokens, none is owed in it while argument lists are open. -/
def PairsClose (limit room : Nat) (s : ParseState) (length : Nat) : Prop :=
  ∀ k < length, (s.onward k).peek.kind = .punctuation .lParen → ∀ inner < room,
    owesInPair (typeExpr limit inner 1) (s.onward (k + 1)) = false

instance (limit room : Nat) (s : ParseState) (length : Nat) : Decidable (PairsClose limit room s length) :=
  inferInstanceAs (Decidable (∀ k < length, _ → ∀ inner < room, _ = false))

theorem PairsClose.part {m n length : Nat} (h : PairsClose limit room s length) (hn : m + n ≤ length) :
    PairsClose limit room (s.onward m) n := by
  intro k hk hopen inner hinner
  rw [← ParseState.onward_add] at hopen ⊢
  exact h (m + k) (by omega) hopen inner hinner

theorem owesInPair_iff {type : Parser TypeExpr} :
    owesInPair type s = true ↔ ∃ first s₁, type.run s = (.ok first, s₁) ∧ s₁.peek.kind = .punctuation .comma ∧
      (s₁.owed ≠ 0 ∨ ∃ second s₂, type.run s₁.advance = (.ok second, s₂) ∧ s₂.peek.kind = .punctuation .rParen ∧
        s₂.owed ≠ 0) := by
  unfold owesInPair
  rcases h : type.run s with ⟨e | first, s₁⟩
  · simp
  · rcases h' : type.run s₁.advance with ⟨e | second, s₂⟩ <;> simp [h']

/-- The stretch is balanced but for the `>` that are owed behind it, if no pair owes any. -/
def GroupsNest (limit room : Nat) (s s' : ParseState) : Prop :=
  ∃ used, Passes s used s' ∧ s'.errors = s.errors ∧ (s.owed = 0 → PairsClose limit room s used.length →
    ∃ inside, TokenKind.groups.Balanced inside ∧
      halvesOf used = inside ++ List.replicate s'.owed (.operator .gt))

theorem GroupsNest.advance (h : s.peek.kind.Lone) : GroupsNest limit room s s.advance := by
  refine ⟨_, .advance h.notEof, s.advance_errors, fun ho _ => ⟨[s.peek.kind], .single h.plain, ?_⟩⟩
  simp [h.halves, ho]

theorem GroupsNest.trans (hkeep : s.owed = 0 → s₁.owed = 0) (h : GroupsNest limit room s s₁)
    (h' : GroupsNest limit room s₁ s') : GroupsNest limit room s s' := by
  obtain ⟨used, hp, he, hn⟩ := h
  obtain ⟨used', hp', he', hn'⟩ := h'
  refine ⟨used ++ used', hp.trans hp', he'.trans he, fun ho hpairs => ?_⟩
  rw [List.length_append] at hpairs
  have hs₁ : s₁ = s.onward used.length := hp.eq_onward ((hkeep ho).trans ho.symm) he
  obtain ⟨inside, hb, hw⟩ := hn ho (hpairs.part (m := 0) (by omega))
  obtain ⟨inside', hb', hw'⟩ := hn' (hkeep ho) (hs₁ ▸ hpairs.part (Nat.le_refl _))
  refine ⟨inside ++ inside', hb.append hb', ?_⟩
  rw [halvesOf_append, hw, hw', hkeep ho, List.replicate_zero, List.append_nil, List.append_assoc]

/-- An argument list is closed by its own `>`, and what is owed behind it is left over from what was owed in it. -/
theorem GroupsNest.args (hk : s.peek.kind = .operator .lt) (h : GroupsNest limit room s.advance s₁)
    (hc : (closeAngle (angles + 1)).run s₁ = (.ok (), s')) : GroupsNest limit room s s' := by
  obtain ⟨used, hp, he, hn⟩ := h
  have hopen := (Passes.advance (s := s) (by simp [hk])).trans hp
  have hinside {n : Nat} (ho : s.owed = 0) (hpairs : PairsClose limit room s (1 + used.length + n)) :
      ∃ inside, TokenKind.groups.Balanced (.operator .lt :: (inside ++ [.operator .gt])) ∧
        halvesOf ([s.peek] ++ used) = .operator .lt :: (inside ++ List.replicate s₁.owed (.operator .gt)) := by
    obtain ⟨inside, hb, hw⟩ := hn (s.advance_owed.trans ho) (hpairs.part (m := 1) (by omega))
    exact ⟨inside, hb.wrap rfl, by simp [hk, hw, TokenKind.halves]⟩
  rcases closeAngle_ok.1 hc with ⟨h₁, rfl⟩ | ⟨h₁, hgt, rfl⟩ | ⟨h₁, -, hshr, rfl⟩
  · refine ⟨_, hopen.trans (.of_place rfl rfl), by simpa using he, fun ho hpairs => ?_⟩
    obtain ⟨inside, hb, hw⟩ := hinside (n := 0) ho (by simpa [Nat.add_comm] using hpairs)
    refine ⟨_, hb, ?_⟩
    obtain ⟨n, hown⟩ : ∃ n, s₁.owed = n + 1 := ⟨s₁.owed - 1, by omega⟩
    rw [List.append_nil, hw, hown, List.replicate_succ]
    simp
  · refine ⟨_, hopen.trans (.advance (by simp [hgt])), by simpa using he, fun ho hpairs => ?_⟩
    obtain ⟨inside, hb, hw⟩ := hinside (n := 1) ho (by simpa [Nat.add_comm] using hpairs)
    refine ⟨_, hb, ?_⟩
    rw [halvesOf_append, hw]
    simp [h₁, hgt, TokenKind.halves]
  · refine ⟨_, (hopen.trans (.advance (by simp [hshr]))).trans (.of_place rfl rfl), by simpa using he,
      fun ho hpairs => ?_⟩
    obtain ⟨inside, hb, hw⟩ := hinside (n := 1) ho (by simpa [Nat.add_comm] using hpairs)
    refine ⟨_, hb, ?_⟩
    rw [List.append_nil, halvesOf_append, hw]
    simp [h₁, hshr, TokenKind.halves]

/-- In a pair of types that owes nothing, both types are balanced. -/
theorem groupsNest_pair {inner : Nat} {first second : TypeExpr} (hk : s.peek.kind = .punctuation .lParen)
    (hroom : inner < room) (h₁ : (typeExpr limit inner angles).run s.advance = (.ok first, s₁))
    (hcomma : s₁.peek.kind = .punctuation .comma)
    (h₂ : (typeExpr limit inner angles).run s₁.advance = (.ok second, s'))
    (hclose : s'.peek.kind = .punctuation .rParen) (h : GroupsNest limit room s.advance s₁)
    (h' : GroupsNest limit room s₁.advance s') : GroupsNest limit room s s'.advance := by
  have hsettled (ho : s.owed = 0) (hpair : owesInPair (typeExpr limit inner 1) s.advance = false) :
      s₁.owed = 0 ∧ s'.owed = 0 := by
    cases angles with
    | zero =>
      have ho₁ : s₁.owed = 0 := Nat.eq_zero_of_le_zero (owed_typeExpr _ _ _ _ _ _ (by simp [ho]) h₁)
      exact ⟨ho₁, Nat.eq_zero_of_le_zero (owed_typeExpr _ _ _ _ _ _ (by simp [ho₁]) h₂)⟩
    | succ angles =>
      rw [typeExpr_inner] at h₁ h₂
      rw [← Bool.not_eq_true, owesInPair_iff] at hpair
      have ho₁ : s₁.owed = 0 := by
        by_contra hne
        exact hpair ⟨first, s₁, h₁, hcomma, .inl hne⟩
      refine ⟨ho₁, ?_⟩
      by_contra hne
      exact hpair ⟨first, s₁, h₁, hcomma, .inr ⟨second, s', h₂, hclose, hne⟩⟩
  obtain ⟨used, hp, he, hn⟩ := h
  obtain ⟨used', hp', he', hn'⟩ := h'
  rw [ParseState.advance_errors] at he he'
  have hopen := (Passes.advance (s := s) (by simp [hk])).trans hp
  have hmiddle := hopen.trans (.advance (by simp [hcomma]))
  have hall := (hmiddle.trans hp').trans (.advance (by simp [hclose]))
  refine ⟨_, hall, by rw [ParseState.advance_errors, he', he], fun ho hpairs => ?_⟩
  have hlength : PairsClose limit room s (1 + used.length + 1 + used'.length + 1) := by
    simpa [Nat.add_comm, Nat.add_left_comm] using hpairs
  obtain ⟨ho₁, ho'⟩ := hsettled ho (hlength 0 (by omega) hk inner hroom)
  obtain ⟨inside, hb, hw⟩ := hn (s.advance_owed.trans ho) (hlength.part (m := 1) (by omega))
  have hs₁ : s₁.advance = s.onward (1 + used.length + 1) := by
    have honward := hmiddle.eq_onward (by simp [ho₁, ho]) (by simp [he])
    simpa [Nat.add_comm, Nat.add_left_comm] using honward
  obtain ⟨inside', hb', hw'⟩ := hn' (by simp [ho₁]) (hs₁ ▸ hlength.part (by omega))
  have hbalanced := hb.append (.plain (a := .punctuation .comma) ⟨rfl, rfl⟩ hb')
  refine ⟨_, hbalanced.wrap (a := .punctuation .lParen) rfl, ?_⟩
  simp [hk, hcomma, hclose, hw, hw', ho₁, ho', TokenKind.halves]

theorem groupsNest_walk (limit room : Nat) : TypeWalk limit room fun _ => GroupsNest limit room where
  token := .advance
  brackets {angles s} h := by
    have hclose : s.advance.peek.kind = .punctuation .rBracket := by
      rw [← ParseState.kindAt_one (by simp [h.1])]
      exact h.2
    have hp := (Passes.advance (s := s) (by simp [h.1])).trans (.advance (by simp [hclose]))
    have hwrap := Brackets.Balanced.nil.wrap (b := TokenKind.groups) (a := .punctuation .lBracket) rfl
    exact ⟨_, hp, by simp, fun ho _ => ⟨_, hwrap, by simp [h.1, hclose, ho, TokenKind.halves]⟩⟩
  trans := .trans
  args := .args
  pair := groupsNest_pair

/-- A balanced stretch ends behind the closer of each pair in it, and none is owed there before. -/
theorem pairsClose_of_balanced {used : List Token} (hp : Passes s used s') (ho : s.owed = 0)
    (hb : TokenKind.brackets.Balanced (used.map Token.kind)) (hg : TokenKind.groups.Balanced (halvesOf used)) :
    PairsClose limit room s used.length := by
  intro k hk
  -- the last pair in which one is owed has none behind it, so that both of its types are balanced
  induction hn : used.length - k using Nat.strongRecOn generalizing k with
  | ind n ih =>
    subst hn
    intro hopen inner hinner
    have hrest := (hp.split (Nat.le_of_lt hk)).2
    obtain ⟨hok', hrest'⟩ := hp.split (Nat.succ_le_of_lt hk)
    have hdrop : used.drop k = used[k] :: used.drop (k + 1) := List.drop_eq_getElem_cons hk
    have hkind : used[k].kind = .punctuation .lParen := by
      rw [hdrop, List.cons_append] at hrest
      rw [← hopen, ParseState.peek_cons hrest]
    have hsplit : used = used.take k ++ used[k] :: used.drop (k + 1) := by
      rw [← hdrop, List.take_append_drop]
    -- what is balanced and read behind the opener ends before the whole stretch does
    have hinside {part : List Token} {s₁ : ParseState} (hpart : Passes (s.onward (k + 1)) part s₁)
        (hbalanced : TokenKind.brackets.Balanced (part.map Token.kind)) :
        ∃ t more, used.drop (k + 1) = part ++ t :: more ∧ s₁.peek = t := by
      have hsame : used.drop (k + 1) ++ s'.rest = part ++ s₁.rest := hrest'.symm.trans hpart.rest
      have hnot : ¬ used.drop (k + 1) <+: part := by
        intro hfirst
        rw [hsplit, List.map_append, List.map_cons, hkind] at hb
        exact Brackets.not_prefix_of_opened rfl hb hbalanced (hfirst.map Token.kind)
      rcases List.append_eq_append_iff.1 hsame with ⟨more, hmore, -⟩ | ⟨more, hmore, hs₁⟩
      · exact absurd ⟨more, hmore.symm⟩ hnot
      · cases more with
        | nil => exact absurd ⟨[], by simpa using hmore⟩ hnot
        | cons t more => exact ⟨t, more, hmore, ParseState.peek_cons hs₁⟩
    have hlater {j m : Nat} (hj : k < j) (hm : j + m ≤ used.length) : PairsClose limit room (s.onward j) m := by
      intro i hi
      rw [← ParseState.onward_add, ← ParseState.onward_add]
      exact ih _ (by omega) (j + i) (by omega) rfl
    -- nothing is owed behind it, since the closer of a list would stand before that of the pair
    have hsettled {part more : List Token} {inside : List TokenKind} {m : Nat}
        (hmore : used.drop (k + 1) = part ++ more) (hbal : TokenKind.groups.Balanced inside)
        (hw : halvesOf part = inside ++ List.replicate m (.operator .gt)) : m = 0 := by
      cases m with
      | zero => rfl
      | succ m =>
        rw [hsplit, hmore, halvesOf_append, halvesOf_cons, halvesOf_append, hw, hkind, List.replicate_succ,
          List.append_assoc, List.cons_append] at hg
        exact absurd hg (Brackets.not_balanced_of_crossed rfl rfl (by decide) hbal)
    rw [← Bool.not_eq_true, owesInPair_iff]
    rintro ⟨first, s₁, h₁, hcomma, howed⟩
    have hs : (s.onward (k + 1)).owed = 0 := hok'.trans ho
    obtain ⟨part, hpart, hbpart⟩ := nests_typeExpr limit inner 1 h₁
    obtain ⟨t, more, hmore, hpeek⟩ := hinside hpart hbpart
    have hlen := congrArg List.length hmore
    rw [List.length_drop, List.length_append, List.length_cons] at hlen
    obtain ⟨part', hpart', he₁, hnest⟩ := (groupsNest_walk limit room).typeExpr (Nat.le_of_lt hinner) h₁
    obtain rfl := hpart.unique hpart'
    obtain ⟨inside, hbal, hw⟩ := hnest hs (hlater (by omega) (by omega))
    have ho₁ : s₁.owed = 0 := hsettled hmore hbal hw
    obtain ⟨second, s₂, h₂, hclose, howed'⟩ := howed.resolve_left (absurd ho₁)
    obtain ⟨part₂, hpart₂, hbpart₂⟩ := nests_typeExpr limit inner 1 h₂
    have hmiddle := hpart.trans (.advance (s := s₁) (by simp [hcomma]))
    have hbmiddle : TokenKind.brackets.Balanced ((part ++ [s₁.peek] ++ part₂).map Token.kind) := by
      have hrest := Brackets.Balanced.plain (a := .punctuation .comma) ⟨rfl, rfl⟩ hbpart₂
      simpa [hcomma] using hbpart.append hrest
    obtain ⟨t₂, more₂, hmore₂, -⟩ := hinside (hmiddle.trans hpart₂) hbmiddle
    have hlen₂ := congrArg List.length hmore₂
    simp only [List.length_drop, List.length_append, List.length_cons, List.length_nil] at hlen₂
    obtain ⟨part₂', hpart₂', -, hnest₂⟩ := (groupsNest_walk limit room).typeExpr (Nat.le_of_lt hinner) h₂
    obtain rfl := hpart₂.unique hpart₂'
    have hs₁ : s₁.advance = s.onward (k + 1 + (part.length + 1)) := by
      rw [ParseState.onward_add]
      simpa using hmiddle.eq_onward (by simp [ho₁, hs]) (by simp [he₁])
    obtain ⟨inside₂, hbal₂, hw₂⟩ := hnest₂ (by simp [ho₁]) (hs₁ ▸ hlater (by omega) (by omega))
    have hwmiddle : halvesOf (part ++ [s₁.peek] ++ part₂) =
        (inside ++ .punctuation .comma :: inside₂) ++ List.replicate s₂.owed (.operator .gt) := by
      simp [hw, hw₂, ho₁, hcomma, TokenKind.halves]
    exact howed' (hsettled hmore₂ (hbal.append (.plain ⟨rfl, rfl⟩ hbal₂)) hwmiddle)

end Parser

open ElleFrontEnd.Parser (typeExpr PairsClose)

/-- Behind a type, nothing is owed.  Its parentheses and brackets are balanced, and so are its `<` and `>`; all of them
together are balanced just where no pair of types goes on with a `>` owed. -/
theorem typeExpr_nests {limit room : Nat} {s s' : ParseState} {t : TypeExpr} (ho : s.owed = 0)
    (h : (typeExpr limit room 0).run s = (.ok t, s')) :
    s'.owed = 0 ∧ ∃ used, Passes s used s' ∧ TokenKind.brackets.Balanced (used.map Token.kind) ∧
      TokenKind.angles.Balanced (halvesOf used) ∧
        (TokenKind.groups.Balanced (halvesOf used) ↔ PairsClose limit room s used.length) := by
  obtain ⟨used, hp, hbrackets⟩ := Parser.nests_typeExpr limit room 0 h
  obtain ⟨ho', used', hp', hangles⟩ :=
    (Parser.anglesNest_walk limit room).typeExpr (Nat.le_refl room) h (Nat.le_of_eq ho)
  obtain rfl := hp.unique hp'
  have ho₀ : s'.owed = 0 := Nat.eq_zero_of_le_zero ho'
  refine ⟨ho₀, used, hp, hbrackets, ?_, fun hg => Parser.pairsClose_of_balanced hp ho hbrackets hg, fun hpairs => ?_⟩
  · rw [← Brackets.nests_iff]
    simpa [Brackets.nests] using hangles []
  · obtain ⟨used', hp', -, hnest⟩ := (Parser.groupsNest_walk limit room).typeExpr (Nat.le_refl room) h
    obtain rfl := hp.unique hp'
    obtain ⟨inside, hb, hw⟩ := hnest ho hpairs
    rw [hw, ho₀, List.replicate_zero, List.append_nil]
    exact hb

/-- The state before the first token of a source. -/
def openingState (source : String) : ParseState := { rest := (lex source).tokens }

/-- A pair of types in an argument list, the second of them closed by a `>>` of its own. -/
def nestedPairSource : String := "V<(A[], C<D<E>>)>* x"

theorem typeExpr_nests_nestedPair : (openingState nestedPairSource).owed = 0 ∧
    ∃ t s', (typeExpr 256 256 0).run (openingState nestedPairSource) = (.ok t, s') ∧ s'.owed = 0 ∧
      ∃ used, Passes (openingState nestedPairSource) used s' ∧ TokenKind.groups.Balanced (halvesOf used) := by
  have hread : ((typeExpr 256 256 0).run (openingState nestedPairSource)).1.isOk = true := by decide +kernel
  have hpairs : PairsClose 256 256 (openingState nestedPairSource) 20 := by decide +kernel
  have hlength : (openingState nestedPairSource).rest.length ≤ 20 := by decide +kernel
  rcases h : (typeExpr 256 256 0).run (openingState nestedPairSource) with ⟨e | t, s'⟩
  · simp [h, Except.isOk, Except.toBool] at hread
  · obtain ⟨ho, used, hp, -, -, hgroups⟩ := typeExpr_nests rfl h
    have hused : used.length ≤ 20 := by
      rw [hp.rest, List.length_append] at hlength
      omega
    exact ⟨rfl, t, s', rfl, ho, used, hp, hgroups.2 (hpairs.part (m := 0) (by omega))⟩

/-- A `>>` behind the second type of a pair, the first half of which closes a list in the pair and the second half the
list around it. -/
def crossedPairSource : String := "V<(A, B<C>>) x"

/-- A type may be accepted though its brackets cross. -/
theorem typeExpr_crosses : (openingState crossedPairSource).owed = 0 ∧
    ∃ t s' used, (typeExpr 256 256 0).run (openingState crossedPairSource) = (.ok t, s') ∧
      Passes (openingState crossedPairSource) used s' ∧ ¬ TokenKind.groups.Balanced (halvesOf used) := by
  have hread : ((typeExpr 256 256 0).run (openingState crossedPairSource)).1.isOk = true := by decide +kernel
  have hleft : ((typeExpr 256 256 0).run (openingState crossedPairSource)).2.rest.length = 2 := by decide +kernel
  have hcrossed : ¬ TokenKind.groups.Balanced (halvesOf ((openingState crossedPairSource).rest.take 10)) := by
    decide +kernel
  have hlength : (openingState crossedPairSource).rest.length = 12 := by decide +kernel
  rcases h : (typeExpr 256 256 0).run (openingState crossedPairSource) with ⟨e | t, s'⟩
  · simp [h, Except.isOk, Except.toBool] at hread
  · obtain ⟨used, hp, -⟩ := Parser.nests_typeExpr 256 256 0 h
    have hused : used.length = 10 := by
      have hsum := congrArg List.length hp.rest
      rw [hlength, List.length_append, show s'.rest.length = 2 by simpa [h] using hleft] at hsum
      omega
    rw [hp.rest, List.take_left' hused] at hcrossed
    exact ⟨rfl, t, s', used, rfl, hp, hcrossed⟩

end ElleFrontEnd
