import ElleFrontEnd.Proofs.Residue
import ElleFrontEnd.Proofs.Words

/-!
# The words that are read

Whatever a parser makes of tokens, the words of its result are the words that it has passed: those ahead of it are the
words of the result and those ahead of the place where it ends (`Conveys`).

An argument list that owes a `>` to an outer one is the exception.  A pair of types goes on behind its first type even
then, so that the `>` stands behind the words of the second type in the printed form, but before them in the source.
Nothing else changes its place (`GtCommutes`), and nothing at all does where no pair goes on in this way
(`PairsSettle`).
-/

namespace ElleFrontEnd

open ElleFrontEnd.Parser (typeExpr)

/-- Whether no `>` is kept among other words. -/
def GtCommutes (keep : TokenKind → Bool) : Prop :=
  ∀ k, keep (.operator .gt) = true → keep k = true → k = .operator .gt

/-- Where words are kept loosely, a `>` may as well stand behind the others. -/
theorem GtCommutes.comm {keep : TokenKind → Bool} (h : GtCommutes keep) (n : Nat) (ks : List TokenKind) :
    wordsOf keep (List.replicate n (.operator .gt) ++ ks) = wordsOf keep (ks ++ List.replicate n (.operator .gt)) := by
  cases hk : keep (.operator .gt) with
  | false =>
    have hnil : wordsOf keep (List.replicate n (.operator .gt)) = [] := by
      simp [wordsOf, TokenKind.kept, TokenKind.words, hk]
    simp [hnil]
  | true =>
    have hall (ls : List TokenKind) : ∀ k ∈ wordsOf keep ls, k = .operator .gt := by
      intro k hmem
      rw [wordsOf_eq_filter] at hmem
      exact h k hk (List.mem_filter.1 hmem).2
    rw [List.eq_replicate_of_mem (hall _), List.eq_replicate_of_mem (hall (ks ++ _))]
    simp [Nat.add_comm]

/-- The first type of a pair inside of type arguments is read, and a `>` is owed at the comma behind it. -/
def owesAtComma (r : Except Diagnostic TypeExpr × ParseState) : Bool :=
  r.1.isOk && decide (r.2.peek.kind = .punctuation .comma) && decide (r.2.owed ≠ 0)

/-- Wherever in the stream a pair of types begins, no `>` is owed between its two types. -/
def PairsSettle (limit : Nat) (tokens : List Token) : Prop :=
  ∀ n ≤ tokens.length, (stateAt tokens n).peek.kind = .punctuation .lParen → ∀ room ≤ limit,
    owesAtComma ((typeExpr limit room 1).run (stateAt tokens (n + 1))) = false

instance (limit : Nat) (tokens : List Token) : Decidable (PairsSettle limit tokens) :=
  inferInstanceAs (Decidable (∀ n ≤ tokens.length, _ → ∀ room ≤ limit, _ = false))

/-- The words ahead of a place: the `>` that are owed there, and those of the tokens to read. -/
def ParseState.ahead (keep : TokenKind → Bool) (s : ParseState) : List TokenKind :=
  wordsOf keep (List.replicate s.owed (.operator .gt) ++ s.kinds)

section

variable {keep : TokenKind → Bool} {s s' : ParseState} {k : TokenKind}

/-- Where nothing is owed, or words are kept loosely, the next word is that of the next token. -/
theorem ParseState.ahead_advance (h : GtCommutes keep ∨ s.owed = 0) (hk : s.peek.kind = k) (he : k ≠ .eof) :
    s.ahead keep = k.kept keep ++ s.advance.ahead keep := by
  have hkinds : s.kinds = k :: s.advance.kinds := hk ▸ kinds_of_peek (hk ▸ he)
  rcases h with h | h
  · rw [ahead, ahead, h.comm, hkinds, h.comm, advance_owed]
    simp
  · simp [ahead, h, hkinds]

/-- A token without words may be passed whatever is owed. -/
theorem ParseState.ahead_advance_of_nil (hk : s.peek.kind = k) (he : k ≠ .eof) (hn : k.kept keep = []) :
    s.ahead keep = s.advance.ahead keep := by
  have hkinds : s.kinds = k :: s.advance.kinds := hk ▸ kinds_of_peek (hk ▸ he)
  simp [ahead, hkinds, hn]

end

/-! ### Types -/

namespace Parser

variable {keep : TokenKind → Bool} {tokens : List Token} {limit room angles : Nat} {s s' : ParseState}

/-- With one argument list open, a type is read as with more of them. -/
theorem typeExpr_inner (limit room angles : Nat) : typeExpr limit room (angles + 1) = typeExpr limit room 1 := by
  induction room generalizing angles with
  | zero => rfl
  | succ room ih =>
    have hclose : closeAngle (angles + 1 + 1) = closeAngle (1 + 1) := by simp [closeAngle]
    unfold typeExpr typeBody baseType namedType tupleType typeArgs
    rw [hclose, ih (angles + 1), ih angles, ih 1]

/-- A place on the stream that is reached with nothing recorded. -/
structure Along (tokens : List Token) (s : ParseState) : Prop where
  clean : s.errors = []
  stands : ∃ n, StandsAt tokens n s

namespace Along

theorem of_advances (h : Along tokens s) (hs : s'.errors = s.errors) (ha : Advances s s') : Along tokens s' := by
  obtain ⟨n, hn⟩ := h.stands
  obtain ⟨used, hu⟩ := ha.passes
  exact ⟨hs.trans h.clean, _, hn.of_passes hu⟩

theorem advance (h : Along tokens s) : Along tokens s.advance :=
  h.of_advances s.advance_errors (.advance s)

theorem typeExpr {t : TypeExpr} (h : Along tokens s)
    (ht : (Parser.typeExpr limit room angles).run s = (.ok t, s')) : Along tokens s' :=
  h.of_advances ((Silent.typeExpr limit room angles).errors_eq ht) (advances_run (advances_typeExpr _ _ _) ht)

theorem closeAngle (h : Along tokens s) (hc : (Parser.closeAngle angles).run s = (.ok (), s')) : Along tokens s' := by
  rcases closeAngle_ok.1 hc with ⟨-, rfl⟩ | ⟨-, -, rfl⟩ | ⟨-, -, -, rfl⟩
  · exact h.of_advances rfl (.withOwed s _)
  · exact h.advance
  · exact h.advance.of_advances rfl (.withOwed s.advance _)

/-- Behind a token at which nothing is owed stands the place next to its own. -/
theorem advance_eq_stateAt (h : Along tokens s) (ho : s.owed = 0) (hk : s.peek.kind ≠ .eof) :
    ∃ n ≤ tokens.length, s = stateAt tokens n ∧ s.advance = stateAt tokens (n + 1) := by
  have heq {s : ParseState} {n : Nat} (hc : s.errors = []) (ho : s.owed = 0) (hn : StandsAt tokens n s) :
      s = stateAt tokens n := by
    obtain ⟨last, rest, owed, errors⟩ := s
    obtain rfl : errors = [] := hc
    obtain rfl : owed = 0 := ho
    obtain rfl : last = (tokens.take n).getLast? := hn.last
    obtain rfl : rest = tokens.drop n := hn.rest
    rfl
  obtain ⟨n, hn⟩ := h.stands
  exact ⟨n, hn.bound, heq h.clean ho hn,
    heq h.advance.clean (s.advance_owed.trans ho) (hn.of_passes (.advance hk))⟩

end Along

/-- One argument list is closed by one `>`, also where that is the first or the second half of a `>>`. -/
theorem ahead_closeAngle (h : (closeAngle angles).run s = (.ok (), s')) :
    s.ahead keep = (TokenKind.operator .gt).kept keep ++ s'.ahead keep := by
  rcases closeAngle_ok.1 h with ⟨ho, rfl⟩ | ⟨ho, hk, rfl⟩ | ⟨ho, -, hk, rfl⟩
  · obtain ⟨n, hn⟩ : ∃ n, s.owed = n + 1 := ⟨s.owed - 1, by omega⟩
    simp [ParseState.ahead, hn, List.replicate_succ, ParseState.kinds]
  · exact ParseState.ahead_advance (.inr ho) hk (by simp)
  · rw [ParseState.ahead_advance (.inr ho) hk (by simp), kept_shr]
    simp [ParseState.ahead, ho, ParseState.kinds]

theorem ahead_starRun {n : Nat} (ho : s.owed = 0) (h : starRun.run s = (.ok n, s')) :
    s.ahead keep = Fragment.kept keep (List.replicate n (.op .star)) ++ s'.ahead keep ∧ s'.owed = 0 := by
  rw [starRun_ok] at h
  induction h with
  | stop _ => exact ⟨rfl, ho⟩
  | next hk _ ih =>
    obtain ⟨hw, ho'⟩ := ih ((ParseState.advance_owed _).trans ho)
    rw [ParseState.ahead_advance (.inr ho) hk (by simp), hw, List.replicate_succ]
    simp [ho']

theorem ahead_bracketRun {n : Nat} (ho : s.owed = 0) (h : bracketRun.run s = (.ok n, s')) :
    s.ahead keep = Fragment.kept keep (List.replicate n [.mark .lBracket, .mark .rBracket]).flatten ++ s'.ahead keep ∧
      s'.owed = 0 := by
  rw [bracketRun_ok] at h
  induction h with
  | stop _ => exact ⟨rfl, ho⟩
  | @next n s s' hk _ ih =>
    have ho₁ : s.advance.owed = 0 := (ParseState.advance_owed _).trans ho
    obtain ⟨hw, ho'⟩ := ih ((ParseState.advance_owed _).trans ho₁)
    have hk₁ : s.advance.peek.kind = .punctuation .rBracket := by
      rw [← ParseState.kindAt_one (by simp [hk.1]), hk.2]
    rw [ParseState.ahead_advance (.inr ho) hk.1 (by simp), ParseState.ahead_advance (.inr ho₁) hk₁ (by simp), hw,
      List.replicate_succ]
    simp [ho']

/-- Stars and brackets are read only where nothing is owed. -/
theorem ahead_of_grows {start : Nat} {t t' : TypeExpr} {s₀ : ParseState} (h : Grows (typeSuffix start) t s t' s')
    (hs : s₀.ahead keep = Fragment.kept keep t.layout ++ s.ahead keep) :
    s₀.ahead keep = Fragment.kept keep t'.layout ++ s'.ahead keep := by
  induction h with
  | stop h => exact (typeSuffix_none.1 h).2 ▸ hs
  | next h _ ih =>
    obtain ⟨ho, ⟨-, n, hn, rfl⟩ | ⟨-, -, n, hn, rfl⟩⟩ := typeSuffix_some.1 h
    · exact ih (by rw [hs, (ahead_starRun ho hn).1]; simp [TypeExpr.layout])
    · exact ih (by rw [hs, (ahead_bracketRun ho hn).1]; simp [TypeExpr.layout])

/-- Types that are read along the stream, from places where nothing is owed or words are kept loosely, take their words
from it. -/
def ConveysTypes (keep : TokenKind → Bool) (tokens : List Token) (type : Nat → Parser TypeExpr) : Prop :=
  ∀ ⦃angles s t s'⦄, Along tokens s → (GtCommutes keep ∨ s.owed = 0) → (type angles).run s = (.ok t, s') →
    Along tokens s' ∧ s.ahead keep = Fragment.kept keep t.layout ++ s'.ahead keep

section

variable {type : Nat → Parser TypeExpr} (ha : ∀ angles s, Advances s (type angles s).2)
  (ht : ConveysTypes keep tokens type)
include ht

theorem ahead_of_listed {ends : ParseState → Prop} {args : List TypeExpr} (hs : Along tokens s)
    (ho : GtCommutes keep ∨ s.owed = 0) (h : Listed ends separatesArgs (type angles) s args s') :
    Along tokens s' ∧ s.ahead keep = args.flatMap (fun t => Fragment.kept keep t.layout) ++ s'.ahead keep := by
  induction h with
  | nil _ => exact ⟨hs, rfl⟩
  | last _ h _ =>
    obtain ⟨hs', hw⟩ := ht hs ho h
    exact ⟨hs', by simpa using hw⟩
  | more _ h hsep _ ih =>
    obtain ⟨hs₁, hw⟩ := ht hs ho h
    obtain ⟨hs', hrest⟩ := ih hs₁.advance (.inr ((ParseState.advance_owed _).trans hsep.1))
    refine ⟨hs', ?_⟩
    rw [hw, ParseState.ahead_advance (.inr hsep.1) hsep.2 (by simp), hrest]
    simp

include ha

theorem ahead_typeArgs {args : List TypeExpr} (hs : Along tokens s) (ho : GtCommutes keep ∨ s.owed = 0)
    (h : (typeArgs type angles).run s = (.ok args, s')) : Along tokens s' ∧
      s.ahead keep = Fragment.kept keep (optTypeArgsLayout (some args)) ++ s'.ahead keep := by
  obtain ⟨hk, s₁, hl, hc⟩ := (typeArgs_ok ha).1 h
  obtain ⟨hs₁, hw⟩ := ahead_of_listed ht hs.advance (by rwa [ParseState.advance_owed]) hl
  refine ⟨hs₁.closeAngle hc, ?_⟩
  rw [ParseState.ahead_advance ho hk (by simp), hw, ahead_closeAngle hc]
  simp [optTypeArgsLayout, typeListLayout_eq_map, List.flatMap_map]

/-- Only at the comma of a pair does it matter whether a `>` is owed. -/
theorem ahead_typeBody {t : TypeExpr} (hs : Along tokens s) (ho : GtCommutes keep ∨ s.owed = 0)
    (hpair : ∀ first s₁, s.peek.kind = .punctuation .lParen → (type angles).run s.advance = (.ok first, s₁) →
      s₁.peek.kind = .punctuation .comma → GtCommutes keep ∨ s₁.owed = 0)
    (h : (typeBody type angles).run s = (.ok t, s')) :
    s.ahead keep = Fragment.kept keep t.layout ++ s'.ahead keep := by
  obtain ⟨base, s₁, hb, hgrow⟩ := typeBody_ok.1 h
  refine ahead_of_grows hgrow ?_
  have ho₁ : GtCommutes keep ∨ s.advance.owed = 0 := by rwa [ParseState.advance_owed]
  rcases baseType_ok.1 hb with ⟨p, hk, rfl, rfl⟩ | ⟨name, hk, h⟩ | ⟨hk, h⟩
  · rw [ParseState.ahead_advance ho hk (by simp)]
    simp [TypeExpr.layout]
  · rw [ParseState.ahead_advance ho hk (by simp)]
    rcases namedType_ok.1 h with ⟨-, -, args, hargs, rfl⟩ | ⟨-, rfl, rfl⟩
    · rw [(ahead_typeArgs ha ht hs.advance ho₁ hargs).2]
      simp [TypeExpr.layout, optTypeArgsLayout]
    · simp [TypeExpr.layout]
  · obtain ⟨first, s₂, second, s₃, h₁, hcomma, h₂, hclose, rfl, rfl⟩ := tupleType_ok.1 h
    have ho₂ := hpair _ _ hk h₁ hcomma
    obtain ⟨hs₂, hw₁⟩ := ht hs.advance ho₁ h₁
    obtain ⟨-, hw₂⟩ := ht hs₂.advance (by rwa [ParseState.advance_owed]) h₂
    rw [ParseState.ahead_advance ho hk (by simp), hw₁, ParseState.ahead_advance ho₂ hcomma (by simp), hw₂,
      ParseState.ahead_advance_of_nil hclose (by simp) rfl]
    simp [TypeExpr.layout]

end

/-- Behind the first type of a pair, nothing is owed where pairs settle. -/
theorem owed_first (hp : PairsSettle limit tokens) (hroom : room ≤ limit) {first : TypeExpr} (hs : Along tokens s)
    (ho : s.owed = 0) (hk : s.peek.kind = .punctuation .lParen)
    (h : (typeExpr limit room angles).run s.advance = (.ok first, s'))
    (hcomma : s'.peek.kind = .punctuation .comma) : s'.owed = 0 := by
  cases angles with
  | zero => exact Nat.eq_zero_of_le_zero (owed_typeExpr _ _ _ _ _ _ (by simp [ho]) h)
  | succ angles =>
    obtain ⟨n, hn, rfl, hnext⟩ := hs.advance_eq_stateAt ho (by simp [hk])
    have hsettled := hp n hn hk room hroom
    rw [typeExpr_inner, hnext] at h
    simpa [h, owesAtComma, hcomma, Except.isOk, Except.toBool] using hsettled

/-- A type takes its words from the stream. -/
theorem conveysTypes_typeExpr (hp : GtCommutes keep ∨ PairsSettle limit tokens) (hroom : room ≤ limit) :
    ConveysTypes keep tokens (typeExpr limit room) := by
  induction room with
  | zero => exact fun _ _ _ _ _ _ h => absurd (tooDeep_ok.1 h) id
  | succ room ih =>
    intro angles s t s' hs ho h
    refine ⟨hs.typeExpr h, ahead_typeBody (advances_typeExpr limit room) (ih (Nat.le_of_succ_le hroom)) hs ho ?_ h⟩
    intro first s₁ hk h₁ hcomma
    rcases hp with hp | hp
    · exact .inl hp
    · exact ho.imp_right fun ho => owed_first hp (Nat.le_of_succ_le hroom) hs ho hk h₁ hcomma

end Parser

/-! ### From place to place -/

/-- A place on the stream at which nothing is owed or recorded. -/
structure Stands (tokens : List Token) (s : ParseState) : Prop extends Parser.Along tokens s where
  owed : s.owed = 0

/-- From a place on the stream, words are read up to another. -/
def Conveys (keep : TokenKind → Bool) (tokens : List Token) (s : ParseState) (words : List TokenKind)
    (s' : ParseState) : Prop :=
  Stands tokens s → Stands tokens s' ∧ s.ahead keep = words ++ s'.ahead keep

namespace Conveys

variable {keep : TokenKind → Bool} {tokens : List Token} {s s₁ s' : ParseState} {words words' : List TokenKind}
  {k : TokenKind}

theorem refl : Conveys keep tokens s [] s := fun hs => ⟨hs, rfl⟩

theorem trans (h : Conveys keep tokens s words s₁) (h' : Conveys keep tokens s₁ words' s') :
    Conveys keep tokens s (words ++ words') s' := by
  intro hs
  obtain ⟨hs₁, hw⟩ := h hs
  obtain ⟨hs', hw'⟩ := h' hs₁
  exact ⟨hs', by rw [hw, hw', List.append_assoc]⟩

theorem congr (h : Conveys keep tokens s words s') (hw : words' = words) : Conveys keep tokens s words' s' := hw ▸ h

theorem advance (hk : s.peek.kind = k) (he : k ≠ .eof) : Conveys keep tokens s (k.kept keep) s.advance := fun hs =>
  ⟨⟨hs.toAlong.advance, s.advance_owed.trans hs.owed⟩, ParseState.ahead_advance (.inr hs.owed) hk he⟩

/-- The items of a list yield their words one after another where their separators have none. -/
theorem listed {α : Type} {item : Parser α} {wordsOf : α → List TokenKind} {ends separates : ParseState → Prop}
    (hitem : ∀ {s a s'}, item.run s = (.ok a, s') → Conveys keep tokens s (wordsOf a) s')
    (hsep : ∀ {s}, separates s → s.peek.kind = k) (he : k ≠ .eof) (hn : k.kept keep = []) {as : List α}
    (h : Listed ends separates item s as s') : Conveys keep tokens s (as.flatMap wordsOf) s' := by
  induction h with
  | nil _ => exact refl
  | last _ h _ => exact (hitem h).congr (by simp)
  | more _ h hs _ ih => exact (((hitem h).trans (advance (hsep hs) he)).trans ih).congr (by simp [hn])

/-- Items with a separator that has words yield them between two items. -/
theorem separated {α : Type} {item : Parser α} {wordsOf : α → List TokenKind}
    (hitem : ∀ {s a s'}, item.run s = (.ok a, s') → Conveys keep tokens s (wordsOf a) s') (he : k ≠ .eof)
    {as : List α} (h : Parser.SeparatedListed k item s as s') :
    ∃ a as', as = a :: as' ∧ Conveys keep tokens s (wordsOf a ++ as'.flatMap fun a => k.kept keep ++ wordsOf a) s' := by
  induction h with
  | nil h => exact h.elim
  | last _ h _ => exact ⟨_, [], rfl, (hitem h).congr (by simp)⟩
  | more _ h hs _ ih =>
    obtain ⟨a', as', rfl, hrest⟩ := ih
    exact ⟨_, _, rfl, (((hitem h).trans (advance hs he)).trans hrest).congr (by simp)⟩

end Conveys

end ElleFrontEnd
