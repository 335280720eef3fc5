import ElleFrontEnd.Proofs.Numerals
import Mathlib.Data.Nat.Digits.Defs
import Mathlib.Tactic.IntervalCases
import Mathlib.Tactic.Ring

/-!
# The values of number literals

The integer value of a literal in a source is the number that its digits write in its radix, or is absent because 64 bits
do not hold it.  A literal in the decimal forms always has a floating value, and another one has if it has an integer
value (`lex_numberValues`).
-/

namespace ElleFrontEnd

/-! ### Positional values -/

/-- The value of a digit: its place among the sixteen, where letters may be of either case. -/
def digitPlace (c : Char) : Nat := "0123456789abcdef".toList.idxOf c.toLower

/-- The radix of the integer forms. -/
def NumberKind.radix? : NumberKind → Option Nat
  | .hex => some 16
  | .octal => some 8
  | .binary => some 2
  | .decimal => some 10
  | .float | .scientific => none

/-- The digits of an integer literal, without its radix mark and its separators. -/
def NumberLit.digits (n : NumberLit) : List Char :=
  (if n.kind = .decimal then n.text.toList else n.text.toList.drop 2).filter (· ≠ '_')

/-- The number that the digits of an integer literal write in a radix, the last of them for ones. -/
def NumberLit.positional (n : NumberLit) (radix : Nat) : Nat := Nat.ofDigits radix (n.digits.map digitPlace).reverse

section
variable {radix : Nat} {c : Char}

theorem digitValue?_eq {v : Nat} (h : digitValue? radix c = some v) : v = digitPlace c := by
  -- the ten digits and the letters of either case, one by one
  have hdigits : ∀ n, 48 ≤ n → n ≤ 57 → n - 48 = digitPlace (Char.ofNat n) :=
    fun n hl hu => by interval_cases n <;> rfl
  have hlowers : ∀ n, 97 ≤ n → n ≤ 102 → n - 97 + 10 = digitPlace (Char.ofNat n) :=
    fun n hl hu => by interval_cases n <;> rfl
  have huppers : ∀ n, 65 ≤ n → n ≤ 70 → n - 65 + 10 = digitPlace (Char.ofNat n) :=
    fun n hl hu => by interval_cases n <;> rfl
  unfold digitValue? at h
  dsimp only at h
  split_ifs at h with hdigit hlt hlower hlt hupper hlt hlt
  · obtain ⟨hl, hu⟩ := Bool.and_eq_true_iff.1 hdigit
    have heq := hdigits c.toNat (of_decide_eq_true hl) (of_decide_eq_true hu)
    rw [Char.ofNat_toNat] at heq
    exact (Option.some.inj h).symm.trans heq
  · obtain ⟨hl, hu⟩ := Bool.and_eq_true_iff.1 hlower
    have heq := hlowers c.toNat (of_decide_eq_true hl) (of_decide_eq_true hu)
    rw [Char.ofNat_toNat] at heq
    exact (Option.some.inj h).symm.trans heq
  · obtain ⟨hl, hu⟩ := Bool.and_eq_true_iff.1 hupper
    have heq := huppers c.toNat (of_decide_eq_true hl) (of_decide_eq_true hu)
    rw [Char.ofNat_toNat] at heq
    exact (Option.some.inj h).symm.trans heq
  · exact absurd hlt (Nat.lt_irrefl radix)

theorem digitValue?_isSome_of_isDigit (h : c.isDigit = true) : (digitValue? 10 c).isSome = true := by
  have hlt : c.toNat - '0'.toNat < 10 := by
    have hu : c.toNat ≤ 57 := of_decide_eq_true (Bool.and_eq_true_iff.1 h).2
    have hzero : '0'.toNat = 48 := rfl
    omega
  unfold digitValue?
  rw [if_pos h]
  exact Option.isSome_iff_exists.2 ⟨_, if_pos hlt⟩

/-- Digits are read as the number that they write behind those above. -/
theorem digitsValue?_eq {digits : List Char} (above : Nat) (h : ∀ c ∈ digits, (digitValue? radix c).isSome = true) :
    digitsValue? radix above digits =
      some (above * radix ^ digits.length + Nat.ofDigits radix (digits.map digitPlace).reverse) := by
  induction digits generalizing above with
  | nil => simp [digitsValue?]
  | cons c digits ih =>
    obtain ⟨hc, hdigits⟩ := List.forall_mem_cons.1 h
    obtain ⟨v, hv⟩ := Option.isSome_iff_exists.1 hc
    have hvalue : digitsValue? radix above (c :: digits) = digitsValue? radix (above * radix + v) digits := by
      simp [digitsValue?, hv]
    rw [hvalue, ih _ hdigits, digitValue?_eq hv, List.map_cons, List.reverse_cons, Nat.ofDigits_append,
      List.length_reverse, List.length_map, Nat.ofDigits_singleton, List.length_cons, Nat.pow_succ]
    congr 1
    ring

theorem readNatBelow?_eq {bound : Nat} {digits : List Char} (hne : digits ≠ [])
    (h : ∀ c ∈ digits, (digitValue? radix c).isSome = true) : readNatBelow? bound radix digits =
      if Nat.ofDigits radix (digits.map digitPlace).reverse < bound then
        some (Nat.ofDigits radix (digits.map digitPlace).reverse) else none := by
  have hplus : digitValue? radix '+' = none := by
    simp [digitValue?]
  unfold readNatBelow?
  dsimp only
  split
  · have := h '+' List.mem_cons_self
    rw [hplus] at this
    cases this
  · rw [if_neg (by simpa using hne), digitsValue?_eq 0 h, Nat.zero_mul, Nat.zero_add]
    simp only [Option.filter, decide_eq_true_eq]

end

/-! ### Digits without separators -/

section
variable {isDigit : Char → Bool} {run text : List Char}

open NumberLit (withoutSeparators)

theorem DigitGroup.withoutSeparators (h : DigitGroup isDigit run) (hd : isDigit '_' = false) :
    withoutSeparators run ≠ [] ∧ ∀ c ∈ withoutSeparators run, isDigit c = true := by
  refine ⟨fun hnil => ?_, fun c hc => ?_⟩
  · obtain ⟨c, tail, rfl, hc⟩ := h.head
    have hne : c ≠ '_' := by
      rintro rfl
      rw [hd] at hc
      cases hc
    have hmem : c ∈ NumberLit.withoutSeparators (c :: tail) := by simp [NumberLit.withoutSeparators, hne]
    rw [hnil] at hmem
    cases hmem
  · obtain ⟨hmem, hne⟩ := List.mem_filter.1 hc
    simpa [of_decide_eq_true hne] using h.mem c hmem

theorem withoutSeparators_append (a b : List Char) :
    withoutSeparators (a ++ b) = withoutSeparators a ++ withoutSeparators b := List.filter_append ..

theorem withoutSeparators_cons {c : Char} (hc : c ≠ '_') (cs : List Char) :
    withoutSeparators (c :: cs) = c :: withoutSeparators cs := by simp [withoutSeparators, hc]

/-- A fraction, without separators, is a point with digits behind it, or nothing. -/
theorem IsFraction.withoutSeparators (h : IsFraction text) : withoutSeparators text = [] ∨ ∃ digits,
    withoutSeparators text = '.' :: digits ∧ ∀ c ∈ digits, c.isDigit = true := by
  rcases h with rfl | ⟨run, rfl, hrun⟩
  · exact .inl rfl
  · exact .inr ⟨_, withoutSeparators_cons (by decide) _, (hrun.withoutSeparators (by decide)).2⟩

/-- An exponent, without separators, is a mark, a sign or none, and digits, or nothing. -/
theorem IsExponent.withoutSeparators (h : IsExponent text) : withoutSeparators text = [] ∨ ∃ mark sign digits,
    withoutSeparators text = mark :: (sign ++ digits) ∧ (mark = 'e' ∨ mark = 'E') ∧
      (sign = [] ∨ sign = ['+'] ∨ sign = ['-']) ∧ digits ≠ [] ∧ ∀ c ∈ digits, c.isDigit = true := by
  rcases h with rfl | ⟨mark, sign, run, rfl, hm, hs, hrun⟩
  · exact .inl rfl
  · obtain ⟨hne, hdigits⟩ := hrun.withoutSeparators (by decide)
    have hsign : NumberLit.withoutSeparators sign = sign := by rcases hs with rfl | rfl | rfl <;> rfl
    refine .inr ⟨mark, sign, _, ?_, hm, hs, hne, hdigits⟩
    rw [withoutSeparators_cons (by rcases hm with rfl | rfl <;> decide), withoutSeparators_append, hsign]

end

/-! ### Reading doubles -/

section
variable {whole fraction exponent : List Char}

theorem readExponent?_isSome {mark : Char} {sign digits : List Char} (hm : mark = 'e' ∨ mark = 'E')
    (hs : sign = [] ∨ sign = ['+'] ∨ sign = ['-']) (hne : digits ≠ []) (h : ∀ c ∈ digits, c.isDigit = true) :
    (Decimal.readExponent? (mark :: (sign ++ digits))).isSome = true := by
  have hvalue := digitsValue?_eq 0 fun c hc => digitValue?_isSome_of_isDigit (h c hc)
  have hmark : (decide (mark = 'e') || decide (mark = 'E')) = true := by simpa using hm
  have hempty : digits.isEmpty = false := by simpa using hne
  unfold Decimal.readExponent?
  dsimp only
  rw [if_pos hmark]
  rcases hs with rfl | rfl | rfl
  · rw [List.nil_append]
    split
    · exact absurd (h '-' List.mem_cons_self) (by decide)
    · exact absurd (h '+' List.mem_cons_self) (by decide)
    · simp [hempty, hvalue]
  · simp [hempty, hvalue]
  · simp [hempty, hvalue]

/-- Digits with a fraction and an exponent, or without, have a nearest double. -/
theorem readDouble?_isSome (hne : whole ≠ []) (hw : ∀ c ∈ whole, c.isDigit = true)
    (hf : fraction = [] ∨ ∃ digits, fraction = '.' :: digits ∧ ∀ c ∈ digits, c.isDigit = true)
    (he : exponent = [] ∨ ∃ mark sign digits, exponent = mark :: (sign ++ digits) ∧ (mark = 'e' ∨ mark = 'E') ∧
      (sign = [] ∨ sign = ['+'] ∨ sign = ['-']) ∧ digits ≠ [] ∧ ∀ c ∈ digits, c.isDigit = true) :
    (readDouble? (whole ++ (fraction ++ exponent))).isSome = true := by
  have hexponent : (Decimal.readExponent? exponent).isSome = true := by
    rcases he with rfl | ⟨mark, sign, digits, rfl, hm, hs, hne, hdigits⟩
    · rfl
    · exact readExponent?_isSome hm hs hne hdigits
  have hstop : ∀ c ∈ exponent.head?, c.isDigit = false ∧ c ≠ '.' := by
    rcases he with rfl | ⟨mark, sign, digits, rfl, hm, -⟩
    · simp
    · rintro c ⟨⟩
      rcases hm with rfl | rfl <;> decide
  have hstop' : ∀ c ∈ (fraction ++ exponent).head?, c.isDigit = false := by
    rcases hf with rfl | ⟨digits, rfl, -⟩
    · exact fun c hc => (hstop c hc).1
    · rintro c ⟨⟩
      decide
  have hdrop {text rest : List Char} (ht : ∀ c ∈ text, c.isDigit = true) (hr : ∀ c ∈ rest.head?, c.isDigit = false) :
      (text ++ rest).dropWhile Char.isDigit = rest := by
    have hsplit := List.takeWhile_append_dropWhile (p := Char.isDigit) (l := text ++ rest)
    rw [takeWhile_append_halt ht hr] at hsplit
    exact List.append_cancel_left hsplit
  have hvalue {digits : List Char} (h : ∀ c ∈ digits, c.isDigit = true) :=
    digitsValue?_eq 0 fun c hc => digitValue?_isSome_of_isDigit (h c hc)
  obtain ⟨n, hn⟩ := Option.isSome_iff_exists.1 hexponent
  have hread : (Decimal.read? (whole ++ (fraction ++ exponent))).isSome = true := by
    unfold Decimal.read?
    dsimp only
    rw [takeWhile_append_halt hw hstop', hdrop hw hstop']
    rcases hf with rfl | ⟨digits, rfl, hdigits⟩
    · rw [List.nil_append]
      split
      · exact absurd rfl (hstop '.' rfl).2
      · simp [hne, hvalue hw, hn]
    · have hexp : ∀ c ∈ exponent.head?, c.isDigit = false := fun c hc => (hstop c hc).1
      simp [takeWhile_append_halt hdigits hexp, hdrop hdigits hexp, hne,
        hvalue (List.forall_mem_append.2 ⟨hw, hdigits⟩), hn]
  obtain ⟨d, hd⟩ := Option.isSome_iff_exists.1 hread
  have hunsigned : (readUnsignedDouble? (whole ++ (fraction ++ exponent))).isSome = true := by
    simp [readUnsignedDouble?, hd]
  unfold readDouble?
  split
  · rename_i heq
    obtain ⟨c, tail, rfl⟩ := List.exists_cons_of_ne_nil hne
    obtain ⟨rfl, -⟩ := List.cons.inj heq
    exact absurd (hw _ List.mem_cons_self) (by decide)
  · rename_i heq
    obtain ⟨c, tail, rfl⟩ := List.exists_cons_of_ne_nil hne
    obtain ⟨rfl, -⟩ := List.cons.inj heq
    exact absurd (hw _ List.mem_cons_self) (by decide)
  · exact hunsigned

end

/-! ### Values -/

section
variable {n : NumberLit}

/-- The digits of an integer literal belong to its radix. -/
theorem Numeral.digits (h : Numeral n.kind n.text.toList) {radix : Nat} (hr : n.kind.radix? = some radix) :
    n.digits? = some (radix, if n.kind = .decimal then n.text.toList else n.text.toList.drop 2) ∧ n.digits ≠ [] ∧
      ∀ c ∈ n.digits, (digitValue? radix c).isSome = true := by
  obtain ⟨kind, text⟩ := n
  obtain ⟨cs, rfl⟩ : ∃ cs, text = String.ofList cs := ⟨text.toList, by simp⟩
  simp only [String.toList_ofList] at h hr
  unfold NumberLit.digits NumberLit.digits?
  simp only [String.toList_ofList]
  have hgroup {digits : List Char} {isDigit : Char → Bool} (hd : DigitGroup isDigit digits) (hs : isDigit '_' = false)
      (hin : ∀ c, isDigit c = true → (digitValue? radix c).isSome = true) :
      digits.filter (· ≠ '_') ≠ [] ∧ ∀ c ∈ digits.filter (· ≠ '_'), (digitValue? radix c).isSome = true :=
    ⟨(hd.withoutSeparators hs).1, fun c hc => hin c ((hd.withoutSeparators hs).2 c hc)⟩
  have hmark {mark : Char} {digits : List Char} (hm : mark.utf8Size = 1) :
      dropBytes? ('0' :: mark :: digits) 2 = some digits := by
    have hzero : '0'.utf8Size = 1 := rfl
    simp [dropBytes?, hzero, hm]
  cases h with
  | hex hm hd =>
    obtain rfl : 16 = radix := Option.some.inj hr
    exact ⟨by rw [hmark (by rcases hm with rfl | rfl <;> rfl)]; rfl, hgroup hd (by decide) fun _ => id⟩
  | octal hm hd =>
    obtain rfl : 8 = radix := Option.some.inj hr
    exact ⟨by rw [hmark (by rcases hm with rfl | rfl <;> rfl)]; rfl, hgroup hd (by decide) fun _ => id⟩
  | binary hm hd =>
    obtain rfl : 2 = radix := Option.some.inj hr
    exact ⟨by rw [hmark (by rcases hm with rfl | rfl <;> rfl)]; rfl, hgroup hd (by decide) fun _ => id⟩
  | decimal hd =>
    obtain rfl : 10 = radix := Option.some.inj hr
    exact ⟨rfl, hgroup hd (by decide) fun _ => digitValue?_isSome_of_isDigit⟩
  | float => cases hr
  | scientific => cases hr

/-- The integer value of a numeral is what its digits write, if that is below `2 ^ 64`. -/
theorem Numeral.intValue? (h : Numeral n.kind n.text.toList) {radix : Nat} (hr : n.kind.radix? = some radix) :
    n.intValue? = if n.positional radix < 2 ^ 64 then some (n.positional radix) else none := by
  obtain ⟨hdigits, hne, hvalues⟩ := h.digits hr
  unfold NumberLit.intValue?
  rw [hdigits]
  exact readNatBelow?_eq hne hvalues

theorem intValue?_eq_none (hr : n.kind.radix? = none) : n.intValue? = none := by
  obtain ⟨kind, text⟩ := n
  cases kind <;> first | rfl | cases hr

/-- A numeral in a decimal form has a floating value. -/
theorem Numeral.floatBits?_isSome (h : Numeral n.kind n.text.toList)
    (hk : n.kind = .decimal ∨ n.kind = .float ∨ n.kind = .scientific) : n.floatBits?.isSome = true := by
  obtain ⟨whole, fraction, exponent, htext, hw, hf, he, -⟩ := h.parts hk
  obtain ⟨hne, hdigits⟩ := hw.withoutSeparators (by decide)
  have hread := readDouble?_isSome hne hdigits hf.withoutSeparators he.withoutSeparators
  rw [← withoutSeparators_append, ← withoutSeparators_append, ← htext] at hread
  unfold NumberLit.floatBits?
  rcases hk with hk | hk | hk <;> rw [hk] <;> exact hread

end

/-- The number tokens of a source have the integer values that their digits write, as far as these fit into 64 bits,
and floating values, except where a hexadecimal, octal or binary number has no integer value. -/
theorem lex_numberValues (source : String) {t : Token} (ht : t ∈ (lex source).tokens) {n : NumberLit}
    (hk : t.kind = .number n) :
    (n.kind.radix? = none → n.intValue? = none) ∧
    (∀ radix, n.kind.radix? = some radix →
      n.intValue? = if n.positional radix < 2 ^ 64 then some (n.positional radix) else none) ∧
    (n.floatBits? = none ↔ (n.kind = .hex ∨ n.kind = .octal ∨ n.kind = .binary) ∧
      ∀ radix, n.kind.radix? = some radix → 2 ^ 64 ≤ n.positional radix) := by
  obtain ⟨c, cs, -, htoken⟩ := arrives_of_token ht (by simp [hk])
  rw [hk] at htoken
  rw [lexemeAt_digit (isDigit_of_number htoken)] at htoken
  obtain ⟨rest, -, hnumeral, -⟩ := numberAt_eq_some.1 htoken
  refine ⟨intValue?_eq_none, fun radix => hnumeral.intValue?, ?_⟩
  have hmarked {radix : Nat} (hform : n.kind = .hex ∨ n.kind = .octal ∨ n.kind = .binary)
      (hr : n.kind.radix? = some radix) : n.floatBits? = none ↔ 2 ^ 64 ≤ n.positional radix := by
    have hbits : n.floatBits? = n.intValue?.map fun v => Double.nearestBits v 1 := by
      unfold NumberLit.floatBits?
      rcases hform with hk | hk | hk <;> rw [hk]
    rw [hbits, hnumeral.intValue? hr, Option.map_eq_none_iff, ← Nat.not_lt]
    split <;> simp_all
  constructor
  · intro hnone
    have hform : n.kind = .hex ∨ n.kind = .octal ∨ n.kind = .binary := by
      by_contra hno
      have hsome := hnumeral.floatBits?_isSome (by cases hk : n.kind <;> simp_all)
      rw [hnone] at hsome
      cases hsome
    exact ⟨hform, fun radix hr => (hmarked hform hr).1 hnone⟩
  · rintro ⟨hform, hlarge⟩
    obtain ⟨radix, hr⟩ : ∃ radix, n.kind.radix? = some radix := by
      rcases hform with hk | hk | hk <;> rw [hk] <;> exact ⟨_, rfl⟩
    exact (hmarked hform hr).2 (hlarge radix hr)

/-- The largest value that fits, with a separator in it, and the next one. -/
theorem lex_numberValues_limit : ∃ t ∈ (lex "0xFFFF_ffffFFFFFFFF 0x10000000000000000").tokens,
    ∃ t' ∈ (lex "0xFFFF_ffffFFFFFFFF 0x10000000000000000").tokens, ∃ n n', t.kind = .number n ∧ t'.kind = .number n' ∧
      n.intValue? = some (2 ^ 64 - 1) ∧ n'.intValue? = none ∧ n'.floatBits? = none := by
  obtain ⟨t, ht, hk⟩ : ∃ t ∈ (lex "0xFFFF_ffffFFFFFFFF 0x10000000000000000").tokens,
      t.kind = .number ⟨.hex, "0xFFFF_ffffFFFFFFFF"⟩ := by decide +kernel
  obtain ⟨t', ht', hk'⟩ : ∃ t ∈ (lex "0xFFFF_ffffFFFFFFFF 0x10000000000000000").tokens,
      t.kind = .number ⟨.hex, "0x10000000000000000"⟩ := by decide +kernel
  obtain ⟨-, hint, -⟩ := lex_numberValues _ ht hk
  obtain ⟨-, hint', hfloat'⟩ := lex_numberValues _ ht' hk'
  refine ⟨t, ht, t', ht', _, _, hk, hk', (hint 16 rfl).trans ?_, (hint' 16 rfl).trans ?_, hfloat'.2 ⟨.inl rfl, ?_⟩⟩
  · decide +kernel
  · decide +kernel
  · rintro radix ⟨⟩
    decide +kernel

end ElleFrontEnd
