import ElleFrontEnd.Proofs.Arrival

/-!
# Numerals

`Numeral` is the grammar of number literals, form by form, and `EndsNumeral` says where a numeral ends: before a text
that would not prolong it.  A number token is lexed exactly where a numeral stands that ends there, and what begins with
a digit otherwise is refused as a whole (`lex_numerals`).  No text begins with two numerals that end there, so the
grammar says which token it is.
-/

namespace ElleFrontEnd

/-! ### The grammar -/

/-- Digits, with a single `_` between two of them or none. -/
inductive DigitGroup (isDigit : Char → Bool) : List Char → Prop
  | last {c : Char} (h : isDigit c = true) : DigitGroup isDigit [c]
  | digit {c : Char} {cs : List Char} (h : isDigit c = true) (more : DigitGroup isDigit cs) :
    DigitGroup isDigit (c :: cs)
  | separated {c : Char} {cs : List Char} (h : isDigit c = true) (more : DigitGroup isDigit cs) :
    DigitGroup isDigit (c :: '_' :: cs)

/-- The number literals of each form. -/
inductive Numeral : NumberKind → List Char → Prop
  | hex {mark : Char} {digits : List Char} (hm : mark = 'x' ∨ mark = 'X') (h : DigitGroup isHexDigit digits) :
    Numeral .hex ('0' :: mark :: digits)
  | octal {mark : Char} {digits : List Char} (hm : mark = 'o' ∨ mark = 'O') (h : DigitGroup isOctalDigit digits) :
    Numeral .octal ('0' :: mark :: digits)
  | binary {mark : Char} {digits : List Char} (hm : mark = 'b' ∨ mark = 'B') (h : DigitGroup isBinaryDigit digits) :
    Numeral .binary ('0' :: mark :: digits)
  | decimal {digits : List Char} (h : DigitGroup Char.isDigit digits) : Numeral .decimal digits
  | float {whole fraction : List Char} (hw : DigitGroup Char.isDigit whole) (hf : DigitGroup Char.isDigit fraction) :
    Numeral .float (whole ++ '.' :: fraction)
  /-- A decimal number or a float, and an exponent of ten. -/
  | scientific {kind : NumberKind} {mantissa sign exponent : List Char} {mark : Char}
    (hk : kind = .decimal ∨ kind = .float) (h : Numeral kind mantissa) (hm : mark = 'e' ∨ mark = 'E')
    (hs : sign = [] ∨ sign = ['+'] ∨ sign = ['-']) (he : DigitGroup Char.isDigit exponent) :
    Numeral .scientific (mantissa ++ mark :: (sign ++ exponent))

/-- Whether a numeral ends before a text: no letter, digit or `_` touches it, and no fraction follows a decimal
number. -/
structure EndsNumeral (kind : NumberKind) (rest : List Char) : Prop where
  loose : ∀ c ∈ rest.head?, isWordPart c = false
  noFraction : kind = .decimal → ∀ d ds, rest = '.' :: d :: ds → d.isDigit = false

/-! ### Groups of digits -/

section
variable {isDigit : Char → Bool} {cs rest : List Char}

namespace DigitGroup

theorem ne_nil (h : DigitGroup isDigit cs) : cs ≠ [] := by
  cases h <;> exact List.cons_ne_nil _ _

theorem mem (h : DigitGroup isDigit cs) : ∀ c ∈ cs, (isDigit c || c = '_') = true := by
  induction h with
  | last hc => simpa using .inl hc
  | digit hc _ ih => exact List.forall_mem_cons.2 ⟨by simp [hc], ih⟩
  | separated hc _ ih => exact List.forall_mem_cons.2 ⟨by simp [hc], List.forall_mem_cons.2 ⟨by simp, ih⟩⟩

theorem head (h : DigitGroup isDigit cs) : ∃ c tail, cs = c :: tail ∧ isDigit c = true := by
  cases h with
  | last hc => exact ⟨_, _, rfl, hc⟩
  | digit hc _ => exact ⟨_, _, rfl, hc⟩
  | separated hc _ => exact ⟨_, _, rfl, hc⟩

/-- A group is the run of digits at the head of a text, if the run ends behind it. -/
theorem digitRun (h : DigitGroup isDigit cs) (hr : EndsRun isDigit rest) :
    ElleFrontEnd.digitRun isDigit (cs ++ rest) = cs := takeWhile_append_halt h.mem hr

end DigitGroup

theorem digitGroup_of_isDigitGroup (h : isDigitGroup isDigit cs = true) : DigitGroup isDigit cs := by
  fun_induction isDigitGroup isDigit cs with
  | case1 => cases h
  | case2 c => exact .last h
  | case3 c cs ih =>
    obtain ⟨hc, hcs⟩ := Bool.and_eq_true_iff.1 h
    exact .separated hc (ih hcs)
  | case4 c cs _ _ ih =>
    obtain ⟨hc, hcs⟩ := Bool.and_eq_true_iff.1 h
    exact .digit hc (ih hcs)

theorem isDigitGroup_iff (hd : isDigit '_' = false) : isDigitGroup isDigit cs = true ↔ DigitGroup isDigit cs := by
  refine ⟨digitGroup_of_isDigitGroup, fun h => ?_⟩
  induction h with
  | last hc => exact hc
  | @digit c cs hc more ih =>
    obtain ⟨d, tail, rfl, hdigit⟩ := more.head
    have hne : d ≠ '_' := by
      rintro rfl
      rw [hd] at hdigit
      cases hdigit
    unfold isDigitGroup
    split <;> simp_all
  | separated hc _ ih => simp [isDigitGroup, hc, ih]

end

/-! ### The parts of a number -/

section
variable {cs rest run : List Char} {part : NumberPart}

theorem fractionPart?_none_iff : fractionPart? cs = none ↔ ∀ d ds, cs = '.' :: d :: ds → d.isDigit = false := by
  unfold fractionPart?
  split
  · simp
  · rename_i hno
    exact ⟨fun _ d ds h => absurd h (hno d ds), fun _ => rfl⟩

theorem fractionPart?_eq_some (h : fractionPart? cs = some part) (hv : part.valid = true) : ∃ run rest,
    cs = '.' :: (run ++ rest) ∧ part.length = run.length + 1 ∧ DigitGroup Char.isDigit run := by
  unfold fractionPart? at h
  split at h
  · rename_i c cs
    split at h
    · obtain rfl := Option.some.inj h
      obtain ⟨rest, hcs, -⟩ := digitRun_reads Char.isDigit (c :: cs)
      exact ⟨_, rest, by rw [← hcs], rfl, digitGroup_of_isDigitGroup hv⟩
    · cases h
  · cases h

theorem fractionPart?_group (h : DigitGroup Char.isDigit run) (hr : EndsRun Char.isDigit rest) :
    fractionPart? ('.' :: (run ++ rest)) = some ⟨run.length + 1, true⟩ := by
  obtain ⟨c, tail, rfl, hc⟩ := h.head
  have hrun := h.digitRun hr
  rw [List.cons_append] at hrun ⊢
  simp only [fractionPart?, hc, if_true, hrun, (isDigitGroup_iff (by decide)).2 h]

theorem exponentPart?_eq_some (h : exponentPart? cs = some part) (hv : part.valid = true) : ∃ mark sign run rest,
    cs = mark :: (sign ++ (run ++ rest)) ∧ (mark = 'e' ∨ mark = 'E') ∧ (sign = [] ∨ sign = ['+'] ∨ sign = ['-']) ∧
      part.length = run.length + sign.length + 1 ∧ DigitGroup Char.isDigit run := by
  have hsign (cs : List Char) : ∃ sign rest, cs = sign ++ rest ∧ signLength cs = sign.length ∧
      (sign = [] ∨ sign = ['+'] ∨ sign = ['-']) := by
    unfold signLength
    split
    · exact ⟨['+'], _, rfl, rfl, by simp⟩
    · exact ⟨['-'], _, rfl, rfl, by simp⟩
    · exact ⟨[], _, rfl, rfl, by simp⟩
  cases cs with
  | nil => simp [exponentPart?] at h
  | cons mark cs =>
    rw [exponentPart?_cons] at h
    split at h
    · rename_i hmark
      obtain rfl := Option.some.inj h
      obtain ⟨sign, digits, rfl, hlength, hs⟩ := hsign cs
      rw [hlength, List.drop_left] at hv ⊢
      obtain ⟨rest, hdigits, -⟩ := digitRun_reads Char.isDigit digits
      exact ⟨mark, sign, _, rest, by rw [← hdigits], by simpa using hmark, hs, rfl, digitGroup_of_isDigitGroup hv⟩
    · cases h

theorem exponentPart?_group {mark : Char} {sign : List Char} (hm : mark = 'e' ∨ mark = 'E')
    (hs : sign = [] ∨ sign = ['+'] ∨ sign = ['-']) (h : DigitGroup Char.isDigit run)
    (hr : EndsRun Char.isDigit rest) :
    exponentPart? (mark :: (sign ++ (run ++ rest))) = some ⟨run.length + sign.length + 1, true⟩ := by
  have hsign : signLength (sign ++ (run ++ rest)) = sign.length := by
    obtain ⟨c, tail, rfl, hc⟩ := h.head
    rcases hs with rfl | rfl | rfl
    · unfold signLength
      split
      · rename_i heq
        obtain ⟨rfl, -⟩ := List.cons.inj heq
        cases hc
      · rename_i heq
        obtain ⟨rfl, -⟩ := List.cons.inj heq
        cases hc
      · rfl
    · rfl
    · rfl
  rw [exponentPart?_cons, if_pos (by simpa using hm), hsign, List.drop_left, h.digitRun hr,
    (isDigitGroup_iff (by decide)).2 h]

theorem exponentPart?_eq_none (h : ∀ c ∈ cs.head?, isWordPart c = false) : exponentPart? cs = none := by
  cases cs with
  | nil => rfl
  | cons c cs =>
    have hc := h c rfl
    rw [exponentPart?_cons, if_neg]
    intro he
    have : c = 'e' ∨ c = 'E' := by simpa using he
    rcases this with rfl | rfl <;> exact absurd hc (by decide)

end

/-! ### Numbers in the decimal forms -/

/-- A fraction or nothing. -/
def IsFraction (text : List Char) : Prop := text = [] ∨ ∃ run, text = '.' :: run ∧ DigitGroup Char.isDigit run

/-- An exponent of ten or nothing. -/
def IsExponent (text : List Char) : Prop :=
  text = [] ∨ ∃ mark sign run, text = mark :: (sign ++ run) ∧ (mark = 'e' ∨ mark = 'E') ∧
    (sign = [] ∨ sign = ['+'] ∨ sign = ['-']) ∧ DigitGroup Char.isDigit run

/-- The form of a number with a fraction and an exponent. -/
def formOf (fraction exponent : List Char) : NumberKind :=
  if exponent ≠ [] then .scientific else if fraction ≠ [] then .float else .decimal

section
variable {kind : NumberKind} {text fraction exponent rest : List Char}

/-- A numeral without a radix mark has digits, and then a fraction and an exponent or none. -/
theorem Numeral.parts (h : Numeral kind text) (hk : kind = .decimal ∨ kind = .float ∨ kind = .scientific) :
    ∃ whole fraction exponent, text = whole ++ (fraction ++ exponent) ∧ DigitGroup Char.isDigit whole ∧
      IsFraction fraction ∧ IsExponent exponent ∧ kind = formOf fraction exponent := by
  have hmantissa {kind : NumberKind} {text : List Char} (h : Numeral kind text) (hk : kind = .decimal ∨ kind = .float) :
      ∃ whole fraction, text = whole ++ fraction ∧ DigitGroup Char.isDigit whole ∧ IsFraction fraction ∧
        kind = formOf fraction [] := by
    cases h with
    | decimal h => exact ⟨text, [], (List.append_nil _).symm, h, .inl rfl, rfl⟩
    | float hw hf => exact ⟨_, _, rfl, hw, .inr ⟨_, rfl, hf⟩, rfl⟩
    | _ => simp at hk
  cases h with
  | scientific hk' h hm hs he =>
    obtain ⟨whole, fraction, rfl, hw, hf, -⟩ := hmantissa h hk'
    exact ⟨whole, fraction, _, by rw [List.append_assoc], hw, hf, .inr ⟨_, _, _, rfl, hm, hs, he⟩, rfl⟩
  | decimal h =>
    obtain ⟨whole, fraction, htext, hw, hf, hform⟩ := hmantissa (.decimal h) (.inl rfl)
    exact ⟨whole, fraction, [], by rw [htext, List.append_nil], hw, hf, .inl rfl, hform⟩
  | float hw hf =>
    obtain ⟨whole, fraction, htext, hw, hf, hform⟩ := hmantissa (.float hw hf) (.inr rfl)
    exact ⟨whole, fraction, [], by rw [htext, List.append_nil], hw, hf, .inl rfl, hform⟩
  | _ => simp at hk

theorem numeral_of_parts {whole : List Char} (hw : DigitGroup Char.isDigit whole) (hf : IsFraction fraction)
    (he : IsExponent exponent) : Numeral (formOf fraction exponent) (whole ++ (fraction ++ exponent)) := by
  have hmantissa : ∃ kind, (kind = .decimal ∨ kind = .float) ∧ Numeral kind (whole ++ fraction) ∧
      kind = formOf fraction [] := by
    rcases hf with rfl | ⟨run, rfl, hrun⟩
    · exact ⟨.decimal, .inl rfl, by simpa using .decimal hw, rfl⟩
    · exact ⟨.float, .inr rfl, .float hw hrun, rfl⟩
  obtain ⟨kind, hk, h, rfl⟩ := hmantissa
  rcases he with rfl | ⟨mark, sign, run, rfl, hm, hs, hrun⟩
  · simpa using h
  · rw [← List.append_assoc]
    exact .scientific hk h hm hs hrun

/-- Nothing that a run of digits could go on with stands where a fraction or an exponent begins, or behind them. -/
theorem endsRun_exponent (he : IsExponent exponent) (hr : ∀ c ∈ rest.head?, isWordPart c = false) :
    EndsRun Char.isDigit (exponent ++ rest) := by
  rcases he with h | ⟨mark, sign, run, rfl, hm, -, -⟩
  · rw [h]
    exact endsRun_of_wordPart (fun _ => isWordPart_of_digit) hr
  · rintro c ⟨⟩
    rcases hm with rfl | rfl <;> decide

theorem endsRun_fraction (hf : IsFraction fraction) (he : IsExponent exponent)
    (hr : ∀ c ∈ rest.head?, isWordPart c = false) : EndsRun Char.isDigit (fraction ++ (exponent ++ rest)) := by
  rcases hf with h | ⟨run, rfl, -⟩
  · rw [h, List.nil_append]
    exact endsRun_exponent he hr
  · rintro c ⟨⟩
    decide

/-- A numeral without a radix mark is read as one. -/
theorem decimalShape_of_parts {c : Char} {whole : List Char} (hw : DigitGroup Char.isDigit (c :: whole))
    (hf : IsFraction fraction) (he : IsExponent exponent) (hr : EndsNumeral (formOf fraction exponent) rest) :
    decimalShape c (whole ++ (fraction ++ (exponent ++ rest))) =
      (formOf fraction exponent, ⟨whole.length + fraction.length + exponent.length + 1, true⟩) := by
  have hrun : digitRun Char.isDigit (whole ++ (fraction ++ (exponent ++ rest))) = whole :=
    takeWhile_append_halt (List.forall_mem_cons.1 hw.mem).2 (endsRun_fraction hf he hr.loose)
  have hfraction : fractionPart? (fraction ++ (exponent ++ rest)) =
      if fraction = [] then none else some ⟨fraction.length, true⟩ := by
    rcases hf with rfl | ⟨run, rfl, hgroup⟩
    · rw [if_pos rfl, List.nil_append]
      rcases he with rfl | ⟨mark, sign, run, rfl, hm, -, -⟩
      · exact fractionPart?_none_iff.2 (hr.noFraction rfl)
      · rcases hm with rfl | rfl <;> rfl
    · rw [if_neg (List.cons_ne_nil _ _), List.cons_append]
      exact fractionPart?_group hgroup (endsRun_exponent he hr.loose)
  have hexponent : exponentPart? (exponent ++ rest) =
      if exponent = [] then none else some ⟨exponent.length, true⟩ := by
    rcases he with rfl | ⟨mark, sign, run, rfl, hm, hs, hrun⟩
    · exact exponentPart?_eq_none hr.loose
    · rw [if_neg (List.cons_ne_nil _ _), List.cons_append, List.append_assoc,
        exponentPart?_group hm hs hrun (endsRun_of_wordPart (fun _ => isWordPart_of_digit) hr.loose)]
      simp only [List.length_cons, List.length_append, Nat.add_comm run.length]
  rw [decimalShape_eq hrun (by rw [hfraction]; split <;> simp_all), hfraction, hexponent]
  unfold partsShape formOf
  rw [(isDigitGroup_iff (by decide)).2 hw]
  by_cases hx : exponent = [] <;> by_cases hy : fraction = [] <;> simp [hx, hy]

/-- What is read without a radix mark is a numeral. -/
theorem numeral_of_decimalShape {c : Char} {cs : List Char} (hv : (decimalShape c cs).2.valid = true) :
    ∃ text rest, cs = text ++ rest ∧ (decimalShape c cs).2.length = text.length + 1 ∧
      Numeral (decimalShape c cs).1 (c :: text) ∧ ((decimalShape c cs).1 = .decimal → fractionPart? rest = none) := by
  obtain ⟨rest₁, hcs, -⟩ := digitRun_reads Char.isDigit cs
  generalize hw : digitRun Char.isDigit cs = whole at hcs
  subst hcs
  have hvalid := hv
  simp only [decimalShape, partsShape, hw, Bool.and_eq_true, List.drop_left] at hvalid
  have hwhole := digitGroup_of_isDigitGroup hvalid.1.1
  -- the fraction, and then the exponent, is there or not
  obtain ⟨fraction, rest₂, rfl, hlength, hf, hsome, hnone⟩ : ∃ fraction rest, rest₁ = fraction ++ rest ∧
      ((fractionPart? rest₁).map NumberPart.length).getD 0 = fraction.length ∧ IsFraction fraction ∧
        ((fractionPart? rest₁).isSome = true ↔ fraction ≠ []) ∧ (fraction = [] → fractionPart? rest = none) := by
    cases hpart : fractionPart? rest₁ with
    | none => exact ⟨[], rest₁, rfl, rfl, .inl rfl, by simp, fun _ => hpart⟩
    | some part =>
      have hpv : part.valid = true := by simpa [hpart] using hvalid.1.2
      obtain ⟨run, rest, rfl, hl, hrun⟩ := fractionPart?_eq_some hpart hpv
      exact ⟨'.' :: run, rest, rfl, hl, .inr ⟨run, rfl, hrun⟩, by simp, fun h => absurd h (List.cons_ne_nil _ _)⟩
  rw [decimalShape_eq hw hlength] at hv ⊢
  simp only [partsShape, Bool.and_eq_true] at hv
  obtain ⟨exponent, rest₃, rfl, hlength', he, hsome', hkept⟩ : ∃ exponent rest, rest₂ = exponent ++ rest ∧
      ((exponentPart? rest₂).map NumberPart.length).getD 0 = exponent.length ∧ IsExponent exponent ∧
        ((exponentPart? rest₂).isSome = true ↔ exponent ≠ []) ∧ (exponent = [] → rest = rest₂) := by
    cases hpart : exponentPart? rest₂ with
    | none => exact ⟨[], rest₂, rfl, rfl, .inl rfl, by simp, fun _ => rfl⟩
    | some part =>
      have hpv : part.valid = true := by simpa [hpart] using hv.2
      obtain ⟨mark, sign, run, rest, rfl, hm, hs, hl, hrun⟩ := exponentPart?_eq_some hpart hpv
      refine ⟨mark :: (sign ++ run), rest, by simp, ?_, .inr ⟨mark, sign, run, rfl, hm, hs, hrun⟩, by simp,
        fun h => absurd h (List.cons_ne_nil _ _)⟩
      simp only [Option.map_some, Option.getD_some, hl, List.length_cons, List.length_append]
      omega
  have hform : (partsShape c whole (fractionPart? (fraction ++ (exponent ++ rest₃)))
      (exponentPart? (exponent ++ rest₃))).1 = formOf fraction exponent := by
    simp only [partsShape, formOf, hsome, hsome']
  refine ⟨whole ++ (fraction ++ exponent), rest₃, by simp, ?_, ?_, fun hk => ?_⟩
  · simp only [partsShape, hlength, hlength', List.length_append]
    omega
  · rw [hform]
    exact numeral_of_parts hwhole hf he
  · rw [hform, formOf] at hk
    split_ifs at hk with hx hy
    rw [hkept (not_not.1 hx)]
    exact hnone (not_not.1 hy)

end

/-! ### Numbers -/

section
variable {kind : NumberKind} {text rest cs : List Char} {c : Char}

theorem Numeral.of_radix {mark : Char} {isDigit : Char → Bool} {digits : List Char}
    (hm : radixOf? mark = some (kind, isDigit)) (h : DigitGroup isDigit digits) :
    Numeral kind ('0' :: mark :: digits) := by
  unfold radixOf? at hm
  split at hm <;> simp only [Option.some.injEq, Prod.mk.injEq, reduceCtorEq] at hm <;> obtain ⟨rfl, rfl⟩ := hm
  · exact .hex (.inl rfl) h
  · exact .hex (.inr rfl) h
  · exact .octal (.inl rfl) h
  · exact .octal (.inr rfl) h
  · exact .binary (.inl rfl) h
  · exact .binary (.inr rfl) h

/-- A numeral has a radix mark, or is of a decimal form. -/
theorem Numeral.forms (h : Numeral kind text) :
    (∃ mark isDigit digits, radixOf? mark = some (kind, isDigit) ∧ isDigit '_' = false ∧ DigitGroup isDigit digits ∧
      text = '0' :: mark :: digits) ∨ kind = .decimal ∨ kind = .float ∨ kind = .scientific := by
  have hmarked {mark lower upper : Char} {isDigit : Char → Bool} {digits : List Char} (hm : mark = lower ∨ mark = upper)
      (hl : radixOf? lower = some (kind, isDigit)) (hu : radixOf? upper = some (kind, isDigit))
      (hd : isDigit '_' = false) (h : DigitGroup isDigit digits) : ∃ mark' isDigit' digits',
        radixOf? mark' = some (kind, isDigit') ∧ isDigit' '_' = false ∧ DigitGroup isDigit' digits' ∧
          '0' :: mark :: digits = '0' :: mark' :: digits' := by
    rcases hm with rfl | rfl
    · exact ⟨_, _, _, hl, hd, h, rfl⟩
    · exact ⟨_, _, _, hu, hd, h, rfl⟩
  cases h with
  | hex hm h => exact .inl (hmarked hm rfl rfl (by decide) h)
  | octal hm h => exact .inl (hmarked hm rfl rfl (by decide) h)
  | binary hm h => exact .inl (hmarked hm rfl rfl (by decide) h)
  | decimal _ => exact .inr (.inl rfl)
  | float _ _ => exact .inr (.inr (.inl rfl))
  | scientific _ _ _ _ _ => exact .inr (.inr (.inr rfl))

/-- A numeral that ends there is read as one. -/
theorem numberShape_of_numeral (h : Numeral kind (c :: text)) (hr : EndsNumeral kind rest) :
    numberShape c (text ++ rest) = (kind, ⟨text.length + 1, true⟩) := by
  rcases h.forms with ⟨mark, isDigit, digits, hm, hd, hdigits, heq⟩ | hk
  · obtain ⟨rfl, rfl⟩ := List.cons.inj heq
    have hrun := hdigits.digitRun (endsRun_of_wordPart (isWordPart_of_radixOf? hm).2 hr.loose)
    rw [List.cons_append, numberShape_radix _ hm, hrun, (isDigitGroup_iff hd).2 hdigits]
    rfl
  · obtain ⟨whole, fraction, exponent, htext, hw, hf, he, rfl⟩ := h.parts hk
    obtain ⟨d, whole, rfl, -⟩ := hw.head
    rw [List.cons_append] at htext
    obtain ⟨rfl, rfl⟩ := List.cons.inj htext
    rw [numberShape_decimal, List.append_assoc, List.append_assoc, decimalShape_of_parts hw hf he hr]
    · simp only [List.length_append, Nat.add_assoc]
    · -- no radix mark stands in a number of a decimal form, or right behind it
      intro _ m hm
      have hmark : (m.isDigit || m = '_') = true ∨ m = '.' ∨ m = 'e' ∨ m = 'E' ∨ isWordPart m = false := by
        cases whole with
        | cons d whole => exact .inl (Option.some.inj hm ▸ hw.mem d (by simp))
        | nil =>
          rcases hf with rfl | ⟨run, rfl, -⟩
          · rcases he with rfl | ⟨mark, sign, run, rfl, hmark, -, -⟩
            · exact .inr (.inr (.inr (.inr (hr.loose m hm))))
            · obtain rfl : mark = m := Option.some.inj hm
              exact .inr (.inr (hmark.imp_right .inl))
          · exact .inr (.inl (Option.some.inj hm).symm)
      rw [Option.eq_none_iff_forall_ne_some]
      rintro ⟨kind, isDigit⟩ hradix
      unfold radixOf? at hradix
      split at hradix <;> first | (cases hradix; done) | (revert hmark; decide)

/-- What is read as a number is a numeral. -/
theorem numeral_of_numberShape (hv : (numberShape c cs).2.valid = true) :
    ∃ text rest, cs = text ++ rest ∧ (numberShape c cs).2.length = text.length + 1 ∧
      Numeral (numberShape c cs).1 (c :: text) ∧ ((numberShape c cs).1 = .decimal → fractionPart? rest = none) := by
  by_cases hradix : c = '0' ∧ ∃ mark digits form, cs = mark :: digits ∧ radixOf? mark = some form
  · obtain ⟨rfl, mark, digits, ⟨kind, isDigit⟩, rfl, hmark⟩ := hradix
    rw [numberShape_radix digits hmark] at hv ⊢
    obtain ⟨rest, hdigits, -⟩ := digitRun_reads isDigit digits
    refine ⟨mark :: digitRun isDigit digits, rest, by rw [List.cons_append, ← hdigits], rfl,
      .of_radix hmark (digitGroup_of_isDigitGroup hv), ?_⟩
    rintro rfl
    unfold radixOf? at hmark
    split at hmark <;> cases hmark
  · have hdecimal : c = '0' → ∀ m ∈ cs.head?, radixOf? m = none := by
      intro hc m hm
      rw [Option.eq_none_iff_forall_ne_some]
      intro form hform
      obtain ⟨ds, rfl⟩ := List.head?_eq_some_iff.1 hm
      exact hradix ⟨hc, m, ds, form, rfl, hform⟩
    rw [numberShape_decimal hdecimal] at hv ⊢
    exact numeral_of_decimalShape hv

/-- A number is read exactly where a numeral stands that ends there. -/
theorem numberAt_eq_some {literal : NumberLit} : (numberAt c cs).token = some (.number literal) ↔
    ∃ rest, c :: cs = literal.text.toList ++ rest ∧ Numeral literal.kind literal.text.toList ∧
      EndsNumeral literal.kind rest := by
  constructor
  · intro h
    by_cases hv : (numberShape c cs).2.valid = true
    · obtain ⟨text, rest, rfl, hlength, hnumeral, hfraction⟩ := numeral_of_numberShape hv
      unfold numberAt at h
      simp only [hv, hlength, Nat.add_sub_cancel, List.drop_left, Bool.true_and] at h
      split at h
      · rename_i hglued
        have hempty : rest.takeWhile isWordPart = [] := List.isEmpty_iff.1 hglued
        obtain rfl : _ = literal := by simpa [Lexeme.ofToken, hempty] using h
        refine ⟨rest, by simp, by simpa using hnumeral, fun d hd => ?_, fun hk => fractionPart?_none_iff.1 (hfraction hk)⟩
        obtain ⟨ds, rfl⟩ := List.head?_eq_some_iff.1 hd
        by_contra hd'
        simp [hd'] at hempty
      · cases h
    · simp [numberAt, hv, Lexeme.refused] at h
  · rintro ⟨rest, hcs, hnumeral, hends⟩
    obtain ⟨kind, string⟩ := literal
    obtain ⟨text, rfl⟩ : ∃ text, string = String.ofList text := ⟨string.toList, by simp⟩
    simp only [String.toList_ofList] at hcs hnumeral hends
    cases text with
    | nil =>
      rcases hnumeral.forms with ⟨_, _, _, _, _, _, heq⟩ | hk
      · cases heq
      · obtain ⟨whole, _, _, heq, hw, _⟩ := hnumeral.parts hk
        exact absurd (List.append_eq_nil_iff.1 heq.symm).1 hw.ne_nil
    | cons d text =>
      rw [List.cons_append] at hcs
      obtain ⟨rfl, rfl⟩ := List.cons.inj hcs
      have hempty : rest.takeWhile isWordPart = [] := takeWhile_append_halt (List.forall_mem_nil _) hends.loose
      simp [numberAt, numberShape_of_numeral hnumeral hends, hempty, Lexeme.ofToken]

/-- What begins with a digit and is no number is refused as a whole. -/
theorem numberAt_refused (h : (numberAt c cs).token = none) :
    ∃ more text, numberAt c cs = .refused more (.malformedNumber text) := by
  unfold numberAt at h ⊢
  dsimp only at h ⊢
  split at h
  · cases h
  · rename_i hno
    rw [if_neg hno]
    exact ⟨_, _, rfl⟩

/-- A numeral begins with a digit. -/
theorem Numeral.head (h : Numeral kind text) : ∃ c tail, text = c :: tail ∧ c.isDigit = true := by
  rcases h.forms with ⟨mark, isDigit, digits, -, -, -, rfl⟩ | hk
  · exact ⟨_, _, rfl, rfl⟩
  · obtain ⟨whole, fraction, exponent, rfl, hw, -⟩ := h.parts hk
    obtain ⟨c, tail, rfl, hc⟩ := hw.head
    exact ⟨c, _, rfl, hc⟩

end

/-! ### Numbers in a source -/

theorem lexemeAt_digit {c : Char} (hc : c.isDigit = true) (cs : List Char) : lexemeAt c cs = numberAt c cs := by
  have hne {d : Char} (hd : d.isDigit = false) : c ≠ d := by
    rintro rfl
    rw [hd] at hc
    cases hc
  rw [lexemeAt_eq (isBlank_of_isWordPart (isWordPart_of_digit hc)) (hne (by decide)), readerFrom,
    if_neg (hne (by decide)), if_neg (hne (by decide)), if_neg (hne (by decide)), if_neg (hne (by decide)), if_pos hc]

/-- A number token is read from a text that begins with a digit. -/
theorem isDigit_of_number {c : Char} {cs : List Char} {literal : NumberLit}
    (h : (lexemeAt c cs).token = some (.number literal)) : c.isDigit = true := by
  rw [lexemeAt_of_token h] at h
  unfold readerFrom at h
  split_ifs at h with h₁ h₂ h₃ h₄ hd hw
  · cases isSymbol_of_slashAt h
  · obtain ⟨parts, hk⟩ := str_of_stringAt h
    cases hk
  · obtain ⟨part, hk⟩ := char_of_charAt h
    cases hk
  · obtain ⟨raw, hk⟩ := rawName_of_rawNameAt h
    cases hk
  · exact hd
  · have hk : wordKind _ = .number literal := Option.some.inj h
    unfold wordKind at hk
    split at hk <;> cases hk
  · cases isSymbol_of_symbolAt h

/-- The number tokens of a source are the numerals that lexing comes to and that end there, and what it comes to that
begins with a digit, but with no numeral that ends there, yields no token and a single diagnostic. -/
theorem lex_numerals (source : String) :
    (∀ p literal, (∃ t ∈ (lex source).tokens, t.span.start = p ∧ t.kind = .number literal) ↔
      ∃ rest, Arrives source.toList p (literal.text.toList ++ rest) ∧ Numeral literal.kind literal.text.toList ∧
        EndsNumeral literal.kind rest) ∧
    ∀ p c cs, Arrives source.toList p (c :: cs) → c.isDigit = true →
      (∀ kind text rest, c :: cs = text ++ rest → Numeral kind text → ¬ EndsNumeral kind rest) →
        (∀ t ∈ (lex source).tokens, t.span.start ≠ p) ∧
          ∃ d, (lex source).errors.filter (fun d => d.span.start = p) = [d] ∧ d.cause.kind = .invalidNumber := by
  refine ⟨fun p literal => ⟨?_, ?_⟩, fun p c cs ha hc hno => ?_⟩
  · rintro ⟨t, ht, rfl, hk⟩
    obtain ⟨c, cs, ha, htoken⟩ := arrives_of_token ht (by simp [hk])
    rw [hk] at htoken
    have hc := isDigit_of_number htoken
    rw [lexemeAt_digit hc] at htoken
    obtain ⟨rest, hcs, hnumeral, hends⟩ := numberAt_eq_some.1 htoken
    exact ⟨rest, hcs ▸ ha, hnumeral, hends⟩
  · rintro ⟨rest, ha, hnumeral, hends⟩
    obtain ⟨c, tail, htext, hc⟩ := hnumeral.head
    have htoken : (lexemeAt c (tail ++ rest)).token = some (.number literal) := by
      rw [lexemeAt_digit hc]
      exact numberAt_eq_some.2 ⟨rest, by rw [htext, List.cons_append], hnumeral, hends⟩
    rw [htext, List.cons_append] at ha
    obtain ⟨place, cut, -, rfl, htokens, -⟩ := lex_of_arrives ha
    rw [Cut.tokenAt, htoken] at htokens
    obtain ⟨t, hfilter, hk⟩ : ∃ t, (lex source).tokens.filter (fun t => t.span.start = p) = [t] ∧
        t.kind = .number literal := ⟨_, htokens, rfl⟩
    have ht : t ∈ (lex source).tokens.filter fun t => t.span.start = p := by simp [hfilter]
    exact ⟨t, (List.mem_filter.1 ht).1, of_decide_eq_true (List.mem_filter.1 ht).2, hk⟩
  · have hnone : (numberAt c cs).token = none := by
      rw [Option.eq_none_iff_forall_ne_some]
      intro k hk
      obtain ⟨literal, rfl⟩ := number_of_numberAt hk
      obtain ⟨rest, hcs, hnumeral, hends⟩ := numberAt_eq_some.1 hk
      exact hno _ _ rest hcs hnumeral hends
    obtain ⟨more, text, hrefused⟩ := numberAt_refused hnone
    obtain ⟨place, cut, rfl, rfl, htokens, herrors⟩ := lex_of_arrives ha
    rw [lexemeAt_digit hc, hrefused] at htokens herrors
    refine ⟨fun t ht hp => ?_, ?_⟩
    · have hmem : t ∈ (lex source).tokens.filter fun t => t.span.start = place.offset :=
        List.mem_filter.2 ⟨ht, decide_eq_true hp⟩
      rw [htokens] at hmem
      cases hmem
    · have hstart (taken : List Char) : (spanWithin place taken 0 (more + 1)).start = place.offset := rfl
      refine ⟨_, herrors.trans (List.filter_eq_self.2 ?_), rfl⟩
      exact List.forall_mem_singleton.2 (decide_eq_true (hstart _))

end ElleFrontEnd
