import ElleFrontEnd.Format
import Mathlib.Data.List.Chain

/-!
# Listings of differences

A listing of differences names a line by its number and says what is taken out and what is put in.  It can be read back
from its text (`listing_injective`), so that what was put in can be told from what was there (`lineAt_eq_of_listing`): up
to empty lines, which count as lines that are not there.  The lines of a text in which each line is ended, and the last
is not empty, leave nothing of it out (`eq_of_lineAt`).
-/

namespace ElleFrontEnd

/-- Line number `i` of a text with the given lines, the first of which is number 0; lines behind the last are empty. -/
def lineAt (lines : List String) (i : Nat) : String := lines.getD i ""

/-- An entry of a listing: the number of a line, and what is put in there or taken out. -/
structure DiffLine where
  added : Bool
  number : Nat
  text : String
deriving DecidableEq

namespace DiffLine

/-- The sign in front of an entry. -/
def sign (l : DiffLine) : String := if l.added then "+" else "-"

/-- An entry as it is listed. -/
def render (l : DiffLine) : String := s!"{l.sign}{lineNumber l.number} | {l.text}\n"

/-- Entries are listed by their numbers, and what is taken out before what is put in. -/
def Before (a b : DiffLine) : Prop := a.number < b.number ∨ a.number = b.number ∧ a.added = false ∧ b.added = true

end DiffLine

/-- The entries that tell the lines of one text from those of another: in order, each line on which they differ, but for
empty ones. -/
structure IsListing (olds news : List String) (entries : List DiffLine) : Prop where
  sorted : entries.Pairwise DiffLine.Before
  mem : ∀ l, l ∈ entries ↔ ∃ i, l.number = i + 1 ∧ l.text ≠ "" ∧ lineAt olds i ≠ lineAt news i ∧
    l.text = lineAt (if l.added then news else olds) i

/-- The entries for line number `n`: the old line is taken out and the new one put in, where they differ and are not
empty. -/
def lineChanges (n : Nat) (old new : String) : List DiffLine :=
  if old = new then [] else [⟨false, n, old⟩, ⟨true, n, new⟩].filter fun l => l.text ≠ ""

/-- The entries for all lines, the first of which has number `n`. -/
def listing (n : Nat) (olds news : List String) : List DiffLine :=
  (List.range (max olds.length news.length)).flatMap fun i => lineChanges (n + i) (lineAt olds i) (lineAt news i)

/-! ### The lines of a text -/

/-- No carriage return of a text stands before a line feed. -/
def LoneReturns (text : List Char) : Prop := text.IsChain fun a b => a = '\r' → b ≠ '\n'

theorem lineAt_of_le {lines : List String} {i : Nat} (h : lines.length ≤ i) : lineAt lines i = "" := by
  simp [lineAt, h]

section
variable {current cs : List Char}

theorem mem_of_mem_dropReturn {line : List Char} {c : Char} (h : c ∈ dropReturn line) : c ∈ line := by
  unfold dropReturn at h
  split at h
  · rename_i front hline
    rw [← List.mem_reverse, hline]
    exact List.mem_cons_of_mem _ (List.mem_reverse.1 h)
  · exact h

/-- Lines hold no line feed. -/
theorem newline_notMem_linesFrom (hcurrent : '\n' ∉ current) : ∀ line ∈ linesFrom current cs, '\n' ∉ line.toList := by
  induction cs generalizing current with
  | nil =>
    unfold linesFrom
    split
    · simp
    · simpa using hcurrent
  | cons c cs ih =>
    unfold linesFrom
    split
    · refine List.forall_mem_cons.2 ⟨fun h => hcurrent ?_, ih (by simp)⟩
      rw [String.toList_ofList] at h
      exact List.mem_reverse.1 (mem_of_mem_dropReturn h)
    · rename_i hc
      exact ih (by simp [hcurrent, Ne.symm hc])

theorem newline_notMem_lineAt (text : String) (i : Nat) : '\n' ∉ (lineAt (textLines text) i).toList := by
  unfold lineAt
  rw [List.getD_eq_getElem?_getD]
  cases h : (textLines text)[i]? with
  | none => simp
  | some line => exact newline_notMem_linesFrom (by simp) line (List.mem_of_getElem? h)

/-- A text whose lines are all ended by a line feed alone is made of its lines. -/
theorem flatMap_linesFrom (hreturn : LoneReturns (current.reverse ++ cs))
    (hend : cs.getLast? = some '\n' ∨ cs = [] ∧ current = []) :
    (linesFrom current cs).flatMap (fun line => line.toList ++ ['\n']) = current.reverse ++ cs := by
  induction cs generalizing current with
  | nil =>
    obtain ⟨-, rfl⟩ := hend.resolve_left (by simp)
    rfl
  | cons c cs ih =>
    have hlast : (c :: cs).getLast? = some '\n' := hend.resolve_right (by simp)
    unfold linesFrom
    split
    · rename_i hc
      subst hc
      have hkept : dropReturn current.reverse = current.reverse := by
        unfold dropReturn
        split
        · rename_i front hline
          rw [List.reverse_reverse] at hline
          subst hline
          exact absurd rfl ((List.isChain_append.1 hreturn).2.2 '\r' (by simp) '\n' rfl rfl)
        · rfl
      have hnext : cs.getLast? = some '\n' ∨ cs = [] ∧ ([] : List Char) = [] := by
        cases cs with
        | nil => exact .inr ⟨rfl, rfl⟩
        | cons d ds => exact .inl (by simpa using hlast)
      have hrest : LoneReturns (([] : List Char).reverse ++ cs) :=
        (List.isChain_cons.1 (List.isChain_append.1 hreturn).2.1).2
      rw [List.flatMap_cons, ih hrest hnext, hkept]
      simp
    · rename_i hc
      have hnext : cs.getLast? = some '\n' := by
        cases cs with
        | nil => exact absurd (by simpa using hlast) hc
        | cons d ds => simpa using hlast
      rw [ih (by simpa using hreturn) (.inl hnext)]
      simp

end

/-- Every line of a text is ended by a line feed alone, and the last one is not empty. -/
structure Tidy (text : List Char) : Prop where
  returns : LoneReturns text
  ended : text = [] ∨ ∃ front c, text = front ++ [c, '\n'] ∧ c ≠ '\n'

theorem Tidy.flatMap_lines {text : String} (h : Tidy text.toList) :
    (textLines text).flatMap (fun line => line.toList ++ ['\n']) = text.toList := by
  refine flatMap_linesFrom h.returns ?_
  rcases h.ended with hnil | ⟨front, c, heq, -⟩
  · exact .inr ⟨hnil, rfl⟩
  · rw [heq]
    exact .inl (by simp)

/-- The last line of a tidy text is not empty. -/
theorem Tidy.last {text : String} (h : Tidy text.toList) : ∀ line ∈ (textLines text).getLast?, line ≠ "" := by
  rintro line hline rfl
  obtain ⟨lines, hlines⟩ := List.getLast?_eq_some_iff.1 hline
  have hflat := h.flatMap_lines
  rw [hlines, List.flatMap_append] at hflat
  simp only [List.flatMap_cons, List.flatMap_nil, String.toList_empty, List.nil_append, List.append_nil] at hflat
  rcases h.ended with hnil | ⟨front, c, heq, hc⟩
  · rw [hnil] at hflat
    exact absurd hflat (by simp)
  · rw [heq, show front ++ [c, '\n'] = (front ++ [c]) ++ ['\n'] by simp] at hflat
    have hfront := List.append_cancel_right hflat
    rcases List.eq_nil_or_concat lines with rfl | ⟨lines, last, rfl⟩
    · exact absurd hfront (by simp)
    · simp only [List.concat_eq_append, List.flatMap_append, List.flatMap_cons, List.flatMap_nil, List.append_nil,
        ← List.append_assoc] at hfront
      exact hc (by simpa using (List.append_inj' hfront rfl).2.symm)

/-- Tidy texts with the same lines, up to empty ones, are the same. -/
theorem eq_of_lineAt {a b : String} (ha : Tidy a.toList) (hb : Tidy b.toList)
    (h : ∀ i, lineAt (textLines a) i = lineAt (textLines b) i) : a = b := by
  have hle {lines lines' : List String} (hlast : ∀ line ∈ lines.getLast?, line ≠ "")
      (h : ∀ i, lineAt lines i = lineAt lines' i) : lines.length ≤ lines'.length := by
    by_contra hlt
    obtain ⟨front, last, rfl⟩ : ∃ front last, lines = front ++ [last] := by
      rcases List.eq_nil_or_concat lines with rfl | ⟨front, last, rfl⟩
      · exact absurd (Nat.zero_le _) hlt
      · exact ⟨front, last, List.concat_eq_append⟩
    have hbehind : lines'.length ≤ front.length := by
      rw [List.length_append, List.length_singleton] at hlt
      omega
    have hempty := lineAt_of_le hbehind
    rw [← h] at hempty
    exact hlast last (by simp) (by simpa [lineAt] using hempty)
  have hlines : textLines a = textLines b := by
    refine List.ext_getElem (Nat.le_antisymm (hle ha.last h) (hle hb.last fun i => (h i).symm)) fun i h₁ h₂ => ?_
    have := h i
    simpa [lineAt, h₁, h₂] using this
  rw [← String.toList_inj, ← ha.flatMap_lines, ← hb.flatMap_lines, hlines]

/-! ### Entries -/

section
variable {n : Nat} {olds news : List String}

/-- The entries for a line as they are listed. -/
theorem render_lineChanges (n : Nat) (old new : String) :
    String.join ((lineChanges n old new).map DiffLine.render) =
      if old = new then "" else diffEntry "-" n old ++ diffEntry "+" n new := by
  unfold lineChanges
  split
  · rfl
  · by_cases ho : old = "" <;> by_cases hn : new = "" <;> simp [diffEntry, DiffLine.render, DiffLine.sign, ho, hn]

/-- The listing of texts of which one has a line begins with the entries for the first. -/
theorem listing_eq (n : Nat) (h : olds ≠ [] ∨ news ≠ []) :
    listing n olds news = lineChanges n (lineAt olds 0) (lineAt news 0) ++ listing (n + 1) olds.tail news.tail := by
  have hlength : max olds.length news.length = max olds.tail.length news.tail.length + 1 := by
    cases olds <;> cases news <;> simp at h ⊢
  have htail (lines : List String) (i : Nat) : lineAt lines (i + 1) = lineAt lines.tail i := by
    cases lines <;> simp [lineAt]
  rw [listing, hlength, List.range_succ_eq_map, List.flatMap_cons, List.flatMap_map, listing]
  simp only [htail, Nat.add_zero, Nat.succ_eq_add_one, Nat.add_assoc, Nat.add_comm 1]

/-- The differences of two texts are the text of their listing. -/
theorem diffFrom_eq (n : Nat) (olds news : List String) :
    diffFrom n olds news = String.join ((listing n olds news).map DiffLine.render) := by
  have hstep {n : Nat} {olds news : List String} (h : olds ≠ [] ∨ news ≠ []) :
      String.join ((listing n olds news).map DiffLine.render) =
        (if lineAt olds 0 = lineAt news 0 then "" else
          diffEntry "-" n (lineAt olds 0) ++ diffEntry "+" n (lineAt news 0)) ++
            String.join ((listing (n + 1) olds.tail news.tail).map DiffLine.render) := by
    rw [listing_eq n h, List.map_append, String.join_append, render_lineChanges]
  fun_induction diffFrom n olds news with
  | case1 n => rfl
  | case2 n old olds ih =>
    rw [hstep (.inl (List.cons_ne_nil _ _)), ih]
    congr 1
    by_cases ho : old = "" <;> simp [lineAt, diffEntry, ho]
  | case3 n new news ih =>
    rw [hstep (.inr (List.cons_ne_nil _ _)), ih]
    congr 1
    by_cases hn : new = ""
    · simp [lineAt, diffEntry, hn]
    · simp [lineAt, diffEntry, hn, Ne.symm hn]
  | case4 n old olds new news ih =>
    rw [hstep (.inl (List.cons_ne_nil _ _)), ih]
    rfl

theorem mem_lineChanges {n : Nat} {old new : String} {l : DiffLine} : l ∈ lineChanges n old new ↔
    l.number = n ∧ l.text ≠ "" ∧ old ≠ new ∧ l.text = if l.added then new else old := by
  obtain ⟨added, number, text⟩ := l
  unfold lineChanges
  split
  · simp_all
  · cases added <;> simp <;> grind

/-- What is listed: the lines in which the texts differ, where they are not empty. -/
theorem mem_listing {l : DiffLine} : l ∈ listing n olds news ↔ ∃ i, l.number = n + i ∧ l.text ≠ "" ∧
    lineAt olds i ≠ lineAt news i ∧ l.text = lineAt (if l.added then news else olds) i := by
  have hif (i : Nat) : lineAt (if l.added then news else olds) i =
      if l.added then lineAt news i else lineAt olds i := by
    split <;> rfl
  simp only [listing, List.mem_flatMap, List.mem_range, mem_lineChanges, hif]
  constructor
  · rintro ⟨i, -, h⟩
    exact ⟨i, h⟩
  · rintro ⟨i, h⟩
    refine ⟨i, ?_, h⟩
    -- behind the last lines of both there is no difference
    by_contra hlt
    have hle := Nat.not_lt.1 hlt
    exact h.2.2.1 ((lineAt_of_le (Nat.le_trans (Nat.le_max_left _ _) hle)).trans
      (lineAt_of_le (Nat.le_trans (Nat.le_max_right _ _) hle)).symm)

/-- A number is listed if the lines with that number differ. -/
theorem exists_mem_listing {i : Nat} : (∃ l ∈ listing n olds news, l.number = n + i) ↔
    lineAt olds i ≠ lineAt news i := by
  constructor
  · rintro ⟨l, hl, hi⟩
    obtain ⟨j, hj, -, hne, -⟩ := mem_listing.1 hl
    obtain rfl : j = i := Nat.add_left_cancel (hj.symm.trans hi)
    exact hne
  · intro hne
    by_cases ho : lineAt olds i = ""
    · have hn : lineAt news i ≠ "" := fun h => hne (ho.trans h.symm)
      exact ⟨⟨true, n + i, lineAt news i⟩, mem_listing.2 ⟨i, rfl, hn, hne, rfl⟩, rfl⟩
    · exact ⟨⟨false, n + i, lineAt olds i⟩, mem_listing.2 ⟨i, rfl, ho, hne, rfl⟩, rfl⟩

theorem listing_sorted : (listing n olds news).Pairwise DiffLine.Before := by
  refine List.pairwise_flatMap.2 ⟨fun i _ => ?_, ?_⟩
  · unfold lineChanges
    split
    · exact List.Pairwise.nil
    · refine List.Pairwise.filter _ (List.pairwise_pair.2 (.inr ⟨rfl, rfl, rfl⟩))
  · refine List.pairwise_lt_range.imp fun hlt a ha b hb => .inl ?_
    rw [(mem_lineChanges.1 ha).1, (mem_lineChanges.1 hb).1]
    omega

theorem isListing_listing : IsListing olds news (listing 1 olds news) := by
  refine ⟨listing_sorted, fun l => ?_⟩
  simp only [mem_listing, Nat.add_comm 1]

/-- What was put in can be told from the listing and what was there, up to empty lines. -/
theorem lineAt_eq_of_listing {news' : List String} (h : listing n olds news = listing n olds news') (i : Nat) :
    lineAt news i = lineAt news' i := by
  have hiff : lineAt olds i ≠ lineAt news i ↔ lineAt olds i ≠ lineAt news' i := by
    rw [← exists_mem_listing, ← exists_mem_listing, h]
  -- a new line that is not empty is listed, and then it is the new line of the other text as well
  have hput {news news' : List String} (h : listing n olds news = listing n olds news')
      (hne : lineAt olds i ≠ lineAt news i) (hn : lineAt news i ≠ "") : lineAt news i = lineAt news' i := by
    have hmem : ⟨true, n + i, lineAt news i⟩ ∈ listing n olds news := mem_listing.2 ⟨i, rfl, hn, hne, rfl⟩
    rw [h] at hmem
    obtain ⟨j, hj, -, -, htext⟩ := mem_listing.1 hmem
    obtain rfl : i = j := Nat.add_left_cancel hj
    exact htext
  by_cases hne : lineAt olds i = lineAt news i
  · rw [← hne]
    exact not_not.1 fun h' => hiff.2 h' hne
  · by_cases hn : lineAt news i = ""
    · by_contra hno
      have hn' : lineAt news' i ≠ "" := fun h' => hno (hn.trans h'.symm)
      exact hno (hput h.symm (hiff.1 hne) hn').symm
    · exact hput h hne hn

end

/-! ### Reading a listing back -/

/-- A text is cut in one way at the first of a character. -/
theorem cut_at_first {a : Char} {x y u v : List Char} (hx : a ∉ x) (hy : a ∉ y) (h : x ++ a :: u = y ++ a :: v) :
    x = y ∧ u = v := by
  induction x generalizing y with
  | nil =>
    cases y with
    | nil => exact ⟨rfl, (List.cons.inj h).2⟩
    | cons c y => exact absurd (List.mem_cons.2 (.inl (List.cons.inj h).1)) hy
  | cons b x ih =>
    cases y with
    | nil => exact absurd (List.mem_cons.2 (.inl (List.cons.inj h).1.symm)) hx
    | cons c y =>
      obtain ⟨rfl, htails⟩ := List.cons.inj h
      obtain ⟨rfl, rfl⟩ := ih (fun hm => hx (List.mem_cons_of_mem _ hm)) (fun hm => hy (List.mem_cons_of_mem _ hm)) htails
      exact ⟨rfl, rfl⟩

theorem blank_of_toDigits (n : Nat) : ' ' ∉ Nat.toDigits 10 n := fun h =>
  absurd (Nat.isDigit_of_mem_toDigits (by decide) (by decide) h) (by decide)

/-- A line number is blanks and the digits of the number. -/
theorem lineNumber_toList (n : Nat) : ∃ k, (lineNumber n).toList = List.replicate k ' ' ++ Nat.toDigits 10 n := by
  refine ⟨4 - (toString n).length, ?_⟩
  rw [lineNumber, String.toList_append, String.toList_ofList]
  congr 1
  exact (congrArg String.toList Nat.repr_eq_ofList_toDigits).trans String.toList_ofList

/-- A line number can be read back from a text that goes on with a blank. -/
theorem lineNumber_injective {n m : Nat} {u v : List Char}
    (h : (lineNumber n).toList ++ ' ' :: u = (lineNumber m).toList ++ ' ' :: v) : n = m ∧ u = v := by
  have hdrop (n : Nat) (u : List Char) : ((lineNumber n).toList ++ ' ' :: u).dropWhile (· = ' ') =
      Nat.toDigits 10 n ++ ' ' :: u := by
    obtain ⟨k, hk⟩ := lineNumber_toList n
    rw [hk, List.append_assoc, List.dropWhile_append_of_pos (by simp)]
    cases hd : Nat.toDigits 10 n with
    | nil => exact absurd hd Nat.toDigits_ne_nil
    | cons d ds =>
      have hne : d ≠ ' ' := by
        rintro rfl
        exact blank_of_toDigits n (hd ▸ List.mem_cons_self)
      rw [List.cons_append, List.dropWhile_cons_of_neg (by simpa using hne)]
  have hdigits := congrArg (List.dropWhile (· = ' ')) h
  rw [hdrop, hdrop] at hdigits
  obtain ⟨hsame, rfl⟩ := cut_at_first (blank_of_toDigits n) (blank_of_toDigits m) hdigits
  refine ⟨?_, rfl⟩
  rw [← @Nat.ofDigitChars_ten_toDigits n, hsame, Nat.ofDigitChars_ten_toDigits]

namespace DiffLine

variable {a b : DiffLine} {u v : List Char}

theorem render_toList (l : DiffLine) : l.render.toList =
    (if l.added then '+' else '-') ::
      ((lineNumber l.number).toList ++ ' ' :: '|' :: ' ' :: (l.text.toList ++ ['\n'])) := by
  have hrender : l.render = l.sign ++ lineNumber l.number ++ " | " ++ l.text ++ "\n" := rfl
  rw [hrender, sign]
  split <;> simp

/-- An entry can be read back from the head of a listing. -/
theorem render_injective (ha : '\n' ∉ a.text.toList) (hb : '\n' ∉ b.text.toList)
    (h : a.render.toList ++ u = b.render.toList ++ v) : a = b ∧ u = v := by
  simp only [render_toList, List.cons_append, List.append_assoc] at h
  obtain ⟨hsign, hrest⟩ := List.cons.inj h
  obtain ⟨hnumber, hline⟩ := lineNumber_injective hrest
  obtain ⟨htext, rfl⟩ := cut_at_first ha hb (List.cons.inj (List.cons.inj hline).2).2
  obtain ⟨added, number, text⟩ := a
  obtain ⟨added', number', text'⟩ := b
  obtain rfl : number = number' := hnumber
  obtain rfl : text = text' := String.toList_inj.1 htext
  obtain rfl : added = added' := by
    cases added <;> cases added' <;> simp at hsign ⊢
  exact ⟨rfl, rfl⟩

end DiffLine

/-- A listing can be read back from its text. -/
theorem listing_injective {a b : List DiffLine} (ha : ∀ l ∈ a, '\n' ∉ l.text.toList)
    (hb : ∀ l ∈ b, '\n' ∉ l.text.toList)
    (h : String.join (a.map DiffLine.render) = String.join (b.map DiffLine.render)) : a = b := by
  have hrender (l : DiffLine) : l.render.toList ≠ [] := by
    rw [DiffLine.render_toList]
    exact List.cons_ne_nil _ _
  rw [← String.toList_inj, String.toList_join, String.toList_join] at h
  induction a generalizing b with
  | nil =>
    cases b with
    | nil => rfl
    | cons l b => exact absurd (List.append_eq_nil_iff.1 h.symm).1 (hrender l)
  | cons l a ih =>
    cases b with
    | nil => exact absurd (List.append_eq_nil_iff.1 h).1 (hrender l)
    | cons l' b =>
      rw [List.forall_mem_cons] at ha hb
      rw [List.map_cons, List.map_cons, List.flatMap_cons, List.flatMap_cons] at h
      obtain ⟨rfl, hlater⟩ := DiffLine.render_injective ha.1 hb.1 h
      rw [ih ha.2 hb.2 hlater]

section
variable {olds news news' : List String} {source t t' : String}

/-- The entries for the lines of texts hold no line feed. -/
theorem newline_notMem_listing : ∀ l ∈ listing 1 (textLines source) (textLines t), '\n' ∉ l.text.toList := by
  intro l hl
  obtain ⟨i, -, -, -, htext⟩ := mem_listing.1 hl
  rw [htext]
  split
  · exact newline_notMem_lineAt t i
  · exact newline_notMem_lineAt source i

/-- The differences of two texts have no text if their lines are the same, up to empty ones. -/
theorem diffFrom_eq_empty : diffFrom 1 (textLines source) (textLines t) = "" ↔
    ∀ i, lineAt (textLines source) i = lineAt (textLines t) i := by
  rw [diffFrom_eq]
  constructor
  · intro h i
    have hnil : listing 1 (textLines source) (textLines t) = [] :=
      listing_injective newline_notMem_listing (List.forall_mem_nil _) h
    by_contra hne
    obtain ⟨l, hl, -⟩ := exists_mem_listing.2 hne
    rw [hnil] at hl
    cases hl
  · intro h
    have hnil : listing 1 (textLines source) (textLines t) = [] := by
      refine List.eq_nil_iff_forall_not_mem.2 fun l hl => ?_
      obtain ⟨i, -, -, hne, -⟩ := mem_listing.1 hl
      exact hne (h i)
    rw [hnil]
    rfl

/-- Tidy texts with the same differences from a text are the same. -/
theorem eq_of_diffFrom (ht : Tidy t.toList) (ht' : Tidy t'.toList)
    (h : diffFrom 1 (textLines source) (textLines t) = diffFrom 1 (textLines source) (textLines t')) : t = t' := by
  rw [diffFrom_eq, diffFrom_eq] at h
  exact eq_of_lineAt ht ht' (lineAt_eq_of_listing (listing_injective newline_notMem_listing newline_notMem_listing h))

end

end ElleFrontEnd
