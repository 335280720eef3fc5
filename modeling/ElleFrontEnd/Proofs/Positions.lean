import ElleFrontEnd.Text.LineIndex
import ElleFrontEnd.Proofs.Lossless
import Mathlib.Data.List.DropRight

/-!
# Two ways to count lines and columns

The lexer moves a position along with every character that it takes.  A line index looks a position up: it seeks the
line in the offsets at which lines begin and counts the characters from there.  Both give the same position, which is
that of the text read so far (`Position.behind`): its line feeds, and the characters of its last line.
-/

namespace ElleFrontEnd

/-! ### The position behind a text -/

/-- What a text has behind its last line feed. -/
def lastLine (text : List Char) : List Char := text.rtakeWhile (· ≠ '\n')

/-- The position behind a text that begins at the first position. -/
def Position.behind (text : List Char) : Position := ⟨1 + text.count '\n', 1 + (lastLine text).length⟩

theorem lastLine_concat_newline (text : List Char) : lastLine (text ++ ['\n']) = [] :=
  List.rtakeWhile_concat_neg _ _ _ (by simp)

theorem lastLine_concat {c : Char} (hc : c ≠ '\n') (text : List Char) :
    lastLine (text ++ [c]) = lastLine text ++ [c] :=
  List.rtakeWhile_concat_pos _ _ _ (by simpa using hc)

/-- A line feed opens the next line, and any other character goes on with the line. -/
theorem Position.behind_concat (text : List Char) (c : Char) :
    Position.behind (text ++ [c]) = (Position.behind text).after c := by
  by_cases hc : c = '\n'
  · subst hc
    simp [Position.behind, Position.after, lastLine_concat_newline, Nat.add_assoc]
  · have hcount : List.count '\n' [c] = 0 := List.count_eq_zero.2 (by simpa using Ne.symm hc)
    rw [Position.behind, Position.after, if_neg hc, lastLine_concat hc, List.count_append, hcount, List.length_append]
    rfl

/-- Moved along with every character of a text, a place comes to the position behind the text. -/
theorem Place.position_after (text : List Char) : (Place.start.after text).position = .behind text := by
  induction text using List.reverseRecOn with
  | nil => rfl
  | append_singleton text c ih =>
    have hstep : Place.start.after (text ++ [c]) = (Place.start.after text).step c := by
      simp [Place.after, List.foldl_append]
    rw [hstep, Position.behind_concat, ← ih]
    rfl

/-- The order of positions in a text: by line, and by column in a line. -/
def Position.Before (p q : Position) : Prop := p.line < q.line ∨ p.line = q.line ∧ p.column < q.column

theorem Position.Before.trans {p q r : Position} (h : p.Before q) (h' : q.Before r) : p.Before r := by
  unfold Before at *
  omega

/-- Lines begin behind a character and up to the end. -/
theorem mem_lineStartsFrom {n m : Nat} {text : List Char} (h : m ∈ lineStartsFrom n text) :
    n < m ∧ m ≤ n + byteLength text := by
  induction text generalizing n with
  | nil => simp [lineStartsFrom] at h
  | cons c text ih =>
    have hpos := c.utf8Size_pos
    have htail : m ∈ lineStartsFrom (n + c.utf8Size) text → n < m ∧ m ≤ n + (c.utf8Size + byteLength text) := by
      intro hm
      have := ih hm
      omega
    rw [byteLength_cons]
    rw [lineStartsFrom] at h
    split at h
    · rcases List.mem_cons.1 h with rfl | hm
      · omega
      · exact htail hm
    · exact htail h

/-- Lines begin one behind another, so that the line of an offset can be found by bisection. -/
theorem pairwise_starts (text : List Char) : (LineIndex.ofText text).starts.Pairwise (· < ·) := by
  have hfrom (n : Nat) : (lineStartsFrom n text).Pairwise (· < ·) := by
    induction text generalizing n with
    | nil => exact List.Pairwise.nil
    | cons c text ih =>
      rw [lineStartsFrom]
      split
      · exact List.pairwise_cons.2 ⟨fun m hm => (mem_lineStartsFrom hm).1, ih _⟩
      · exact ih _
  exact List.pairwise_cons.2 ⟨fun m hm => (mem_lineStartsFrom hm).1, hfrom 0⟩

/-- Whichever way the last line that begins up to an offset is found, it is the line that is looked up. -/
theorem LineIndex.line_eq {text : List Char} {offset i : Nat} (hoffset : offset ≤ byteLength text)
    (hi : i < (ofText text).starts.length) (hle : (ofText text).starts[i] ≤ offset)
    (hlt : ∀ (j : Nat) (hj : j < (ofText text).starts.length), i < j → offset < (ofText text).starts[j]) :
    ((ofText text).position text offset).line = i + 1 := by
  have hincreasing := List.pairwise_iff_getElem.1 (pairwise_starts text)
  have hstarted : (ofText text).starts.takeWhile (· ≤ offset) = (ofText text).starts.take (i + 1) := by
    have hbefore : ∀ m ∈ (ofText text).starts.take (i + 1), decide (m ≤ offset) = true := by
      intro m hm
      obtain ⟨j, hj, rfl⟩ := List.mem_take_iff_getElem.1 hm
      rw [decide_eq_true_eq]
      rcases Nat.lt_or_ge j i with hlt | hge
      · exact Nat.le_of_lt (Nat.lt_of_lt_of_le (hincreasing j i _ hi hlt) hle)
      · obtain rfl : j = i := by omega
        exact hle
    have hbehind : ((ofText text).starts.drop (i + 1)).takeWhile (· ≤ offset) = [] := by
      rw [List.takeWhile_eq_nil_iff]
      intro hpos
      have := hlt (i + 1) (by rw [List.length_drop] at hpos; omega) (Nat.lt_succ_self i)
      simpa using this
    conv => lhs; rw [← List.take_append_drop (i + 1) (ofText text).starts]
    rw [List.takeWhile_append_of_pos hbefore, hbehind, List.append_nil]
  have hmin : min offset (ofText text).size = offset := Nat.min_eq_left hoffset
  simp only [position, hmin, hstarted, List.length_take]
  omega

example : (LineIndex.ofText "ab\ncd\n\nxé".toList).position "ab\ncd\n\nxé".toList 10 = ⟨4, 3⟩ := by decide

end ElleFrontEnd
