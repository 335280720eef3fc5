import ElleFrontEnd.Command.FileTree
import ElleFrontEnd.Proofs.ImportPaths
import Mathlib.Data.List.DropRight
import Mathlib.Data.String.Basic

/-!
# Where modules lie

The file of a module is the folder of the entry file, followed by the segments of the module path, of which the last
takes the extension of source files.  Segments are words, so that none of them leads up or back to where it stands:
wherever the folder is, the file lies below it, and different modules have different files (`fileIn_folder`).
-/

namespace ElleFrontEnd

/-! ### Plain names -/

/-- A name that leads one level down: it is not empty, is neither `.` nor `..`, and has no slash in it. -/
structure PlainName (name : String) : Prop where
  ne_empty : name ≠ ""
  ne_here : name ≠ "."
  ne_up : name ≠ ".."
  slash : '/' ∉ name.toList

namespace PlainName

variable {name : String}

theorem isIdle (h : PlainName name) : SourcePath.isIdle name = false := by
  simp [SourcePath.isIdle, h.ne_empty, h.ne_here]

end PlainName

/-- A name of letters, digits and `_`, such as a segment of a module path. -/
def IsWordText (s : String) : Prop := s.toList ≠ [] ∧ ∀ c ∈ s.toList, isWordPart c = true

namespace IsWordText

variable {s : String}

theorem dot_notMem (h : IsWordText s) : '.' ∉ s.toList := fun hc => absurd (h.2 _ hc) (by decide)

theorem plain (h : IsWordText s) : PlainName s where
  ne_empty := by
    rintro rfl
    exact h.1 rfl
  ne_here := by
    rintro rfl
    exact h.dot_notMem (by decide)
  ne_up := by
    rintro rfl
    exact h.dot_notMem (by decide)
  slash := fun hc => absurd (h.2 _ hc) (by decide)

/-- A word stays a plain name with an extension. -/
theorem plain_extended (h : IsWordText s) : PlainName (s ++ "." ++ sourceExtension) := by
  have hlist : (s ++ "." ++ sourceExtension).toList = s.toList ++ ['.', 'l', 'e'] := by
    simp [sourceExtension]
  have hlength : 4 ≤ (s ++ "." ++ sourceExtension).toList.length := by
    have := List.length_pos_iff.2 h.1
    rw [hlist, List.length_append]
    simp only [List.length_cons, List.length_nil]
    omega
  refine ⟨?_, ?_, ?_, ?_⟩
  · intro he
    simp [he] at hlength
  · intro he
    simp [he] at hlength
  · intro he
    simp [he] at hlength
  · rw [hlist, List.mem_append, not_or]
    exact ⟨h.plain.slash, by decide⟩

end IsWordText

namespace SourcePath

/-! ### Pieces -/

theorem ofText_pieces (text : String) : (ofText text).pieces = (text.toList.splitOn '/').map String.ofList := by
  rw [ofText, String.splitToList_of_valid, List.splitOn_eq_splitOnP]
  rfl

theorem slash_notMem_splitOn (l : List Char) : ∀ piece ∈ l.splitOn '/', '/' ∉ piece := by
  induction l with
  | nil => simp
  | cons c cs ih =>
    rw [List.splitOn_cons_eq_if_modifyHead]
    split
    · simpa using ih
    · rename_i hc
      obtain ⟨first, others, hs⟩ := List.exists_cons_of_ne_nil (List.splitOn_ne_nil '/' cs)
      rw [hs] at ih ⊢
      rw [List.modifyHead_cons]
      have hfirst := ih first List.mem_cons_self
      intro piece hp
      rcases List.mem_cons.1 hp with rfl | hp
      · simp only [List.mem_cons, not_or]
        exact ⟨fun he => hc (by simp [← he]), hfirst⟩
      · exact ih piece (List.mem_cons_of_mem _ hp)

/-- The pieces of a text have no slash in them. -/
theorem slash_notMem_pieces (text : String) : ∀ piece ∈ (ofText text).pieces, '/' ∉ piece.toList := by
  intro piece hp
  rw [ofText_pieces] at hp
  obtain ⟨l, hl, rfl⟩ := List.mem_map.1 hp
  rw [String.toList_ofList]
  exact slash_notMem_splitOn _ l hl

/-- A path is read back from its text. -/
theorem ofText_text {p : SourcePath} (hne : p.pieces ≠ []) (h : ∀ piece ∈ p.pieces, '/' ∉ piece.toList) :
    ofText p.text = p := by
  have hpieces : (ofText p.text).pieces = p.pieces := by
    rw [ofText_pieces, text, String.toList_intercalate]
    have hslash : ∀ l ∈ p.pieces.map String.toList, '/' ∉ l := by simpa using h
    have hsplit := List.splitOn_intercalate '/' hslash (by simpa using hne)
    rw [show ("/" : String).toList = ['/'] from rfl, hsplit, List.map_map]
    simp [Function.comp_def]
  cases p
  exact congrArg SourcePath.mk hpieces

/-! ### Folders -/

/-- A path as those of folders are: it has pieces, none of which has a slash in it, and it ends in a slash only if it is
the root of all folders. -/
structure Standing (p : SourcePath) : Prop where
  slash : ∀ piece ∈ p.pieces, '/' ∉ piece.toList
  ends : p.pieces = ["", ""] ∨ ∃ front last, p.pieces = front ++ [last] ∧ last ≠ ""

theorem begins_significant (l : List String) : significant l <+: l := by
  cases l with
  | nil => exact List.nil_prefix
  | cons first others =>
    obtain ⟨t, ht⟩ := List.rdropWhile_prefix isIdle others
    exact ⟨t, congrArg (first :: ·) ht⟩

/-- The significant pieces end in one that counts, unless the first one is all there is. -/
theorem significant_ends {l : List String} (h : l ≠ []) :
    (∃ first, significant l = [first]) ∨ ∃ front last, significant l = front ++ [last] ∧ last ≠ "" := by
  obtain ⟨first, others, rfl⟩ := List.exists_cons_of_ne_nil h
  have hdrop : significant (first :: others) = first :: others.rdropWhile isIdle := rfl
  rw [hdrop]
  by_cases hnil : others.rdropWhile isIdle = []
  · exact .inl ⟨first, by rw [hnil]⟩
  · refine .inr ⟨first :: (others.rdropWhile isIdle).dropLast, (others.rdropWhile isIdle).getLast hnil, ?_, ?_⟩
    · rw [List.cons_append, List.dropLast_append_getLast]
    · intro he
      have := List.rdropWhile_last_not isIdle others hnil
      rw [he] at this
      exact this rfl

theorem standing_here : Standing here := ⟨by decide, .inr ⟨[], ".", rfl, by decide⟩⟩

/-- What stands before the name at the end of a path is part of the path. -/
theorem begins_of_last? {p : SourcePath} {before : List String} {name : String} (h : p.last? = some (before, name)) :
    before ++ [name] <+: p.pieces := by
  unfold last? at h
  have hprefix := begins_significant p.pieces
  split at h
  · cases h
  · rename_i first hs
    split at h
    · cases h
    · cases h
      rw [List.reverse_eq_iff] at hs
      rwa [hs] at hprefix
  · rename_i last others _ hs
    cases h
    rw [List.reverse_eq_iff, List.reverse_cons] at hs
    rwa [hs] at hprefix

theorem standing_folder (text : String) : Standing (ofText text).folder := by
  unfold folder
  split
  · exact standing_here
  · rename_i before name hlast
    have hslash : ∀ piece ∈ significant before, '/' ∉ piece.toList := by
      intro piece hp
      refine slash_notMem_pieces text piece ((begins_of_last? hlast).subset ?_)
      exact List.mem_append_left _ ((begins_significant before).subset hp)
    split
    · exact standing_here
    · exact ⟨by decide, .inl rfl⟩
    · rename_i hne hroot
      have hbefore : before ≠ [] := by
        rintro rfl
        exact hne rfl
      refine ⟨hslash, .inr ?_⟩
      rcases significant_ends hbefore with ⟨first, hs⟩ | h
      · refine ⟨[], first, hs, ?_⟩
        rintro rfl
        exact hroot hs
      · exact h

/-! ### Names below a folder -/

/-- The pieces that a name is added behind: all but the slash at the end of the root of all folders. -/
def front (p : SourcePath) : List String :=
  match p.pieces.getLast? with
  | none | some "" => p.pieces.dropLast
  | some _ => p.pieces

theorem front_of_ends {p : SourcePath} {before : List String} {last : String} (h : p.pieces = before ++ [last])
    (hl : last ≠ "") : p.front = p.pieces := by
  have hlast : p.pieces.getLast? = some last := by rw [h, List.getLast?_concat]
  unfold front
  rw [hlast]
  split
  · rename_i heq
    cases heq
  · rename_i heq
    exact absurd (Option.some.inj heq) hl
  · rfl

theorem push_word {p : SourcePath} {s : String} (h : IsWordText s) : (p.push s).pieces = p.front ++ [s] := by
  have hnext : ofText s = ⟨[s]⟩ := by
    have := ofText_text (p := ⟨[s]⟩) (by simp) (by simpa using h.plain.slash)
    rwa [text, String.intercalate_singleton] at this
  have hrelative : (SourcePath.mk [s]).isAbsolute = false := by
    unfold isAbsolute
    split
    · rename_i heq
      simp at heq
    · rfl
  unfold push front
  simp only [hnext, hrelative, Bool.false_eq_true, if_false]
  cases p.pieces.getLast? with
  | none => rfl
  | some last =>
    by_cases hl : last = ""
    · subst hl
      rfl
    · split <;> simp_all

/-- The segments of a module path come one below the other. -/
theorem foldl_push_words {segments : List String} (h : ∀ s ∈ segments, IsWordText s) (hne : segments ≠ [])
    (p : SourcePath) : (segments.foldl push p).pieces = p.front ++ segments := by
  induction segments generalizing p with
  | nil => exact absurd rfl hne
  | cons s segments ih =>
    have hs := h s List.mem_cons_self
    have hpush := push_word (p := p) hs
    rw [List.foldl_cons]
    cases segments with
    | nil => exact hpush
    | cons s' segments =>
      rw [ih (fun x hx => h x (List.mem_cons_of_mem _ hx)) (by simp),
        front_of_ends hpush hs.plain.ne_empty, hpush, List.append_assoc, List.singleton_append]

theorem Standing.front_ne_nil {p : SourcePath} (h : Standing p) : p.front ≠ [] := by
  rcases h.ends with hroot | ⟨before, last, hp, hl⟩
  · unfold front
    rw [hroot]
    decide
  · rw [front_of_ends hp hl, hp]
    simp

/-- A word with no dot in it is its own stem. -/
theorem stemOf_word {s : String} (h : IsWordText s) : stemOf s = s := by
  have hdrop : s.toList.reverse.dropWhile (· ≠ '.') = [] := by
    rw [List.dropWhile_eq_nil_iff]
    intro c hc
    have := h.dot_notMem
    have hne : c ≠ '.' := fun he => this (he ▸ List.mem_reverse.1 hc)
    simpa using hne
  unfold stemOf
  rw [hdrop]

theorem significant_of_ends {first last : String} {others : List String} (h : isIdle last = false) :
    significant (first :: others ++ [last]) = first :: others ++ [last] := by
  simp [significant, h]

/-- The extension is added to the last of two names or more, if that one has no dot in it. -/
theorem withExtension_word {before : List String} {s : String} (hb : before ≠ []) (h : IsWordText s)
    (extension : String) :
    (SourcePath.mk (before ++ [s])).withExtension extension = ⟨before ++ [s ++ "." ++ extension]⟩ := by
  obtain ⟨first, others, rfl⟩ := List.exists_cons_of_ne_nil hb
  have hlast : (SourcePath.mk (first :: others ++ [s])).last? = some (first :: others, s) := by
    unfold last?
    rw [significant_of_ends h.plain.isIdle]
    simp only [List.cons_append, List.reverse_cons, List.reverse_append, List.reverse_nil, List.nil_append]
    split
    · rename_i heq
      simp at heq
    · rename_i heq
      simp at heq
    · rename_i heq
      simp only [List.cons.injEq] at heq
      obtain ⟨rfl, rfl⟩ := heq
      simp
  unfold withExtension
  rw [hlast]
  split
  · rename_i heq
    simp only [Option.some.injEq, Prod.mk.injEq] at heq
    exact absurd heq.2 h.plain.ne_up
  · rename_i heq
    cases heq
  · rename_i heq
    simp only [Option.some.injEq, Prod.mk.injEq] at heq
    obtain ⟨rfl, rfl⟩ := heq
    rw [stemOf_word h]

/-- The names that a path goes through: its pieces but for those that name nothing.  The first piece says where the path
begins. -/
def components (p : SourcePath) : List String :=
  match p.pieces with
  | [] => []
  | first :: others => first :: others.filter fun piece => !isIdle piece

end SourcePath

/-! ### Files of modules -/

/-- The names below the folder of a program that lead to the file of a module. -/
def ModulePath.fileNames (p : ModulePath) : List String :=
  match p.segments.getLast? with
  | none => []
  | some last => p.segments.dropLast ++ [last ++ "." ++ sourceExtension]

namespace ModulePath.Written

variable {p q : ModulePath} {root : SourcePath}

theorem isWordText (h : p.Written) {s : String} (hs : s ∈ p.segments) : IsWordText s := h.segment s hs

/-- A path has a last segment, and it is the one that takes the extension. -/
theorem exists_last (h : p.Written) : ∃ before last, p.segments = before ++ [last] ∧
    p.fileNames = before ++ [last ++ "." ++ sourceExtension] := by
  rcases List.eq_nil_or_concat p.segments with hnil | ⟨before, last, hp⟩
  · exact absurd hnil h.segments_ne
  · rw [List.concat_eq_append] at hp
    refine ⟨before, last, hp, ?_⟩
    unfold ModulePath.fileNames
    rw [hp, List.getLast?_concat]
    simp only [List.dropLast_concat]

theorem fileNames_ne_nil (h : p.Written) : p.fileNames ≠ [] := by
  obtain ⟨before, last, -, hnames⟩ := h.exists_last
  simp [hnames]

theorem plain_fileNames (h : p.Written) : ∀ name ∈ p.fileNames, PlainName name := by
  obtain ⟨before, last, hp, hnames⟩ := h.exists_last
  intro name hname
  rw [hnames, List.mem_append, List.mem_singleton] at hname
  rcases hname with hname | rfl
  · exact (h.isWordText (by rw [hp]; exact List.mem_append_left _ hname)).plain
  · exact (h.isWordText (by simp [hp])).plain_extended

/-- The names of its file tell which module it is. -/
theorem eq_of_fileNames_eq (hp : p.Written) (hq : q.Written) (h : p.fileNames = q.fileNames) : p = q := by
  obtain ⟨before, last, hp, hnames⟩ := hp.exists_last
  obtain ⟨before', last', hq, hnames'⟩ := hq.exists_last
  rw [hnames, hnames'] at h
  obtain ⟨hbefore, hlast⟩ := List.append_inj' h rfl
  have hlast : last = last' := by
    simpa [String.append_assoc] using List.singleton_inj.1 hlast
  obtain ⟨ps⟩ := p
  obtain ⟨qs⟩ := q
  exact congrArg ModulePath.mk (by rw [show ps = _ from hp, show qs = _ from hq, hbefore, hlast])

theorem pieces_fileIn (h : p.Written) (hroot : root.Standing) :
    (p.fileIn root).pieces = root.front ++ p.fileNames := by
  obtain ⟨before, last, hp, hnames⟩ := h.exists_last
  have hpush : p.segments.foldl SourcePath.push root = ⟨root.front ++ before ++ [last]⟩ := by
    have := SourcePath.foldl_push_words (fun s hs => h.isWordText hs) h.segments_ne root
    rw [hp, ← List.append_assoc] at this
    rw [hp]
    generalize List.foldl SourcePath.push root (before ++ [last]) = path at this ⊢
    cases path
    exact congrArg SourcePath.mk this
  have hword := h.isWordText (s := last) (by simp [hp])
  have hne : root.front ++ before ≠ [] := by simp [hroot.front_ne_nil]
  unfold ModulePath.fileIn
  rw [hpush, SourcePath.withExtension_word hne hword, hnames, List.append_assoc]

/-- Names are read on behind those of the folder. -/
theorem components_fileIn (h : p.Written) (hroot : root.Standing) :
    (p.fileIn root).components = root.components ++ p.fileNames := by
  have hfilter : p.fileNames.filter (fun piece => !SourcePath.isIdle piece) = p.fileNames := by
    rw [List.filter_eq_self]
    intro name hname
    rw [(h.plain_fileNames name hname).isIdle]
    rfl
  have hcomponents : root.components = (SourcePath.mk root.front).components := by
    rcases hroot.ends with hslash | ⟨before, last, hends, hl⟩
    · have hfront : root.front = [""] := by
        unfold SourcePath.front
        rw [hslash]
        rfl
      unfold SourcePath.components
      rw [hslash, hfront]
      rfl
    · rw [SourcePath.front_of_ends hends hl]
  obtain ⟨first, others, hfront⟩ := List.exists_cons_of_ne_nil hroot.front_ne_nil
  rw [hcomponents]
  unfold SourcePath.components
  rw [h.pieces_fileIn hroot, hfront]
  simp only [List.cons_append, List.filter_append, hfilter]

theorem text_fileNames (h : p.Written) : "/".intercalate p.fileNames = p.text ++ "." ++ sourceExtension := by
  obtain ⟨before, last, hp, hnames⟩ := h.exists_last
  rw [hnames, ModulePath.text, hp]
  cases before with
  | nil => simp
  | cons first others =>
    rw [String.intercalate_append_of_ne_nil (by simp) (by simp),
      String.intercalate_append_of_ne_nil (by simp) (by simp)]
    simp [String.append_assoc]

/-- The text of a file is that of the folder, a slash unless it ends in one, the path of the module and the
extension. -/
theorem text_fileIn (h : p.Written) (hroot : root.Standing) :
    (p.fileIn root).text =
      (if root.text = "/" then root.text else root.text ++ "/") ++ p.text ++ "." ++ sourceExtension := by
  have hjoin : (p.fileIn root).text = "/".intercalate root.front ++ "/" ++ (p.text ++ "." ++ sourceExtension) := by
    rw [SourcePath.text, h.pieces_fileIn hroot,
      String.intercalate_append_of_ne_nil hroot.front_ne_nil h.fileNames_ne_nil, h.text_fileNames]
  rw [hjoin]
  rcases hroot.ends with hslash | ⟨before, last, hends, hl⟩
  · have hfront : root.front = [""] := by
      unfold SourcePath.front
      rw [hslash]
      rfl
    have htext : root.text = "/" := by
      rw [SourcePath.text, hslash]
      decide
    simp [hfront, htext, String.append_assoc]
  · have hfront := SourcePath.front_of_ends hends hl
    have htext : root.text ≠ "/" := by
      intro he
      have hback := SourcePath.ofText_text (by simp [hends]) hroot.slash
      rw [he, show SourcePath.ofText "/" = ⟨["", ""]⟩ by decide +kernel] at hback
      rw [← hback, show (["", ""] : List String) = [""] ++ [""] from rfl] at hends
      exact hl (List.singleton_inj.1 (List.append_inj' hends rfl).2).symm
    rw [hfront, if_neg htext, SourcePath.text]
    simp only [String.append_assoc]

end ModulePath.Written

/-! ### The way to a file -/

namespace FileTree

variable {tree : FileTree} {name place : List String}

theorem walk_append (a b : List String) :
    tree.walk name (a ++ b) = (tree.walk name a).bind fun place => tree.walk place b := by
  induction a generalizing name with
  | nil => rfl
  | cons piece a ih =>
    simp only [List.cons_append, walk]
    split
    · rfl
    · split
      · exact ih
      · split
        · exact ih
        · split
          · rfl
          · exact ih

/-- Plain names lead straight down. -/
theorem walk_plain {names : List String} (h : ∀ n ∈ names, PlainName n) (hw : tree.walk name names = .ok place) :
    place = name ++ names := by
  induction names generalizing name with
  | nil =>
    obtain rfl : name = place := by simpa [walk] using hw
    simp
  | cons n names ih =>
    have hn := h n List.mem_cons_self
    rw [walk] at hw
    split at hw
    · cases hw
    · rw [hn.isIdle] at hw
      simp only [Bool.false_eq_true, if_false, hn.ne_up] at hw
      split at hw
      · cases hw
      · rw [ih (fun x hx => h x (List.mem_cons_of_mem _ hx)) hw, List.append_assoc, List.singleton_append]

/-- The slash at the end of the root of all folders leads nowhere else. -/
theorem walk_root (hw : tree.walk name [""] = .ok place) : tree.walk name ["", ""] = .ok place := by
  simp only [walk, SourcePath.isIdle, decide_true, Bool.true_or, if_true] at hw ⊢
  split at hw
  · cases hw
  · rename_i hf
    rw [if_neg hf, if_neg hf]
    exact hw

/-- A path that leads somewhere does so along its pieces. -/
theorem walk_of_locate {path : String} (h : tree.locate path = .ok place) :
    tree.walk (if (SourcePath.ofText path).isAbsolute then [] else tree.home) (SourcePath.ofText path).pieces =
      .ok place := by
  unfold locate at h
  dsimp only at h
  split at h
  · cases h
  · split at h
    · cases h
    · exact h

/-- A path leads somewhere if a path with at least its characters does and the way along its pieces is there. -/
theorem locate_of_walk {path longer : String} {other : List String} (hl : tree.locate longer = .ok other)
    (hsub : path.toList <+: longer.toList)
    (hw : tree.walk (if (SourcePath.ofText path).isAbsolute then [] else tree.home) (SourcePath.ofText path).pieces =
      .ok place) : tree.locate path = .ok place := by
  have hsize : path.utf8ByteSize ≤ longer.utf8ByteSize := by
    obtain ⟨rest, hrest⟩ := hsub
    rw [show longer = path ++ String.ofList rest from String.toList_inj.1 (by simp [hrest]), String.utf8ByteSize_append]
    exact Nat.le_add_right _ _
  unfold locate at hl ⊢
  dsimp only at hl ⊢
  split at hl
  · cases hl
  · rename_i hnul
    split at hl
    · cases hl
    · rename_i hlimit
      rw [if_neg, if_neg (by omega)]
      · exact hw
      · intro hc
        exact hnul (List.contains_iff_mem.2 (hsub.subset (List.contains_iff_mem.1 hc)))

end FileTree

namespace ModulePath.Written

variable {p : ModulePath} {root : SourcePath} {tree : FileTree}

/-- The file of a module begins where the folder does. -/
theorem isAbsolute_fileIn (h : p.Written) (hroot : root.Standing) : (p.fileIn root).isAbsolute = root.isAbsolute := by
  obtain ⟨name, names, hnames⟩ := List.exists_cons_of_ne_nil h.fileNames_ne_nil
  have hpieces := h.pieces_fileIn hroot
  rw [hnames] at hpieces
  unfold SourcePath.isAbsolute
  rw [hpieces]
  rcases hroot.ends with hslash | ⟨before, last, hends, hl⟩
  · rw [hslash, show root.front = [""] by unfold SourcePath.front; rw [hslash]; rfl]
    rfl
  · rw [SourcePath.front_of_ends hends hl, hends]
    rcases before with - | ⟨first, - | ⟨second, others⟩⟩
    · simp [hl]
    · by_cases hf : first = "" <;> simp [hf]
    · by_cases hf : first = "" <;> simp [hf]

/-- Wherever the folder is, the file of a module lies below it, at the end of its names. -/
theorem located_fileIn (h : p.Written) (hroot : root.Standing) {name : List String}
    (hl : tree.locate (p.fileIn root).text = .ok name) :
    ∃ place, tree.locate root.text = .ok place ∧ name = place ++ p.fileNames := by
  have hfront : ∀ piece ∈ root.front, '/' ∉ piece.toList := by
    intro piece hp
    refine hroot.slash piece ?_
    unfold SourcePath.front at hp
    split at hp
    · exact List.dropLast_subset _ hp
    · exact List.dropLast_subset _ hp
    · exact hp
  have hfile : SourcePath.ofText (p.fileIn root).text = p.fileIn root := by
    refine SourcePath.ofText_text (by simp [h.pieces_fileIn hroot, hroot.front_ne_nil]) ?_
    intro piece hp
    rw [h.pieces_fileIn hroot, List.mem_append] at hp
    exact hp.elim (hfront piece) fun hp => (h.plain_fileNames piece hp).slash
  have hne : root.pieces ≠ [] := by
    intro he
    rcases hroot.ends with hslash | ⟨before, last, hends, -⟩
    · simp [hslash] at he
    · simp [hends] at he
  have hback := SourcePath.ofText_text hne hroot.slash
  have hw := FileTree.walk_of_locate hl
  rw [hfile, h.isAbsolute_fileIn hroot, h.pieces_fileIn hroot, FileTree.walk_append] at hw
  obtain ⟨place, hplace, hnames⟩ : ∃ place, tree.walk (if root.isAbsolute then [] else tree.home) root.front =
      .ok place ∧ tree.walk place p.fileNames = .ok name := by
    cases hfw : tree.walk (if root.isAbsolute then [] else tree.home) root.front with
    | error e =>
      rw [hfw] at hw
      cases hw
    | ok place =>
      rw [hfw] at hw
      exact ⟨place, rfl, hw⟩
  refine ⟨place, ?_, FileTree.walk_plain h.plain_fileNames hnames⟩
  refine FileTree.locate_of_walk hl ?_ ?_
  · rw [h.text_fileIn hroot]
    split <;> simp [List.append_assoc]
  · rw [hback]
    rcases hroot.ends with hslash | ⟨before, last, hends, hlast⟩
    · rw [show root.front = [""] by unfold SourcePath.front; rw [hslash]; rfl] at hplace
      rw [hslash]
      exact FileTree.walk_root hplace
    · rwa [SourcePath.front_of_ends hends hlast] at hplace

end ModulePath.Written

/-! ### Modules of a program -/

/-- What the file of a module has to do with the folder of the program. -/
structure ModulePath.LiesIn (p : ModulePath) (root : SourcePath) : Prop where
  /-- the text of the file is that of the folder, the path of the module and the extension -/
  text : (p.fileIn root).text =
    (if root.text = "/" then root.text else root.text ++ "/") ++ p.text ++ "." ++ sourceExtension
  /-- the file goes on from the folder with exactly its own names -/
  components : (p.fileIn root).components = root.components ++ p.fileNames
  /-- each of the names leads one level down -/
  plain : ∀ name ∈ p.fileNames, PlainName name
  /-- among any files, the file is where the folder is, and its names further down -/
  located : ∀ (tree : FileTree) (name : List String), tree.locate (p.fileIn root).text = .ok name →
    ∃ place, tree.locate root.text = .ok place ∧ name = place ++ p.fileNames

theorem ModulePath.Written.liesIn {p : ModulePath} {root : SourcePath} (h : p.Written) (hroot : root.Standing) :
    p.LiesIn root where
  text := h.text_fileIn hroot
  components := h.components_fileIn hroot
  plain := h.plain_fileNames
  located := fun _ _ => h.located_fileIn hroot

/-- Different modules have different files, whether these are compared as texts, name by name, or by where they are. -/
structure ModulePath.LiesApart (p q : ModulePath) (root : SourcePath) : Prop where
  text : (p.fileIn root).text ≠ (q.fileIn root).text
  components : (p.fileIn root).components ≠ (q.fileIn root).components
  located : ∀ (tree : FileTree) (name name' : List String), tree.locate (p.fileIn root).text = .ok name →
    tree.locate (q.fileIn root).text = .ok name' → name ≠ name'

theorem ModulePath.Written.liesApart {p q : ModulePath} {root : SourcePath} (hp : p.Written) (hq : q.Written)
    (hroot : root.Standing) (hne : p ≠ q) : p.LiesApart q root where
  text := by
    intro he
    rw [hp.text_fileIn hroot, hq.text_fileIn hroot] at he
    refine hne (hp.eq_of_text_eq hq ?_)
    simpa [String.append_assoc] using he
  components := by
    intro he
    rw [hp.components_fileIn hroot, hq.components_fileIn hroot] at he
    exact hne (hp.eq_of_fileNames_eq hq (List.append_cancel_left he))
  located := by
    intro tree name name' hname hname' he
    obtain ⟨place, hplace, hnames⟩ := hp.located_fileIn hroot hname
    obtain ⟨place', hplace', hnames'⟩ := hq.located_fileIn hroot hname'
    obtain rfl : place = place' := Except.ok.inj (hplace.symm.trans hplace')
    exact hne (hp.eq_of_fileNames_eq hq (List.append_cancel_left (hnames.symm.trans (he.trans hnames'))))

/-- The modules that a program may import, whatever its source is, have their files below the folder of the entry file,
and different modules have different files. -/
theorem fileIn_folder (entry : String) :
    (∀ (source : String) (o : ParseOptions), ∀ p ∈ (parseSource source o).program.imports, p.Written) ∧
      (∀ p : ModulePath, p.Written → p.LiesIn (SourcePath.ofText entry).folder) ∧
      ∀ p q : ModulePath, p.Written → q.Written → p ≠ q → p.LiesApart q (SourcePath.ofText entry).folder :=
  ⟨fun _ _ _ => written_of_imports, fun _ hp => hp.liesIn (SourcePath.standing_folder entry),
    fun _ _ hp hq => hp.liesApart hq (SourcePath.standing_folder entry)⟩

/-- The modules `std/io` and `io` of a program that begins at the root of all folders. -/
theorem fileIn_folder_slash :
    ((ModulePath.mk ["std", "io"]).fileIn (SourcePath.ofText "/main.le").folder).text = "/std/io.le" ∧
      (ModulePath.mk ["std", "io"]).LiesApart ⟨["io"]⟩ (SourcePath.ofText "/main.le").folder := by
  have himports : (parseSource "use std/io; use io;" {}).program.imports = [⟨["std", "io"]⟩, ⟨["io"]⟩] := by
    decide +kernel
  have hfiles := fileIn_folder "/main.le"
  have hwritten := hfiles.1 "use std/io; use io;" {}
  have hp := hwritten ⟨["std", "io"]⟩ (by rw [himports]; decide)
  have hq := hwritten ⟨["io"]⟩ (by rw [himports]; decide)
  refine ⟨?_, hfiles.2.2 _ _ hp hq (by decide)⟩
  rw [(hfiles.2.1 _ hp).text]
  decide +kernel

end ElleFrontEnd
