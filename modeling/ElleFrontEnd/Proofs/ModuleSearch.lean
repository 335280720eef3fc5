import ElleFrontEnd.Proofs.ImportPaths
import Mathlib.Logic.Relation
import Mathlib.Data.List.Nodup
import Mathlib.Data.List.Perm.Subperm

/-!
# The search for modules

The search reads one waiting module after another (`Step`).  What holds of a search that is under way is kept by each
step (`Searched.step`): the paths that it has asked for are the imports of the modules read so far, and each of them is
that of one module, read or waiting, or that of one import that failed.  So when nothing waits, the modules are those
that are reached from the root (`Searched.mem_paths_iff`).

The budget of `ModuleGraph.search` is never used up: each round but the first reads a module that loads and was not
asked for before, and no two such modules have the same text for a path (`finishes_ofStore`).
-/

namespace ElleFrontEnd

open ModuleGraph

/-! ### Lists without repeats -/

theorem nodup_eraseDups {α : Type} [BEq α] [LawfulBEq α] (l : List α) : l.eraseDups.Nodup := by
  induction hn : l.length using Nat.strongRecOn generalizing l with
  | ind n ih =>
    subst hn
    cases l with
    | nil => simp
    | cons a l =>
      rw [List.eraseDups_cons, List.nodup_cons, List.mem_eraseDups]
      have hshort := List.length_filter_le (fun b => !b == a) l
      exact ⟨by simp, ih _ (by rw [List.length_cons]; omega) _ rfl⟩

namespace ModuleGraph

variable {load : ModulePath → Except LoadError String} {o : ParseOptions} {root : ModulePath} {source : String}

/-! ### What loads and what does not -/

theorem mem_loadedAmong {ps : List ModulePath} {p : ModulePath} {text : String} :
    (p, text) ∈ loadedAmong load ps ↔ p ∈ ps ∧ load p = .ok text := by
  simp only [loadedAmong, List.mem_filterMap]
  constructor
  · rintro ⟨q, hq, h⟩
    split at h
    · rename_i hload
      obtain ⟨rfl, rfl⟩ := Prod.mk.inj (Option.some.inj h)
      exact ⟨hq, hload⟩
    · cases h
  · rintro ⟨hp, hload⟩
    exact ⟨p, hp, by rw [hload]⟩

theorem paths_loadedAmong (ps : List ModulePath) :
    (loadedAmong load ps).map Prod.fst = ps.filter fun p => (load p).isOk := by
  induction ps with
  | nil => rfl
  | cons p ps ih =>
    cases h : load p <;> simp_all [loadedAmong, Except.isOk, Except.toBool]

theorem length_loadedAmong (ps : List ModulePath) :
    (loadedAmong load ps).length = (ps.filter fun p => (load p).isOk).length := by
  rw [← paths_loadedAmong, List.length_map]

theorem mem_failedAmong {importer : ModulePath} {ps : List ModulePath} {u : UnresolvedImport} :
    u ∈ failedAmong load importer ps ↔ u.importer = importer ∧ ∃ p ∈ ps, load p = .error u.error := by
  simp only [failedAmong, List.mem_filterMap]
  constructor
  · rintro ⟨p, hp, h⟩
    split at h
    · cases h
    · rename_i error hload
      obtain rfl := Option.some.inj h
      exact ⟨rfl, p, hp, hload⟩
  · rintro ⟨rfl, p, hp, hload⟩
    exact ⟨p, hp, by rw [hload]⟩

theorem paths_failedAmong (hload : ∀ p e, load p = .error e → e.path = p) (importer : ModulePath)
    (ps : List ModulePath) :
    ((failedAmong load importer ps).map fun u => u.error.path) = ps.filter fun p => !(load p).isOk := by
  induction ps with
  | nil => rfl
  | cons p ps ih =>
    cases h : load p with
    | ok text => simp_all [failedAmong, Except.isOk, Except.toBool]
    | error e =>
      have := hload p e h
      simp_all [failedAmong, Except.isOk, Except.toBool]

/-! ### What is to be found -/

/-- The source of a module: that of the root is given, and the others are loaded. -/
def sourceOf? (load : ModulePath → Except LoadError String) (root : ModulePath) (source : String) (p : ModulePath) :
    Option String :=
  if p = root then some source else (load p).toOption

/-- The root, and the imports of what is reached as far as they load. -/
inductive Reached (load : ModulePath → Except LoadError String) (o : ParseOptions) (root : ModulePath)
    (source : String) : ModulePath → Prop
  | root : Reached load o root source root
  | imported {p q : ModulePath} {text text' : String} : Reached load o root source p →
    sourceOf? load root source p = some text → q ∈ (parseSource text o).program.imports →
    sourceOf? load root source q = some text' → Reached load o root source q

theorem exists_of_isOk {r : Except LoadError String} (h : r.isOk = true) : ∃ text, r = .ok text := by
  cases r with
  | ok text => exact ⟨text, rfl⟩
  | error e => cases h

theorem sourceOf?_of_load {p : ModulePath} {text : String} (hp : p ≠ root) (h : load p = .ok text) :
    sourceOf? load root source p = some text := by
  rw [sourceOf?, if_neg hp, h]
  rfl

theorem isOk_of_sourceOf? {p : ModulePath} {text : String} (hp : p ≠ root)
    (h : sourceOf? load root source p = some text) : (load p).isOk = true := by
  rw [sourceOf?, if_neg hp] at h
  cases hl : load p with
  | ok text => rfl
  | error e => simp [hl, Except.toOption] at h

end ModuleGraph

/-! ### A search under way -/

/-- What a search has found, which paths it has asked for, and what waits to be read. -/
structure SearchState where
  modules : List LoadedModule
  unresolved : List UnresolvedImport
  seen : List ModulePath
  waiting : List (ModulePath × String)

namespace SearchState

/-- A search that is about to read its root. -/
def start (root : ModulePath) (source : String) : SearchState := ⟨[], [], [root], [(root, source)]⟩

/-- What the search has found. -/
def graph (s : SearchState) : ModuleGraph := ⟨s.modules, s.unresolved⟩

/-- The paths of the modules that were read and of those that wait. -/
def paths (s : SearchState) : List ModulePath := s.modules.map LoadedModule.path ++ s.waiting.map Prod.fst

/-- The imports of a module that have not been asked for. -/
def fresh (s : SearchState) (m : LoadedModule) : List ModulePath := m.imports.filter fun p => !s.seen.contains p

/-- The search behind one more module, where `queue` waits besides. -/
def read (load : ModulePath → Except LoadError String) (s : SearchState) (m : LoadedModule)
    (queue : List (ModulePath × String)) : SearchState where
  modules := s.modules ++ [m]
  unresolved := s.unresolved ++ failedAmong load m.path (s.fresh m)
  seen := s.seen ++ s.fresh m
  waiting := queue ++ loadedAmong load (s.fresh m)

theorem mem_fresh {s : SearchState} {m : LoadedModule} {p : ModulePath} :
    p ∈ s.fresh m ↔ p ∈ m.program.imports ∧ p ∉ s.seen := by
  simp [fresh, LoadedModule.imports]

theorem nodup_fresh (s : SearchState) (m : LoadedModule) : (s.fresh m).Nodup := (nodup_eraseDups _).filter _

section
variable {load : ModulePath → Except LoadError String} {s : SearchState} {m : LoadedModule} {text : String}
  {queue : List (ModulePath × String)}

/-- Behind a module, all its imports have been asked for. -/
theorem mem_seen_read {p : ModulePath} :
    p ∈ (s.read load m queue).seen ↔ p ∈ s.seen ∨ p ∈ m.program.imports := by
  simp only [read, List.mem_append, mem_fresh]
  tauto

/-- A module adds the paths that load and were not asked for. -/
theorem paths_read (load : ModulePath → Except LoadError String) (h : s.waiting = (m.path, text) :: queue) :
    (s.read load m queue).paths = s.paths ++ (s.fresh m).filter fun p => (load p).isOk := by
  simp [paths, read, h, paths_loadedAmong]

/-- A module adds the failures to load what was not asked for. -/
theorem failed_read (hload : ∀ p e, load p = .error e → e.path = p) :
    ((s.read load m queue).unresolved.map fun u => u.error.path) =
      (s.unresolved.map fun u => u.error.path) ++ (s.fresh m).filter fun p => !(load p).isOk := by
  rw [read, List.map_append, paths_failedAmong hload]

end

end SearchState

/-- A search reads the module that waits first. -/
inductive Step (load : ModulePath → Except LoadError String) (o : ParseOptions) : SearchState → SearchState → Prop
  | read {s : SearchState} {path : ModulePath} {text : String} {queue : List (ModulePath × String)} :
    s.waiting = (path, text) :: queue → Step load o s (s.read load (LoadedModule.read o path text) queue)

/-- A search goes on until nothing waits, and has found a graph then. -/
def Finishes (load : ModulePath → Except LoadError String) (o : ParseOptions) (s : SearchState) (g : ModuleGraph) :
    Prop :=
  ∃ s', Relation.ReflTransGen (Step load o) s s' ∧ s'.waiting = [] ∧ s'.graph = g

/-- What holds of a search for the modules of a root that is under way. -/
structure Searched (load : ModulePath → Except LoadError String) (o : ParseOptions) (root : ModulePath)
    (source : String) (s : SearchState) : Prop where
  first : s.paths.head? = some root
  mem_seen : ∀ p, p ∈ s.seen ↔ p = root ∨ ∃ m ∈ s.modules, p ∈ m.program.imports
  mem_paths : ∀ p, p ∈ s.paths ↔ p = root ∨ p ∈ s.seen ∧ (load p).isOk = true
  nodup : s.paths.Nodup
  modules : ∀ m ∈ s.modules, sourceOf? load root source m.path = some m.source ∧
    m = LoadedModule.read o m.path m.source
  waiting : ∀ w ∈ s.waiting, sourceOf? load root source w.1 = some w.2
  reached : ∀ p ∈ s.paths, Reached load o root source p
  failed : (s.unresolved.map fun u => u.error.path).Nodup
  mem_failed : ∀ p, (p ∈ s.unresolved.map fun u => u.error.path) ↔ p ≠ root ∧ p ∈ s.seen ∧ (load p).isOk = false
  importer : ∀ u ∈ s.unresolved, load u.error.path = .error u.error ∧
    ∃ m, (s.modules.find? fun m => decide (u.error.path ∈ m.program.imports)) = some m ∧ u.importer = m.path

namespace Searched

variable {load : ModulePath → Except LoadError String} {o : ParseOptions} {root : ModulePath} {source : String}
  {s s' : SearchState}

theorem start (load : ModulePath → Except LoadError String) (o : ParseOptions) (root : ModulePath) (source : String) :
    Searched load o root source (.start root source) where
  first := rfl
  mem_seen := by simp [SearchState.start]
  mem_paths := by simp +contextual [SearchState.start, SearchState.paths]
  nodup := by simp [SearchState.start, SearchState.paths]
  modules := by simp [SearchState.start]
  waiting := by simp [SearchState.start, sourceOf?]
  reached := by simp [SearchState.start, SearchState.paths, Reached.root]
  failed := by simp [SearchState.start]
  mem_failed := by simp +contextual [SearchState.start]
  importer := by simp [SearchState.start]

section
variable {m : LoadedModule} {queue : List (ModulePath × String)} (h : Searched load o root source s)
include h

theorem fresh_ne_root {p : ModulePath} (hp : p ∈ s.fresh m) : p ≠ root := by
  rintro rfl
  exact (SearchState.mem_fresh.1 hp).2 ((h.mem_seen _).2 (.inl rfl))

theorem fresh_not_mem_paths {p : ModulePath} (hp : p ∈ s.fresh m) : p ∉ s.paths := by
  rw [h.mem_paths]
  rintro (hroot | ⟨hseen, -⟩)
  · exact h.fresh_ne_root hp hroot
  · exact (SearchState.mem_fresh.1 hp).2 hseen

/-- An import that fails is recorded with the first module that imports it. -/
theorem importer_read (hload : ∀ p e, load p = .error e → e.path = p) :
    ∀ u ∈ (s.read load m queue).unresolved, load u.error.path = .error u.error ∧
      ∃ m', ((s.read load m queue).modules.find? fun m' => decide (u.error.path ∈ m'.program.imports)) = some m' ∧
        u.importer = m'.path := by
  simp only [SearchState.read, List.forall_mem_append, List.find?_append]
  constructor
  · intro u hu
    obtain ⟨herror, m', hm', himporter⟩ := h.importer u hu
    exact ⟨herror, m', by rw [hm', Option.some_or], himporter⟩
  · intro u hu
    obtain ⟨himporter, p, hp, herror⟩ := mem_failedAmong.1 hu
    obtain rfl : u.error.path = p := hload p u.error herror
    obtain ⟨himports, hnew⟩ := SearchState.mem_fresh.1 hp
    -- no module before has asked for it
    have hnone : (s.modules.find? fun m' => decide (u.error.path ∈ m'.program.imports)) = none := by
      rw [List.find?_eq_none]
      intro m' hm' hp'
      exact hnew ((h.mem_seen _).2 (.inr ⟨m', hm', of_decide_eq_true hp'⟩))
    refine ⟨herror, m, ?_, himporter⟩
    rw [hnone, Option.none_or, List.find?_singleton, if_pos (decide_eq_true himports)]

/-- The search behind the module that waits first. -/
theorem read (hload : ∀ p e, load p = .error e → e.path = p) {path : ModulePath} {text : String}
    (hwaiting : s.waiting = (path, text) :: queue) :
    Searched load o root source (s.read load (LoadedModule.read o path text) queue) := by
  have htext : sourceOf? load root source path = some text := h.waiting (path, text) (by simp [hwaiting])
  have hreached : Reached load o root source path := h.reached path (by simp [SearchState.paths, hwaiting])
  generalize hm : LoadedModule.read o path text = m
  obtain ⟨rfl, rfl, hprogram⟩ : path = m.path ∧ text = m.source ∧ m.program = (parseSource text o).program := by
    rw [← hm]
    exact ⟨rfl, rfl, rfl⟩
  have hpaths := SearchState.paths_read load hwaiting
  refine ⟨?_, fun p => ?_, fun p => ?_, ?_, ?_, ?_, ?_, ?_, fun p => ?_, h.importer_read hload⟩
  · rw [hpaths, List.head?_append, h.first, Option.some_or]
  · rw [SearchState.mem_seen_read, h.mem_seen]
    simp [SearchState.read, or_assoc, or_and_right, exists_or]
  · rw [hpaths, SearchState.mem_seen_read, List.mem_append, h.mem_paths, List.mem_filter, SearchState.mem_fresh]
    tauto
  · rw [hpaths, List.nodup_append]
    refine ⟨h.nodup, (s.nodup_fresh m).filter _, ?_⟩
    rintro p hp _ hq rfl
    exact h.fresh_not_mem_paths (List.mem_of_mem_filter hq) hp
  · simp only [SearchState.read, List.forall_mem_append, List.mem_singleton, forall_eq]
    exact ⟨h.modules, htext, hm.symm⟩
  · simp only [SearchState.read, List.forall_mem_append]
    refine ⟨fun w hw => h.waiting w (by simp [hwaiting, hw]), ?_⟩
    rintro ⟨p, text'⟩ hw
    obtain ⟨hp, hok⟩ := mem_loadedAmong.1 hw
    exact sourceOf?_of_load (h.fresh_ne_root hp) hok
  · rw [hpaths, List.forall_mem_append]
    refine ⟨h.reached, fun p hp => ?_⟩
    obtain ⟨hp, hok⟩ := List.mem_filter.1 hp
    obtain ⟨text', hl⟩ := exists_of_isOk hok
    have himports : p ∈ (parseSource m.source o).program.imports := hprogram ▸ (SearchState.mem_fresh.1 hp).1
    exact .imported hreached htext himports (sourceOf?_of_load (h.fresh_ne_root hp) hl)
  · rw [SearchState.failed_read hload, List.nodup_append]
    refine ⟨h.failed, (s.nodup_fresh m).filter _, ?_⟩
    rintro p hp _ hq rfl
    -- what fails now was not asked for before
    exact (SearchState.mem_fresh.1 (List.mem_of_mem_filter hq)).2 ((h.mem_failed p).1 hp).2.1
  · have hfresh : p ∈ s.fresh m → p ≠ root := h.fresh_ne_root
    rw [SearchState.mem_fresh] at hfresh
    rw [SearchState.failed_read hload, SearchState.mem_seen_read, List.mem_append, h.mem_failed, List.mem_filter,
      SearchState.mem_fresh, Bool.not_eq_true']
    tauto

end

theorem step (hload : ∀ p e, load p = .error e → e.path = p) (h : Searched load o root source s)
    (hstep : Step load o s s') : Searched load o root source s' := by
  cases hstep with
  | read hwaiting => exact h.read hload hwaiting

theorem run (hload : ∀ p e, load p = .error e → e.path = p) (h : Searched load o root source s)
    (hrun : Relation.ReflTransGen (Step load o) s s') : Searched load o root source s' := by
  induction hrun with
  | refl => exact h
  | tail _ hstep ih => exact ih.step hload hstep

/-- When nothing waits, the paths are those that are reached. -/
theorem mem_paths_iff (h : Searched load o root source s) (hend : s.waiting = []) {p : ModulePath} :
    p ∈ s.modules.map LoadedModule.path ↔ Reached load o root source p := by
  have hpaths : s.modules.map LoadedModule.path = s.paths := by simp [SearchState.paths, hend]
  rw [hpaths]
  refine ⟨h.reached p, fun hp => ?_⟩
  induction hp with
  | root => exact (h.mem_paths _).2 (.inl rfl)
  | @imported p q text text' _ htext hq htext' ih =>
    rw [← hpaths] at ih
    obtain ⟨m, hm, rfl⟩ := List.mem_map.1 ih
    obtain ⟨hsource, hread⟩ := h.modules m hm
    obtain rfl : m.source = text := Option.some.inj (hsource.symm.trans htext)
    have himports : q ∈ m.program.imports := by
      rw [hread]
      exact hq
    by_cases hroot : q = root
    · exact (h.mem_paths q).2 (.inl hroot)
    · exact (h.mem_paths q).2 (.inr ⟨(h.mem_seen q).2 (.inr ⟨m, hm, himports⟩), isOk_of_sourceOf? hroot htext'⟩)

end Searched

/-! ### The budget -/

namespace ModuleGraph

variable {load : ModulePath → Except LoadError String} {o : ParseOptions}

/-- Whether at most `n` paths that can be imported load and were not asked for. -/
def LoadsAtMost (load : ModulePath → Except LoadError String) (n : Nat) (seen : List ModulePath) : Prop :=
  ∀ ps : List ModulePath, ps.Nodup → (∀ p ∈ ps, p.Written ∧ p ∉ seen ∧ (load p).isOk = true) → ps.length ≤ n

theorem search_nil (budget : Nat) (seen : List ModulePath) : search load o budget seen [] = empty := by
  cases budget <;> rfl

/-- The paths that were asked for are no longer among those that may load. -/
theorem LoadsAtMost.append {n : Nat} {seen ps : List ModulePath} (h : LoadsAtMost load n seen) (hnodup : ps.Nodup)
    (hnew : ∀ p ∈ ps, p.Written ∧ p ∉ seen) :
    ∃ k, n = (ps.filter fun p => (load p).isOk).length + k ∧ LoadsAtMost load k (seen ++ ps) := by
  have hloaded : ∀ p ∈ ps.filter fun p => (load p).isOk, p.Written ∧ p ∉ seen ∧ (load p).isOk = true := by
    intro p hp
    obtain ⟨hp, hok⟩ := List.mem_filter.1 hp
    exact ⟨(hnew p hp).1, (hnew p hp).2, hok⟩
  have hle := h _ (hnodup.filter _) hloaded
  refine ⟨n - (ps.filter fun p => (load p).isOk).length, by omega, fun qs hqs hall => ?_⟩
  have happend := h ((ps.filter fun p => (load p).isOk) ++ qs) ?_ ?_
  · rw [List.length_append] at happend
    omega
  · rw [List.nodup_append]
    refine ⟨hnodup.filter _, hqs, ?_⟩
    rintro p hp _ hq rfl
    exact (hall p hq).2.1 (List.mem_append_right _ (List.mem_of_mem_filter hp))
  · rw [List.forall_mem_append]
    refine ⟨hloaded, fun p hp => ?_⟩
    obtain ⟨hwritten, hseen, hok⟩ := hall p hp
    exact ⟨hwritten, fun hp => hseen (List.mem_append_left _ hp), hok⟩

/-- With a round for each path that may load and each module that waits, the search goes on until nothing waits. -/
theorem finishes_search {n budget : Nat} {s : SearchState} (h : LoadsAtMost load n s.seen)
    (hb : s.waiting.length + n ≤ budget) :
    Finishes load o s ⟨s.modules ++ (search load o budget s.seen s.waiting).modules,
      s.unresolved ++ (search load o budget s.seen s.waiting).unresolved⟩ := by
  induction budget generalizing s n with
  | zero =>
    have hw : s.waiting = [] := List.length_eq_zero_iff.1 (by omega)
    rw [hw, search_nil]
    exact ⟨s, .refl, hw, by simp [SearchState.graph, empty]⟩
  | succ budget ih =>
    rcases hw : s.waiting with - | ⟨⟨path, text⟩, queue⟩
    · rw [search_nil]
      exact ⟨s, .refl, hw, by simp [SearchState.graph, empty]⟩
    · obtain ⟨k, rfl, hk⟩ := h.append (s.nodup_fresh (LoadedModule.read o path text)) fun p hp => by
        obtain ⟨himports, hnew⟩ := SearchState.mem_fresh.1 hp
        exact ⟨written_of_imports himports, hnew⟩
      obtain ⟨s', hrun, hend, hgraph⟩ := ih (s := s.read load (LoadedModule.read o path text) queue) hk (by
        rw [hw, List.length_cons] at hb
        rw [SearchState.read, List.length_append, length_loadedAmong]
        omega)
      refine ⟨s', hrun.head (.read hw), hend, ?_⟩
      rw [hgraph]
      simp [SearchState.read, search, SearchState.fresh, LoadedModule.read]

/-! ### Stores -/

theorem path_of_load {store : ModuleStore} {p : ModulePath} {e : LoadError} (h : store.load p = .error e) :
    e.path = p := by
  unfold ModuleStore.load at h
  split at h
  · cases h
  · obtain rfl := Except.error.inj h
    rfl
  · obtain rfl := Except.error.inj h
    rfl

/-- What loads from a store has an entry of its own. -/
theorem loadsAtMost_store (store : ModuleStore) (seen : List ModulePath) :
    LoadsAtMost store.load store.entries.length seen := by
  intro ps hps hall
  have htexts : (ps.map ModulePath.text).Nodup :=
    .map_on (fun p hp q hq h => (hall p hp).1.eq_of_text_eq (hall q hq).1 h) hps
  have hsub : ps.map ModulePath.text ⊆ store.entries.map Prod.fst := by
    intro text ht
    obtain ⟨p, hp, rfl⟩ := List.mem_map.1 ht
    obtain ⟨text, hload⟩ := exists_of_isOk (hall p hp).2.2
    unfold ModuleStore.load at hload
    split at hload
    · rename_i hlookup
      obtain ⟨l₁, l₂, hentries, -⟩ := List.lookup_eq_some_iff.1 hlookup
      simp [hentries]
    · cases hload
    · cases hload
  have hle := (List.subperm_of_subset htexts hsub).length_le
  rwa [List.length_map, List.length_map] at hle

/-- The search for the modules of a store comes to an end. -/
theorem finishes_ofStore (store : ModuleStore) (root : ModulePath) (source : String) (o : ParseOptions) :
    Finishes store.load o (.start root source) (ofStore store root source o) := by
  have hfinishes := finishes_search (o := o) (s := .start root source) (loadsAtMost_store store [root])
    (Nat.le_of_eq (Nat.add_comm 1 _))
  simpa [SearchState.start, ofStore, build] using hfinishes

/-! ### What becomes of imports -/

/-- Whether `u` is the one entry for a path that could not be loaded, with the first module that imports the path. -/
structure Records (g : ModuleGraph) (p : ModulePath) (u : UnresolvedImport) : Prop where
  only : g.unresolved.filter (fun u => decide (u.error.path = p)) = [u]
  earliest : ∃ m, g.modules.find? (fun m => decide (p ∈ m.program.imports)) = some m ∧ u.importer = m.path

/-- Where keys do not repeat, an element is the only one with its key. -/
theorem filter_key_eq {α β : Type} [DecidableEq β] {key : α → β} {l : List α} {a : α} (h : (l.map key).Nodup)
    (ha : a ∈ l) : l.filter (fun b => decide (key b = key a)) = [a] := by
  induction l with
  | nil => simp at ha
  | cons b l ih =>
    rw [List.map_cons, List.nodup_cons] at h
    rcases List.mem_cons.1 ha with rfl | ha
    · have hnone : l.filter (fun b => decide (key b = key a)) = [] := by
        rw [List.filter_eq_nil_iff]
        intro b hb hk
        exact h.1 (of_decide_eq_true hk ▸ List.mem_map_of_mem hb)
      rw [List.filter_cons_of_pos (by simp), hnone]
    · have hne : key b ≠ key a := fun hk => h.1 (hk ▸ List.mem_map_of_mem ha)
      rw [List.filter_cons_of_neg (by simpa using hne), ih h.2 ha]

/-- A module is found by its path. -/
theorem get?_of_mem {g : ModuleGraph} {m : LoadedModule} (h : (g.modules.map LoadedModule.path).Nodup)
    (hm : m ∈ g.modules) : g.get? m.path = some m := by
  rw [get?, ← List.head?_filter, filter_key_eq h hm]
  rfl

theorem importsOf_of_mem {g : ModuleGraph} {m : LoadedModule} (h : (g.modules.map LoadedModule.path).Nodup)
    (hm : m ∈ g.modules) : g.importsOf m.path = m.program.imports.eraseDups := by
  rw [importsOf, get?_of_mem h hm]
  rfl

/-- An import of a module that was read is that of a module, or it is recorded once. -/
theorem accounts_of_searched {root : ModulePath} {source : String} {s : SearchState} {p : ModulePath}
    (h : Searched load o root source s) (hend : s.waiting = []) (hp : p ∈ s.seen) :
    (p ∈ s.graph.modules.map LoadedModule.path ∧ ∀ u ∈ s.graph.unresolved, u.error.path ≠ p) ∨
      (p ∉ s.graph.modules.map LoadedModule.path ∧ ∃ u, s.graph.Records p u) := by
  have hpaths : s.graph.modules.map LoadedModule.path = s.paths := by simp [SearchState.paths, SearchState.graph, hend]
  rw [hpaths, h.mem_paths]
  by_cases hfailed : p ≠ root ∧ (load p).isOk = false
  · right
    obtain ⟨hroot, hno⟩ := hfailed
    obtain ⟨u, hu, rfl⟩ := List.mem_map.1 ((h.mem_failed p).2 ⟨hroot, hp, hno⟩)
    obtain ⟨-, m, hm, himporter⟩ := h.importer u hu
    exact ⟨by simp [hroot, hno], u, filter_key_eq h.failed hu, m, hm, himporter⟩
  · left
    have hloads : p = root ∨ (load p).isOk = true := by
      rw [not_and, Bool.not_eq_false] at hfailed
      exact or_iff_not_imp_left.2 hfailed
    refine ⟨hloads.imp_right fun hok => ⟨hp, hok⟩, ?_⟩
    rintro u hu rfl
    obtain ⟨hroot, -, hno⟩ := (h.mem_failed _).1 (List.mem_map_of_mem hu)
    exact hfailed ⟨hroot, hno⟩

/-- No import is lost: that of a module is the path of a module or of one entry for what could not be loaded, which
names the first module that imports it, and there are no other entries. -/
theorem ofStore_accounts (store : ModuleStore) (root : ModulePath) (source : String) (o : ParseOptions) :
    let g := ofStore store root source o
    (∀ m ∈ g.modules, g.importsOf m.path = m.program.imports.eraseDups ∧ ∀ p ∈ g.importsOf m.path,
      (p ∈ g.modules.map LoadedModule.path ∧ ∀ u ∈ g.unresolved, u.error.path ≠ p) ∨
        (p ∉ g.modules.map LoadedModule.path ∧ ∃ u, g.Records p u)) ∧
    (∀ u ∈ g.unresolved, store.load u.error.path = .error u.error ∧
      ∃ m ∈ g.modules, u.error.path ∈ g.importsOf m.path) ∧
    (g.isClean = true ↔ g.unresolved = [] ∧ ∀ m ∈ g.modules, m.diagnostics = []) := by
  obtain ⟨s, hrun, hend, hgraph⟩ := finishes_ofStore store root source o
  rw [← hgraph]
  intro g
  have h := (Searched.start store.load o root source).run (fun _ _ => path_of_load) hrun
  have hnodup : (s.graph.modules.map LoadedModule.path).Nodup := by
    simpa [SearchState.paths, SearchState.graph, hend] using h.nodup
  refine ⟨fun m hm => ?_, fun u hu => ?_, ?_⟩
  · have himports := importsOf_of_mem hnodup hm
    refine ⟨himports, fun p hp => accounts_of_searched h hend ?_⟩
    rw [himports, List.mem_eraseDups] at hp
    exact (h.mem_seen p).2 (.inr ⟨m, hm, hp⟩)
  · obtain ⟨herror, m, hfind, -⟩ := h.importer u hu
    have hm : m ∈ s.graph.modules := List.mem_of_find?_eq_some hfind
    refine ⟨herror, m, hm, ?_⟩
    rw [importsOf_of_mem hnodup hm, List.mem_eraseDups]
    simpa using List.find?_some hfind
  · simp [isClean]

end ModuleGraph

end ElleFrontEnd
