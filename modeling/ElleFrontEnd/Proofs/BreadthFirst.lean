import ElleFrontEnd.Proofs.ModuleSearch

/-!
# The order of a search for modules

A breadth-first search goes through a graph in layers: behind the nodes of one layer come their successors that were
not visited, in the order in which they are met (`breadthFirst`).  The search for modules has one queue instead, and
keeps in one list what it has asked for, be it a module or not.  Both visit the same modules in the same order
(`search_breadthFirst`): while the search reads a whole layer, the modules that it queues are those of the next one
(`search_layer`).
-/

namespace ElleFrontEnd

/-! ### Erasing repeats -/

/-- It is the same to erase repeats before or after others are dropped. -/
theorem filter_eraseDups {α : Type} [BEq α] [LawfulBEq α] (keeps : α → Bool) (l : List α) :
    l.eraseDups.filter keeps = (l.filter keeps).eraseDups := by
  induction hn : l.length using Nat.strongRecOn generalizing l with
  | ind n ih =>
    subst hn
    cases l with
    | nil => rfl
    | cons a l =>
      have hshort := List.length_filter_le (fun b => !b == a) l
      have htail := ih _ (by rw [List.length_cons]; omega) (l.filter fun b => !b == a) rfl
      rw [List.filter_filter] at htail
      rw [List.eraseDups_cons]
      by_cases ha : keeps a = true
      · rw [List.filter_cons_of_pos ha, List.filter_cons_of_pos ha, List.eraseDups_cons, List.filter_filter, htail]
        simp only [Bool.and_comm]
      · -- an element that is dropped takes nothing along that would stay
        have hdropped : ∀ b ∈ l, (keeps b && !b == a) = keeps b := by
          intro b _
          by_cases hb : b = a
          · simp [hb, ha]
          · simp [hb]
        rw [List.filter_cons_of_neg ha, List.filter_cons_of_neg ha, htail, List.filter_congr hdropped]

/-- What two lists have that was not seen: what the first has, then what the second has besides. -/
theorem eraseDups_new_append {α : Type} [BEq α] [LawfulBEq α] (seen a b : List α) :
    ((a ++ b).filter fun x => !seen.contains x).eraseDups =
      (a.eraseDups.filter fun x => !seen.contains x) ++
        (b.filter fun x => !(seen ++ a.eraseDups.filter fun x => !seen.contains x).contains x).eraseDups := by
  have hlater : (b.filter fun x => !seen.contains x).removeAll (a.filter fun x => !seen.contains x) =
      b.filter fun x => !(seen ++ a.eraseDups.filter fun x => !seen.contains x).contains x := by
    rw [List.removeAll, List.filter_filter]
    refine List.filter_congr fun x _ => ?_
    by_cases hx : x ∈ seen <;> simp [hx]
  rw [List.filter_append, List.eraseDups_append, hlater, filter_eraseDups]

/-! ### Breadth-first search in layers -/

/-- The nodes that are reached from a layer in some rounds: the layer, then what follows its nodes, in order, each
node once, and no node that was visited before. -/
def breadthFirst {α : Type} [BEq α] (next : α → List α) :
    (rounds : Nat) → (visited : List α) → (layer : List α) → List α
  | 0, _, _ => []
  | rounds + 1, visited, layer =>
    let found := ((layer.flatMap next).filter fun p => !visited.contains p).eraseDups
    layer ++ breadthFirst next rounds (visited ++ found) found

theorem breadthFirst_nil {α : Type} [BEq α] (next : α → List α) (rounds : Nat) (visited : List α) :
    breadthFirst next rounds visited [] = [] := by
  induction rounds generalizing visited with
  | zero => rfl
  | succ rounds ih => simp [breadthFirst, ih]

namespace ModuleGraph

variable {load : ModulePath → Except LoadError String} {o : ParseOptions} {root : ModulePath} {source : String}

/-- The imports of a module that load, as its source names them. -/
def successors (load : ModulePath → Except LoadError String) (o : ParseOptions) (root : ModulePath) (source : String)
    (p : ModulePath) : List ModulePath :=
  match sourceOf? load root source p with
  | some text => (parseSource text o).program.imports.filter fun q => (sourceOf? load root source q).isSome
  | none => []

theorem successors_of_sourceOf? {p : ModulePath} {text : String} (h : sourceOf? load root source p = some text) :
    successors load o root source p =
      (parseSource text o).program.imports.filter fun q => (sourceOf? load root source q).isSome := by
  rw [successors, h]

/-- Besides the root, the modules are what loads. -/
theorem isSome_sourceOf? {p : ModulePath} (hp : p ≠ root) :
    (sourceOf? load root source p).isSome = (load p).isOk := by
  rw [sourceOf?, if_neg hp]
  cases load p <;> rfl

/-- The imports of a queue, as the sources name them. -/
def importsAmong (o : ParseOptions) (queue : List (ModulePath × String)) : List ModulePath :=
  queue.flatMap fun w => (parseSource w.2 o).program.imports

/-- What a queue is the first to ask for. -/
def freshAmong (o : ParseOptions) (seen : List ModulePath) (queue : List (ModulePath × String)) : List ModulePath :=
  ((importsAmong o queue).filter fun p => !seen.contains p).eraseDups

theorem mem_freshAmong {seen : List ModulePath} {queue : List (ModulePath × String)} {p : ModulePath} :
    p ∈ freshAmong o seen queue ↔ p ∈ importsAmong o queue ∧ p ∉ seen := by
  simp [freshAmong]

theorem nodup_freshAmong (o : ParseOptions) (seen : List ModulePath) (queue : List (ModulePath × String)) :
    (freshAmong o seen queue).Nodup := nodup_eraseDups _

theorem written_of_freshAmong {seen : List ModulePath} {queue : List (ModulePath × String)} {p : ModulePath}
    (hp : p ∈ freshAmong o seen queue) : p.Written := by
  obtain ⟨w, -, himports⟩ := List.mem_flatMap.1 (mem_freshAmong.1 hp).1
  exact written_of_imports himports

/-- What a queue is the first to ask for, module after module. -/
theorem freshAmong_cons (seen : List ModulePath) (w : ModulePath × String) (queue : List (ModulePath × String)) :
    let fresh := (LoadedModule.read o w.1 w.2).imports.filter fun p => !seen.contains p
    freshAmong o seen (w :: queue) = fresh ++ freshAmong o (seen ++ fresh) queue := by
  exact eraseDups_new_append seen (parseSource w.2 o).program.imports (importsAmong o queue)

/-- The search reads the module that waits first and goes on behind what it asks for. -/
theorem paths_search_cons (load : ModulePath → Except LoadError String) (o : ParseOptions) (budget : Nat)
    (seen : List ModulePath) (w : ModulePath × String) (queue : List (ModulePath × String)) :
    let fresh := (LoadedModule.read o w.1 w.2).imports.filter fun p => !seen.contains p
    (search load o (budget + 1) seen (w :: queue)).modules.map LoadedModule.path =
      w.1 ::
        (search load o budget (seen ++ fresh) (queue ++ loadedAmong load fresh)).modules.map LoadedModule.path := rfl

/-- While the search reads all that waits, it queues what loads of that which was not asked for before. -/
theorem search_layer (load : ModulePath → Except LoadError String) (o : ParseOptions) (budget : Nat)
    (seen : List ModulePath) (layer queue : List (ModulePath × String)) :
    (search load o (layer.length + budget) seen (layer ++ queue)).modules.map LoadedModule.path =
      layer.map Prod.fst ++ (search load o budget (seen ++ freshAmong o seen layer)
        (queue ++ loadedAmong load (freshAmong o seen layer))).modules.map LoadedModule.path := by
  induction layer generalizing seen queue with
  | nil => simp [freshAmong, importsAmong, loadedAmong]
  | cons w layer ih =>
    have hfresh := freshAmong_cons (o := o) seen w layer
    have hread := paths_search_cons load o (layer.length + budget) seen w (layer ++ queue)
    have hbudget : (w :: layer).length + budget = layer.length + budget + 1 := by
      rw [List.length_cons]
      omega
    generalize (LoadedModule.read o w.1 w.2).imports.filter (fun p => !seen.contains p) = fresh at hfresh hread
    dsimp only at hfresh hread
    have happend : loadedAmong load (fresh ++ freshAmong o (seen ++ fresh) layer) =
        loadedAmong load fresh ++ loadedAmong load (freshAmong o (seen ++ fresh) layer) := List.filterMap_append ..
    rw [hbudget, List.cons_append, hread, List.append_assoc, ih, hfresh, happend, List.map_cons, List.cons_append,
      List.append_assoc, List.append_assoc]

/-- Among what is reached, it is the same to have been visited and to have been asked for. -/
def SameNews (load : ModulePath → Except LoadError String) (root : ModulePath) (source : String)
    (seen visited : List ModulePath) : Prop :=
  root ∈ seen ∧ ∀ p, (sourceOf? load root source p).isSome = true → (p ∈ visited ↔ p ∈ seen)

/-- What a queue is the first to ask for, as far as it loads, is the next layer. -/
theorem loaded_freshAmong {seen visited : List ModulePath} {queue : List (ModulePath × String)}
    (h : SameNews load root source seen visited)
    (hqueue : ∀ w ∈ queue, sourceOf? load root source w.1 = some w.2) :
    (freshAmong o seen queue).filter (fun p => (load p).isOk) =
      (((queue.map Prod.fst).flatMap (successors load o root source)).filter
        fun p => !visited.contains p).eraseDups := by
  have hsuccessors : (queue.map Prod.fst).flatMap (successors load o root source) =
      (importsAmong o queue).filter fun p => (sourceOf? load root source p).isSome := by
    rw [List.flatMap_map, importsAmong, List.filter_flatMap]
    exact List.flatMap_congr fun w hw => successors_of_sourceOf? (hqueue w hw)
  rw [freshAmong, filter_eraseDups, hsuccessors, List.filter_filter, List.filter_filter]
  refine congrArg List.eraseDups (List.filter_congr fun p _ => ?_)
  by_cases hseen : p ∈ seen
  · -- what was asked for loads only if it was visited
    have hvisited := h.2 p
    cases hp : (sourceOf? load root source p).isSome <;> simp_all
  · have hroot : p ≠ root := fun hp => hseen (hp ▸ h.1)
    have hvisited := h.2 p
    rw [isSome_sourceOf? hroot] at hvisited ⊢
    cases hp : (load p).isOk <;> simp_all

theorem SameNews.append {seen visited : List ModulePath} (h : SameNews load root source seen visited)
    (fresh : List ModulePath) (hnew : ∀ p ∈ fresh, p ∉ seen) :
    SameNews load root source (seen ++ fresh) (visited ++ fresh.filter fun p => (load p).isOk) := by
  refine ⟨List.mem_append_left _ h.1, fun p hp => ?_⟩
  rw [List.mem_append, List.mem_append, h.2 p hp, List.mem_filter]
  refine or_congr_right ⟨And.left, fun hfresh => ⟨hfresh, ?_⟩⟩
  have hroot : p ≠ root := fun hroot => hnew p hfresh (hroot ▸ h.1)
  rwa [isSome_sourceOf? hroot] at hp

/-- A search whose budget is enough visits what waits, and then what follows it, layer after layer. -/
theorem search_breadthFirst {n budget rounds : Nat} {seen visited : List ModulePath}
    {queue : List (ModulePath × String)} (hloads : LoadsAtMost load n seen) (hbudget : queue.length + n ≤ budget)
    (hrounds : budget ≤ rounds) (hnews : SameNews load root source seen visited)
    (hqueue : ∀ w ∈ queue, sourceOf? load root source w.1 = some w.2) :
    (search load o budget seen queue).modules.map LoadedModule.path =
      breadthFirst (successors load o root source) rounds visited (queue.map Prod.fst) := by
  -- a layer that is not empty takes at least one of the budget
  induction rounds generalizing n budget seen visited queue with
  | zero =>
    obtain rfl : queue = [] := List.length_eq_zero_iff.1 (by omega)
    rw [search_nil]
    rfl
  | succ rounds ih =>
    by_cases hempty : queue = []
    · rw [hempty, search_nil, List.map_nil, breadthFirst_nil]
      rfl
    have hpos : 0 < queue.length := List.length_pos_iff.2 hempty
    obtain ⟨budget, rfl⟩ : ∃ b, budget = queue.length + b := ⟨budget - queue.length, by omega⟩
    have hnew : ∀ p ∈ freshAmong o seen queue, p.Written ∧ p ∉ seen := fun p hp =>
      ⟨written_of_freshAmong hp, (mem_freshAmong.1 hp).2⟩
    obtain ⟨k, rfl, hk⟩ := hloads.append (nodup_freshAmong o seen queue) hnew
    have hlayer := search_layer load o budget seen queue []
    rw [List.append_nil, List.nil_append] at hlayer
    rw [hlayer, breadthFirst, ← loaded_freshAmong hnews hqueue, ← paths_loadedAmong]
    refine congrArg _ (ih hk ?_ (by omega) ?_ ?_)
    · rw [length_loadedAmong]
      omega
    · rw [paths_loadedAmong]
      exact hnews.append _ fun p hp => (hnew p hp).2
    · rintro ⟨p, text⟩ hw
      obtain ⟨hp, hload⟩ := mem_loadedAmong.1 hw
      have hroot : p ≠ root := by
        rintro rfl
        exact (hnew p hp).2 hnews.1
      exact sourceOf?_of_load hroot hload

/-- The modules of a graph are those that are reached from the root.  The search for them comes to an end; it begins
with the root and reads each module once, from its own source, in breadth-first order. -/
theorem ofStore_breadthFirst (store : ModuleStore) (root : ModulePath) (source : String) (o : ParseOptions) :
    let g := ofStore store root source o
    Finishes store.load o (.start root source) g ∧
    g.modules.head? = some (LoadedModule.read o root source) ∧
    (g.modules.map LoadedModule.path).Nodup ∧
    (∀ p, p ∈ g.modules.map LoadedModule.path ↔ Reached store.load o root source p) ∧
    (∀ m ∈ g.modules, sourceOf? store.load root source m.path = some m.source ∧
      m.program = (parseSource m.source o).program ∧ m.diagnostics = (parseSource m.source o).diagnostics) ∧
    ∀ rounds, store.entries.length < rounds → g.modules.map LoadedModule.path =
      breadthFirst (successors store.load o root source) rounds [root] [root] := by
  intro g
  have hfinishes : Finishes store.load o (.start root source) g := finishes_ofStore store root source o
  obtain ⟨s, hrun, hend, hgraph⟩ := id hfinishes
  have h := (Searched.start store.load o root source).run (fun _ _ => path_of_load) hrun
  have hmodules : s.modules = g.modules := congrArg ModuleGraph.modules hgraph
  refine ⟨hfinishes, rfl, ?_, fun p => ?_, fun m hm => ?_, fun rounds hrounds => ?_⟩
  · rw [← hmodules]
    simpa [SearchState.paths, hend] using h.nodup
  · rw [← hmodules]
    exact h.mem_paths_iff hend
  · obtain ⟨hsource, hread⟩ := h.modules m (hmodules ▸ hm)
    refine ⟨hsource, ?_, ?_⟩
    · rw [hread]
      rfl
    · rw [hread]
      rfl
  · have hqueue : ∀ w ∈ [(root, source)], sourceOf? store.load root source w.1 = some w.2 := by
      intro w hw
      obtain rfl := List.mem_singleton.1 hw
      exact if_pos rfl
    exact search_breadthFirst (loadsAtMost_store store [root]) (Nat.le_of_eq (Nat.add_comm 1 _)) hrounds
      ⟨List.mem_singleton_self root, fun _ _ => Iff.rfl⟩ hqueue

end ModuleGraph

end ElleFrontEnd
