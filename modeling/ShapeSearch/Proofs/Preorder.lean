import ShapeSearch.Proofs.Compilation
import ShapeSearch.Proofs.Correspondence
import ShapeSearch.Search

namespace ShapeSearch

namespace Tree

mutual

/-- The paths to a tree and to what is visited below it, parents first. A path counts the proper
children at each level. -/
def paths : Tree → List (List Nat)
  | node _ ts => [] :: pathsAll 0 ts

def pathsAll (i : Nat) : List Tree → List (List Nat)
  | [] => []
  | t :: ts =>
    if t.label.isProper then (paths t).map (i :: ·) ++ pathsAll (i + 1) ts else pathsAll i ts

end

theorem pathsAll_eq (i : Nat) (ts : List Tree) :
    pathsAll i ts =
      ((ts.filter (·.label.isProper)).zipIdx i).flatMap fun x => x.1.paths.map (x.2 :: ·) := by
  induction ts generalizing i with
  | nil => rfl
  | cons t ts ih =>
      by_cases h : t.label.isProper = true
      · simp [pathsAll, h, ih]
      · simp [pathsAll, h, ih]

end Tree

namespace Node

def at? (n : Node) : List Nat → Option Node
  | [] => some n
  | i :: path => n.properChildren[i]?.bind (at? · path)

theorem map_tree_properChildren (n : Node) :
    n.properChildren.map (·.tree) = n.tree.children.filter (·.label.isProper) := by
  have h := congrArg (List.filter (·.label.isProper))
    (map_tree_row (n.kind :: n.above) [] n.tree.children)
  rwa [List.filter_map] at h

theorem paths_eq (n : Node) :
    n.tree.paths =
      [] :: n.properChildren.zipIdx.flatMap fun x => x.1.tree.paths.map (x.2 :: ·) := by
  obtain ⟨⟨l, ts⟩, before, after, above⟩ := n
  have h := map_tree_properChildren ⟨.node l ts, before, after, above⟩
  simp only [Tree.paths, Tree.pathsAll_eq]
  simp only [Tree.children] at h
  rw [← h, List.zipIdx_map, List.flatMap_map]
  rfl

theorem preorder_eq_filterMap (n : Node) :
    n.preorder Label.isProper = n.tree.paths.filterMap n.at? := by
  induction n using childInduct with
  | step n ih =>
      have hroot : n.at? [] = some n := rfl
      rw [preorder_eq, paths_eq, List.filterMap_cons_some hroot, List.filterMap_flatMap]
      congr 1
      have hx (x : Node × Nat) (hx : x ∈ n.properChildren.zipIdx) :
          (x.1.tree.paths.map (x.2 :: ·)).filterMap n.at? = x.1.preorder Label.isProper := by
        have hc := List.mem_zipIdx_iff_getElem?.mp hx
        rw [ih x.1 (mem_properChildren (List.mem_of_getElem? hc)), List.filterMap_map]
        congr 1
        funext path
        simp [at?, hc]
      calc n.properChildren.flatMap (preorder Label.isProper)
          = (n.properChildren.zipIdx.map Prod.fst).flatMap (preorder Label.isProper) := by
            rw [List.zipIdx_map_fst]
        _ = n.properChildren.zipIdx.flatMap fun x => x.1.preorder Label.isProper := by
            rw [List.flatMap_map]
        _ = _ := (List.flatMap_congr hx).symm

theorem mem_paths_iff (n : Node) (path : List Nat) :
    path ∈ n.tree.paths ↔ ∃ m, n.at? path = some m := by
  induction path generalizing n with
  | nil =>
      rw [paths_eq]
      simp [at?]
  | cons i path ih =>
      rw [paths_eq]
      simp only [List.mem_cons, reduceCtorEq, List.mem_flatMap, List.mem_map, List.cons.injEq,
        false_or, at?, Option.bind_eq_some_iff]
      constructor
      · rintro ⟨x, hx, q, hq, rfl, rfl⟩
        obtain ⟨m, hm⟩ := (ih x.1).mp hq
        exact ⟨m, x.1, List.mem_zipIdx_iff_getElem?.mp hx, hm⟩
      · rintro ⟨m, c, hc, hm⟩
        exact ⟨(c, i), List.mem_zipIdx_iff_getElem?.mpr hc, path, (ih c).mpr ⟨m, hm⟩, rfl, rfl⟩

theorem paths_sorted (n : Node) : n.tree.paths.Pairwise (· < ·) := by
  induction n using childInduct with
  | step n ih =>
      rw [paths_eq, List.pairwise_cons, List.pairwise_flatMap]
      refine ⟨?_, ?_, ?_⟩
      · intro path hpath
        obtain ⟨x, -, hx⟩ := List.mem_flatMap.mp hpath
        obtain ⟨q, -, rfl⟩ := List.mem_map.mp hx
        exact List.nil_lt_cons _ _
      · intro x hx
        have hc := List.mem_zipIdx_iff_getElem?.mp hx
        rw [List.pairwise_map]
        have hsorted := ih x.1 (mem_properChildren (List.mem_of_getElem? hc))
        exact hsorted.imp fun h => List.cons_lt_cons_self.mpr h
      · -- paths through different children differ in their first step
        have hidx : n.properChildren.zipIdx.Pairwise fun x y => x.2 < y.2 := by
          rw [← List.pairwise_map (f := Prod.snd), List.zipIdx_map_snd]
          exact List.pairwise_lt_range'
        refine hidx.imp fun {x y} hxy => ?_
        intro a ha b hb
        obtain ⟨a, -, rfl⟩ := List.mem_map.mp ha
        obtain ⟨b, -, rfl⟩ := List.mem_map.mp hb
        exact List.Lex.rel hxy

end Node

namespace Pattern

def allMatches (p : Pattern) (s : Source) : List Match :=
  (s.root.preorder Label.isProper).filterMap (p.matchAt? s.text)

/-- The matches, each with the path to the node at which it begins. -/
def hits (p : Pattern) (s : Source) : List (List Nat × Match) :=
  s.tree.paths.filterMap fun path =>
    (s.root.at? path).bind fun n => (p.matchAt? s.text n).map (path, ·)

def limitedTo (p : Pattern) (limit : Nat) : Pattern :=
  { p with config := { p.config with maxMatches := limit } }

def present {σ : Type} (visit : Match → Attempt σ) (s : σ) : List Match → σ
  | [] => s
  | m :: ms =>
    match visit m s with
    | (true, next) => present visit next ms
    | (false, last) => last

section Walk

variable {σ : Type} {p : Pattern} {source : Text} {visit : Match → Attempt σ}

theorem flatMap_preorder_cons (n : Node) (rest : List Node) :
    (n :: rest).flatMap (Node.preorder Label.isProper) =
      n :: (n.properChildren ++ rest).flatMap (Node.preorder Label.isProper) := by
  rw [List.flatMap_cons, Node.preorder_eq, List.cons_append, List.flatMap_append]
  rfl

/-- The stack holds the roots of what is still to be visited, in the order of the visits. -/
theorem walk_eq_present (s : σ) (pending : List Node) :
    p.walk source visit s pending =
      present visit s ((pending.flatMap (Node.preorder Label.isProper)).filterMap
        (p.matchAt? source)) := by
  induction s, pending using walk.induct p source visit with
  | case1 s => rw [walk]; rfl
  | case2 s n rest hm ih =>
      rw [walk, flatMap_preorder_cons, List.filterMap_cons_none hm]
      simp only [hm, ih]
  | case3 s n rest m hm next hv ih =>
      rw [walk, flatMap_preorder_cons, List.filterMap_cons_some hm]
      simp only [hm, hv, present, ih]
  | case4 s n rest m hm last hv =>
      rw [walk, flatMap_preorder_cons, List.filterMap_cons_some hm]
      simp only [hm, hv, present]

theorem walk_root (s : Source) (t : σ) :
    p.walk s.text visit t [s.root] = present visit t (p.allMatches s) := by
  rw [walk_eq_present, List.flatMap_singleton]
  rfl

end Walk

theorem present_collect {limit : Nat} {found : Array Match} (ms : List Match)
    (h : found.size < limit) :
    (present (collect limit) found ms).toList = found.toList ++ ms.take (limit - found.size) := by
  induction ms generalizing found with
  | nil => simp [present]
  | cons m ms ih =>
      by_cases hsize : (found.push m).size < limit
      · have hrest : limit - found.size = limit - (found.push m).size + 1 := by
          rw [Array.size_push] at hsize ⊢
          omega
        simp only [present, collect, hsize, decide_true, ih hsize, hrest, List.take_succ_cons,
          Array.toList_push, List.append_assoc, List.singleton_append]
      · have hrest : limit - found.size = 1 := by
          rw [Array.size_push] at hsize
          omega
        simp only [present, collect, hsize, decide_false, hrest, List.take_succ_cons,
          List.take_zero, Array.toList_push]

theorem findAll_eq_take (p : Pattern) (s : Source) :
    p.findAll s = (p.allMatches s).take p.config.maxMatches := by
  simp only [findAll]
  by_cases h : p.config.maxMatches = 0
  · rw [if_pos h, h, List.take_zero]
  · rw [if_neg h, walk_root, present_collect _ (by simp; omega)]
    simp

theorem findFirst?_eq_head? (p : Pattern) (s : Source) : p.findFirst? s = (p.allMatches s).head? := by
  simp only [findFirst?]
  rw [walk_root]
  cases p.allMatches s <;> rfl

theorem matchAt?_limitedTo (p : Pattern) (limit : Nat) :
    (p.limitedTo limit).matchAt? = p.matchAt? := by
  funext source n
  have h : (p.limitedTo limit).compare source p.config.maxDepth =
      p.compare source p.config.maxDepth := by
    funext a b
    exact p.compare_config _ source _ a b
  simp only [matchAt?]
  rw [← h]
  rfl

theorem allMatches_limitedTo (p : Pattern) (limit : Nat) (s : Source) :
    (p.limitedTo limit).allMatches s = p.allMatches s := by
  simp only [allMatches]
  rw [matchAt?_limitedTo]

theorem compile_limitedTo (grammar : Grammar) (config : Config) (limit : Nat) (t : Text) :
    compile grammar { config with maxMatches := limit } t =
      (compile grammar config t).map (limitedTo · limit) :=
  compile_update grammar (f := fun config => { config with maxMatches := limit }) (fun _ => rfl)
    config t

theorem map_snd_hits (p : Pattern) (s : Source) : (p.hits s).map Prod.snd = p.allMatches s := by
  simp only [hits, allMatches]
  rw [Node.preorder_eq_filterMap, List.map_filterMap, List.filterMap_filterMap]
  congr 1
  funext path
  cases s.root.at? path with
  | none => rfl
  | some n => cases hm : p.matchAt? s.text n <;> simp [hm]

theorem mem_hits_iff (p : Pattern) (s : Source) (path : List Nat) (m : Match) :
    (path, m) ∈ p.hits s ↔
      ∃ n, s.root.at? path = some n ∧ p.matchAt? s.text n = some m := by
  simp only [hits, List.mem_filterMap, Option.bind_eq_some_iff, Option.map_eq_some_iff,
    Prod.mk.injEq]
  constructor
  · rintro ⟨path, -, n, hn, m, hm, rfl, rfl⟩
    exact ⟨n, hn, hm⟩
  · rintro ⟨n, hn, hm⟩
    exact ⟨path, (s.root.mem_paths_iff path).mpr ⟨n, hn⟩, n, hn, m, hm, rfl, rfl⟩

theorem hits_sorted (p : Pattern) (s : Source) :
    ((p.hits s).map Prod.fst).Pairwise (· < ·) := by
  rw [List.pairwise_map]
  refine s.root.paths_sorted.filterMap _ ?_
  intro path path' hlt x hx y hy
  simp only [Option.bind_eq_some_iff, Option.map_eq_some_iff] at hx hy
  obtain ⟨-, -, -, -, rfl⟩ := hx
  obtain ⟨-, -, -, -, rfl⟩ := hy
  exact hlt

/-- A search is a walk over the nodes, parents first, that keeps what matches: the first `n` of it
under a limit of `n`, the first of it where one is wanted. The walk comes to each node once. -/
theorem search_eq_preorder (p : Pattern) (s : Source) :
    (∀ n, (p.limitedTo n).findAll s = (p.allMatches s).take n) ∧
      (∀ n, (p.limitedTo n).findFirst? s = (p.allMatches s).head?) ∧
      (p.hits s).map Prod.snd = p.allMatches s ∧
      ((p.hits s).map Prod.fst).Pairwise (· < ·) ∧
      ∀ path m, (path, m) ∈ p.hits s ↔
        ∃ n, s.root.at? path = some n ∧ p.matchAt? s.text n = some m := by
  refine ⟨fun n => ?_, fun n => ?_, p.map_snd_hits s, p.hits_sorted s, p.mem_hits_iff s⟩
  · rw [findAll_eq_take, allMatches_limitedTo]
    rfl
  · rw [findFirst?_eq_head?, allMatches_limitedTo]

end Pattern

end ShapeSearch
