import Mathlib.Data.List.Chain
import ShapeSearch.Proofs.Descendants
import ShapeSearch.Proofs.Preorder
import ShapeSearch.Proofs.Soundness

namespace ShapeSearch

namespace Node

theorem later_of_mem_row {above : List String} {before ts : List Tree} {y e : Node}
    (hy : y ∈ row above before ts) (he : e ∈ y.later) : e ∈ row above before ts := by
  induction ts generalizing before with
  | nil => cases hy
  | cons t ts ih =>
      rcases List.mem_cons.mp hy with rfl | hy
      · exact List.mem_cons_of_mem _ he
      · exact List.mem_cons_of_mem _ (ih hy)

theorem nextItem_below {n y z : Node} (hn : n.after = []) (hy : y ∈ n.below)
    (hz : y.nextItem? = some z) : z ∈ n.below := by
  have hlater : z ∈ y.later := List.mem_of_find?_eq_some hz
  rcases exists_parent_of_mem_below hy with rfl | ⟨x, hx, hyx⟩
  · simp only [later, hn, row, List.not_mem_nil] at hlater
  · exact children_below hx (later_of_mem_row hyx hlater)

theorem isProper_of_nextItem {y z : Node} (h : y.nextItem? = some z) :
    z.label.isProper = true ∧ z.isAttributeItem = false := by
  have hz := List.find?_some h
  simpa using hz

end Node

def Match.map (f : Node → Node) (m : Match) : Match :=
  ⟨m.nodes.map f, m.captures⟩

theorem Match.map_id' (m : Match) : m.map id = m := by
  simp [map]

namespace Pattern

variable {p : Pattern} {source : Text}

/-- A run of nodes in which each is the next item after the one before. -/
def Consecutive (ns : List Node) : Prop :=
  ns.IsChain fun a b => a.nextItem? = some b

theorem follow_nodes {cmp : Node → Node → Attempt Captures} {roots : List Node}
    {next : Option Node} {s : Captures} {m : Match} (h : follow cmp roots next s = some m) :
    (∀ n, m.nodes.head? = some n → next = some n) ∧ Consecutive m.nodes := by
  induction roots generalizing next s m with
  | nil =>
      rw [follow, Option.some.injEq] at h
      subst h
      refine ⟨fun n hn => ?_, List.isChain_nil⟩
      cases hn
  | cons r roots ih =>
      cases next with
      | none => cases h
      | some n =>
          obtain ⟨-, rest, hrest, rfl⟩ := follow_cons_eq_some.mp h
          obtain ⟨hhead, hchain⟩ := ih hrest
          refine ⟨fun x hx => hx, ?_⟩
          rw [Consecutive, List.isChain_cons]
          exact ⟨fun x hx => hhead x hx, hchain⟩

theorem forall_mem_nodes {S : Node → Prop} {n : Node} {m : Match}
    (h : p.matchAt? source n = some m) (hn : S n)
    (hstep : ∀ x y, S x → x.nextItem? = some y → S y) : ∀ x ∈ m.nodes, S x := by
  obtain ⟨-, -, hfollow⟩ := matchAt?_eq_some_iff.mp h
  obtain ⟨hhead, hchain⟩ := follow_nodes hfollow
  clear h hfollow
  generalize m.nodes = ns at hhead hchain
  induction ns generalizing n with
  | nil => simp
  | cons x ns ih =>
      obtain rfl : n = x := Option.some.inj (hhead x rfl)
      rw [Consecutive, List.isChain_cons] at hchain
      refine List.forall_mem_cons.mpr ⟨hn, ?_⟩
      cases ns with
      | nil => simp
      | cons y ns =>
          have hxy := hchain.1 y rfl
          exact ih (hstep _ _ hn hxy) (fun z hz => hz) hchain.2

theorem nodes_subset {s : Source} {n : Node} {m : Match} (hn : n ∈ s.nodes)
    (h : p.matchAt? s.text n = some m) : ∀ x ∈ m.nodes, x ∈ s.nodes :=
  forall_mem_nodes h hn fun _ _ => Node.nextItem_below rfl

theorem exists_accepts_of_mem_roots {s : Source} {n : Node} {m : Match} (hn : n ∈ s.nodes)
    (h : p.matchAt? s.text n = some m) {r : Node} (hr : r ∈ p.roots) :
    ∃ b ∈ s.nodes, (p.compare s.text p.config.maxDepth r b).Accepts m.captures := by
  obtain ⟨b, hb, haccepts⟩ := Comparison.forall₂_exists_left (accepts_of_matchAt? h).flip r hr
  exact ⟨b, nodes_subset hn h b hb, haccepts⟩

/-- A match that a search or an attempt at one node of a source gives. -/
inductive Reports (p : Pattern) (s : Source) (m : Match) : Prop
  | all (h : m ∈ p.findAll s)
  | first (h : p.findFirst? s = some m)
  | single {n : Node} (hn : n ∈ s.nodes) (h : p.matchAt? s.text n = some m)

theorem exists_matchAt?_of_mem_allMatches {s : Source} {m : Match} (h : m ∈ p.allMatches s) :
    ∃ n ∈ s.nodes, p.matchAt? s.text n = some m := by
  obtain ⟨n, hn, hm⟩ := List.mem_filterMap.mp h
  exact ⟨n, Node.mem_below_of_mem_preorder hn, hm⟩

theorem Reports.exists_matchAt? {s : Source} {m : Match} (h : p.Reports s m) :
    ∃ n ∈ s.nodes, p.matchAt? s.text n = some m := by
  cases h with
  | all h =>
      rw [findAll_eq_take] at h
      exact exists_matchAt?_of_mem_allMatches (List.mem_of_mem_take h)
  | first h =>
      rw [findFirst?_eq_head?] at h
      exact exists_matchAt?_of_mem_allMatches (List.mem_of_head? h)
  | single hn h => exact ⟨_, hn, h⟩

section Map

variable {f g : Node → Node} {T : Node → Prop} {p' : Pattern}

theorem follow_map {cmp cmp' : Node → Node → Attempt Captures} {roots : List Node}
    (hcmp : ∀ r ∈ roots, ∀ b, T b → cmp' (f r) (g b) = cmp r b)
    (hnext : ∀ b, T b → (g b).nextItem? = b.nextItem?.map g)
    (hT : ∀ b c, T b → b.nextItem? = some c → T c) {next : Option Node}
    (hn : ∀ b, next = some b → T b) (s : Captures) :
    follow cmp' (roots.map f) (next.map g) s = (follow cmp roots next s).map (Match.map g) := by
  induction roots generalizing next s with
  | nil => rfl
  | cons r roots ih =>
      cases next with
      | none => rfl
      | some n =>
          have hTn := hn n rfl
          have ih' := ih (fun x hx => hcmp x (List.mem_cons_of_mem r hx))
            fun b hb => hT n b hTn hb
          simp only [List.map_cons, Option.map_some, follow, hcmp r List.mem_cons_self n hTn,
            hnext n hTn, ih']
          split
          · simp only [Option.map_map]
            rfl
          · rfl

theorem matchAt?_map (hface : Node.Face g) (hroots : p'.roots = p.roots.map f)
    (hconfig : p'.config = p.config)
    (hcmp : ∀ r ∈ p.roots, ∀ b, T b →
      p'.compare source p.config.maxDepth (f r) (g b) = p.compare source p.config.maxDepth r b)
    (hnext : ∀ b, T b → (g b).nextItem? = b.nextItem?.map g)
    (hT : ∀ b c, T b → b.nextItem? = some c → T c) {n : Node} (hn : n.label.extra = false → T n) :
    p'.matchAt? source (g n) = (p.matchAt? source n).map (Match.map g) := by
  simp only [matchAt?, hface.isAttributeItem, hface.label, hroots, hconfig]
  split
  · rfl
  next hproper =>
    rw [Bool.or_eq_true, not_or, Bool.not_eq_true, Bool.not_eq_true] at hproper
    have hnext' : ∀ b, some n = some b → T b := fun b hb => Option.some.inj hb ▸ hn hproper.2
    have hfollow := follow_map hcmp hnext hT hnext' []
    exact hfollow

end Map

end Pattern

end ShapeSearch
