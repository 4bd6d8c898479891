import Mathlib.Order.Nat
import ShapeSearch.Proofs.MatchedNodes
import ShapeSearch.Proofs.Pairing
import ShapeSearch.Proofs.Preorder

namespace ShapeSearch

namespace Node

/-- Goes down along every step of a comparison: to a child, and to an attribute in front. -/
def weight (n : Node) : Nat :=
  n.tree.size + Tree.sizeAll n.before

theorem weight_pos (n : Node) : 0 < n.weight := by
  rw [weight, Tree.size_eq]
  omega

theorem weight_le_of_mem_row {above : List String} {before ts : List Tree} {y : Node}
    (h : y ∈ row above before ts) : y.weight ≤ Tree.sizeAll ts + Tree.sizeAll before := by
  induction ts generalizing before with
  | nil => cases h
  | cons t ts ih =>
      simp only [row, List.mem_cons] at h
      simp only [Tree.sizeAll]
      rcases h with rfl | h
      · simp only [weight]
        omega
      · have hle := ih h
        simp only [Tree.sizeAll] at hle
        omega

theorem weight_le_of_mem_rowBack {above : List String} {after ts : List Tree} {y : Node}
    (h : y ∈ rowBack above after ts) : y.weight ≤ Tree.sizeAll ts := by
  induction ts generalizing after with
  | nil => cases h
  | cons t ts ih =>
      simp only [rowBack, List.mem_cons] at h
      simp only [Tree.sizeAll]
      rcases h with rfl | h
      · simp only [weight, Nat.le_refl]
      · have hle := ih h
        omega

theorem weight_lt_of_mem_children {n y : Node} (h : y ∈ n.children) :
    y.weight < n.tree.size := by
  have hle := weight_le_of_mem_row h
  simp only [Tree.sizeAll] at hle
  rw [Tree.size_eq]
  omega

theorem weight_lt_of_near {n y : Node} (h : y ∈ n.children ∨ y ∈ n.outerAttributes) :
    y.weight < n.weight := by
  rcases h with h | h
  · have hlt := weight_lt_of_mem_children h
    simp only [weight] at hlt ⊢
    omega
  · have hle := weight_le_of_mem_rowBack (mem_earlier_of_mem_outerAttributes h)
    rw [weight, weight, Tree.size_eq n.tree]
    simp only [weight] at hle
    omega

theorem weight_le_of_mem_below {n y : Node} (h : y ∈ n.below) : y.weight ≤ n.weight := by
  induction n using childInduct with
  | step n ih =>
      rcases mem_below_iff.mp h with rfl | ⟨c, hc, hyc⟩
      · exact Nat.le_refl _
      · exact (ih c hc hyc).trans (weight_lt_of_near (.inl hc)).le

end Node

theorem Clause.weight_lt_of_opened {a x : Node} {c : Clause} (hc : c ∈ strategy a a)
    (h : x ∈ c.opened a) : x.weight < a.weight := by
  rcases c.compared_near (compared_of_opened h).1 with ⟨-, rfl, hscoped⟩ | hnear
  · rw [isScoped_of_pathName_mem hc] at hscoped
    cases hscoped
  · exact Node.weight_lt_of_near hnear

namespace Pattern

/-- The nodes, other than wildcards, that a comparison with `a` comes to after so many levels. -/
def structuralAt (p : Pattern) : Nat → Node → List Node
  | 0, a => if (p.wildcard? a).isSome then [] else [a]
  | level + 1, a =>
    if (p.wildcard? a).isSome then []
    else (strategy a a).flatMap fun c => (c.opened a).flatMap (structuralAt p level)

def structuralLevel (p : Pattern) (level : Nat) : List Node :=
  p.roots.flatMap (p.structuralAt level)

/-- The nodes that are compared by their structure. A level that holds any is no higher than the
tree has nodes. -/
def structuralNodes (p : Pattern) : List Node :=
  (List.range p.parsed.tree.size).flatMap p.structuralLevel

variable {p : Pattern} {source : Text} {e : Captures}

theorem structuralAt_succ {a : Node} (h : p.wildcard? a = none) (level : Nat) :
    p.structuralAt (level + 1) a =
      (strategy a a).flatMap fun c => (c.opened a).flatMap (p.structuralAt level) := by
  simp [structuralAt, h]

theorem structuralAt_of_wildcard {a : Node} {w : Wildcard} (h : p.wildcard? a = some w)
    (level : Nat) : p.structuralAt level a = [] := by
  cases level <;> simp [structuralAt, h]

theorem mem_structuralAt_zero_iff {a y : Node} :
    y ∈ p.structuralAt 0 a ↔ p.wildcard? a = none ∧ y = a := by
  cases h : p.wildcard? a <;> simp [structuralAt, h]

theorem mem_structuralAt_succ_iff {level : Nat} {a y : Node} : y ∈ p.structuralAt (level + 1) a ↔
    p.wildcard? a = none ∧
      ∃ c ∈ strategy a a, ∃ x ∈ c.opened a, y ∈ p.structuralAt level x := by
  cases h : p.wildcard? a with
  | none => simp only [structuralAt_succ h, List.mem_flatMap, true_and]
  | some w => simp [structuralAt_of_wildcard h]

theorem level_lt_weight {level : Nat} {a y : Node} (h : y ∈ p.structuralAt level a) :
    level < a.weight := by
  induction level generalizing a with
  | zero => exact a.weight_pos
  | succ level ih =>
      obtain ⟨-, c, hc, x, hx, h⟩ := mem_structuralAt_succ_iff.mp h
      have hlevel := ih h
      have hweight := Clause.weight_lt_of_opened hc hx
      omega

theorem structuralAt_eq_nil_mono {level level' : Nat} {a : Node} (hle : level ≤ level')
    (h : p.structuralAt level a = []) : p.structuralAt level' a = [] := by
  induction level generalizing a level' with
  | zero =>
      cases hw : p.wildcard? a with
      | some w => exact structuralAt_of_wildcard hw level'
      | none => simp [structuralAt, hw] at h
  | succ level ih =>
      obtain ⟨level', rfl⟩ := Nat.exists_eq_add_of_le' (Nat.one_le_of_lt hle)
      cases hw : p.wildcard? a with
      | some w => exact structuralAt_of_wildcard hw _
      | none =>
          rw [structuralAt_succ hw, List.flatMap_eq_nil_iff] at h ⊢
          intro c hc
          have hx := List.flatMap_eq_nil_iff.mp (h c hc)
          exact List.flatMap_eq_nil_iff.mpr fun x hxc =>
            ih (Nat.le_of_succ_le_succ hle) (hx x hxc)

theorem level_lt_size {level : Nat} {y : Node} (h : y ∈ p.structuralLevel level) :
    level < p.parsed.tree.size := by
  obtain ⟨r, hr, hy⟩ := List.mem_flatMap.mp h
  have hlevel := level_lt_weight hy
  have hweight := Node.weight_le_of_mem_below (p.roots_subset r hr)
  have hroot : p.parsed.root.weight = p.parsed.tree.size := rfl
  omega

theorem mem_structuralNodes_iff {y : Node} :
    y ∈ p.structuralNodes ↔ ∃ level, y ∈ p.structuralLevel level := by
  simp only [structuralNodes, List.mem_flatMap, List.mem_range]
  exact ⟨fun ⟨level, _, hy⟩ => ⟨level, hy⟩, fun ⟨level, hy⟩ => ⟨level, level_lt_size hy, hy⟩⟩

theorem structuralLevel_size (p : Pattern) : p.structuralLevel p.parsed.tree.size = [] :=
  List.eq_nil_iff_forall_not_mem.mpr fun _ hy => Nat.lt_irrefl _ (level_lt_size hy)

theorem exists_structuralLevel_eq_nil (p : Pattern) : ∃ level, p.structuralLevel level = [] :=
  ⟨_, p.structuralLevel_size⟩

/-- The number of levels that a match descends, whatever it stands against. -/
def depth (p : Pattern) : Nat :=
  Nat.find p.exists_structuralLevel_eq_nil

theorem depth_le_iff {level : Nat} : p.depth ≤ level ↔ p.structuralLevel level = [] := by
  refine ⟨fun h => ?_, fun h => Nat.find_min' _ h⟩
  have hdepth : p.structuralLevel p.depth = [] := Nat.find_spec p.exists_structuralLevel_eq_nil
  simp only [structuralLevel, List.flatMap_eq_nil_iff] at hdepth ⊢
  exact fun r hr => structuralAt_eq_nil_mono h (hdepth r hr)

theorem depth_le_size (p : Pattern) : p.depth ≤ p.parsed.tree.size :=
  depth_le_iff.mpr p.structuralLevel_size

/-- A type parameter is compared by its text alone with a parameter of another kind. This keeps the
two apart, so that a type parameter is always compared with its like. -/
def ApartFrom (p : Pattern) (source : Text) (a b : Node) : Prop :=
  a.kind = "type_parameter" → b.isGenericParameter = true → b.kind ≠ "type_parameter" →
    a.text p.parsed.text ≠ b.text source

def ParametersApart (p : Pattern) (s : Source) : Prop :=
  ∀ a ∈ p.structuralNodes, ∀ b ∈ s.nodes, p.ApartFrom s.text a b

instance (p : Pattern) (s : Source) : Decidable (p.ParametersApart s) :=
  inferInstanceAs (Decidable (∀ a ∈ p.structuralNodes, ∀ b ∈ s.nodes, _ = _ → _ = _ → ¬_ → ¬_))

theorem strategy_of_accepts {room : Nat} {a b : Node} (hw : p.wildcard? a = none)
    (hapart : p.ApartFrom source a b) (h : (p.compare source (room + 1) a b).Accepts e) :
    strategy a b = strategy a a := by
  rcases strategy_cases a b with hs | ⟨ha, hb, hs⟩
  · exact hs
  · have hparameter := accepts_ask hw h (c := .genericParameter) (by simp [hs])
    have htext := accepts_ask hw h (c := .sameText) (by simp [hs])
    exact absurd (by simpa using htext.test) (hapart ha hparameter.test hb)

theorem not_accepts_zero {a b : Node} (hw : p.wildcard? a = none) :
    ¬(p.compare source 0 a b).Accepts e := by
  intro h
  simp only [compare, hw] at h
  exact absurd h.test (by simp)

theorem demands_of_accepts {room : Nat} {a b : Node} {c : Clause} (hw : p.wildcard? a = none)
    (hapart : p.ApartFrom source a b) (h : (p.compare source (room + 1) a b).Accepts e)
    (hc : c ∈ strategy a a) :
    p.Demands source e (fun x y => (p.compare source room x y).Accepts e) a b c := by
  have hs := strategy_of_accepts hw hapart h
  exact ask_sound (p.compare_grows source room) (accepts_ask hw h (hs ▸ hc))

theorem structuralAt_of_accepts {S : Node → Prop} (hS : Node.Stable S) {room : Nat} {a b : Node}
    (hb : S b)
    (hapart : ∀ level, ∀ x ∈ p.structuralAt level a, ∀ y, S y → p.ApartFrom source x y)
    (h : (p.compare source room a b).Accepts e) : p.structuralAt room a = [] := by
  induction room generalizing a b with
  | zero =>
      cases hw : p.wildcard? a with
      | some w => exact structuralAt_of_wildcard hw 0
      | none => exact absurd h (not_accepts_zero hw)
  | succ room ih =>
      cases hw : p.wildcard? a with
      | some w => exact structuralAt_of_wildcard hw _
      | none =>
          have hself : a ∈ p.structuralAt 0 a := mem_structuralAt_zero_iff.mpr ⟨hw, rfl⟩
          rw [structuralAt_succ hw, List.flatMap_eq_nil_iff]
          intro c hc
          rw [List.flatMap_eq_nil_iff]
          intro x hx
          obtain ⟨hcompared, hquoted⟩ := Clause.compared_of_opened hx
          have hdemands := demands_of_accepts hw (hapart 0 a hself b hb) h hc
          rcases hdemands.paired hcompared with ⟨w, hwx, -⟩ | ⟨y, hy, haccepts⟩ | ⟨hname, -⟩
          · exact structuralAt_of_wildcard hwx room
          · refine ih (hS b y hb c hy) (fun level z hz => ?_) haccepts
            exact hapart (level + 1) z (mem_structuralAt_succ_iff.mpr ⟨hw, c, hc, x, hx, hz⟩)
          · exact absurd hname hquoted

/-- More room than there are levels makes no difference. -/
theorem compare_eq_of_structuralAt {room room' : Nat} {a : Node} (hle : room ≤ room')
    (h : p.structuralAt room a = []) (b : Node) :
    p.compare source room' a b = p.compare source room a b := by
  induction room generalizing a b room' with
  | zero =>
      cases hw : p.wildcard? a with
      | some w => rw [compare_of_wildcard hw, compare_of_wildcard hw]
      | none => simp [structuralAt, hw] at h
  | succ room ih =>
      obtain ⟨room', rfl⟩ := Nat.exists_eq_add_of_le' (Nat.one_le_of_lt hle)
      cases hw : p.wildcard? a with
      | some w => rw [compare_of_wildcard hw, compare_of_wildcard hw]
      | none =>
          simp only [compare, hw]
          congr 1
          apply List.map_congr_left
          intro c hc
          have hat (x : Node) : RelatedAt (· = ·) p p source x :=
            fun _ hwx => ⟨hwx, fun _ _ => rfl, fun _ _ => rfl⟩
          by_cases hquoted : c = .quotedName
          · subst hquoted
            rfl
          · refine ask_related Attempt.eq_congruence (.refl p) _ hc (fun x hx y => ?_)
              fun x _ => hat x
            rw [structuralAt_succ hw, List.flatMap_eq_nil_iff] at h
            have hself : c ∈ strategy a a := mem_strategy_self hc hx
            have hopened : x ∈ c.opened a := Clause.opened_of_compared hquoted hx
            exact ih (Nat.le_of_succ_le_succ hle)
              (List.flatMap_eq_nil_iff.mp (h c hself) x hopened) y

def deepTo (p : Pattern) (limit : Nat) : Pattern :=
  { p with config := { p.config with maxDepth := limit } }

theorem compare_deepTo (p : Pattern) (limit : Nat) (source : Text) (room : Nat) (a b : Node) :
    (p.deepTo limit).compare source room a b = p.compare source room a b :=
  p.compare_config _ source room a b

theorem matchAt?_deepTo (p : Pattern) (limit : Nat) (source : Text) (n : Node) :
    (p.deepTo limit).matchAt? source n = if n.isAttributeItem || n.label.extra then none
      else follow (p.compare source limit) p.roots (some n) [] := by
  have h : (p.deepTo limit).compare source limit = p.compare source limit := by
    funext a b
    exact p.compare_deepTo limit source limit a b
  rw [← h]
  rfl

theorem compile_deepTo (grammar : Grammar) (config : Config) (limit : Nat) (t : Text) :
    compile grammar { config with maxDepth := limit } t =
      (compile grammar config t).map (deepTo · limit) :=
  compile_update grammar (f := fun config => { config with maxDepth := limit }) (fun _ => rfl) config t

theorem depth_deepTo (p : Pattern) (limit : Nat) : (p.deepTo limit).depth = p.depth := by
  have hstructural (level : Nat) (a : Node) :
      (p.deepTo limit).structuralAt level a = p.structuralAt level a := by
    induction level generalizing a with
    | zero => rfl
    | succ level ih => simp only [structuralAt, funext ih]; rfl
  have hlevel (level : Nat) : (p.deepTo limit).structuralLevel level = p.structuralLevel level := by
    simp only [structuralLevel, funext (hstructural level)]
    rfl
  refine eq_of_forall_ge_iff fun level => ?_
  rw [depth_le_iff, depth_le_iff, hlevel]

theorem matchAt?_of_lt_depth {limit : Nat} {s : Source} {n : Node} (hlimit : limit < p.depth)
    (hapart : p.ParametersApart s) (hn : n ∈ s.nodes) :
    (p.deepTo limit).matchAt? s.text n = none := by
  refine Option.eq_none_iff_forall_ne_some.mpr fun m hm => absurd hlimit ?_
  rw [Nat.not_lt, depth_le_iff, structuralLevel, List.flatMap_eq_nil_iff]
  intro r hr
  obtain ⟨b, hb, haccepts⟩ := exists_accepts_of_mem_roots hn hm hr
  refine structuralAt_of_accepts s.nodes_closed.stable hb (fun level x hx y hy => ?_)
    (p.compare_deepTo limit s.text limit r b ▸ haccepts)
  exact hapart x (mem_structuralNodes_iff.mpr ⟨level, List.mem_flatMap.mpr ⟨r, hr, hx⟩⟩) y hy

theorem follow_congr {cmp cmp' : Node → Node → Attempt Captures} {roots : List Node}
    (h : ∀ r ∈ roots, ∀ b, cmp' r b = cmp r b) (next : Option Node) (s : Captures) :
    follow cmp' roots next s = follow cmp roots next s := by
  have hmap := follow_map (f := id) (g := id) (T := fun _ => True) (fun r hr b _ => h r hr b)
    (fun _ _ => by simp) (fun _ _ _ _ => trivial) (fun b (_ : next = some b) => trivial) s
  simpa [funext Match.map_id'] using hmap

theorem matchAt?_of_depth_le {limit : Nat} (hlimit : p.depth ≤ limit) (source : Text) (n : Node) :
    (p.deepTo limit).matchAt? source n = (p.deepTo p.depth).matchAt? source n := by
  have hnil : p.structuralLevel p.depth = [] := depth_le_iff.mp (Nat.le_refl _)
  simp only [structuralLevel, List.flatMap_eq_nil_iff] at hnil
  rw [matchAt?_deepTo, matchAt?_deepTo]
  congr 1
  exact follow_congr (fun r hr b => compare_eq_of_structuralAt hlimit (hnil r hr) b) (some n) []

/-- There is a depth, fixed by the template and its tree, below which no limit admits a match and
above which no limit makes a difference. -/
theorem depth_limit {grammar : Grammar} {config : Config} {t : Text} {p : Pattern}
    (hp : compile grammar config t = .ok p) :
    p.depth ≤ p.parsed.tree.size ∧
    (∀ limit, compile grammar { config with maxDepth := limit } t = .ok (p.deepTo limit) ∧
      (p.deepTo limit).depth = p.depth) ∧
    (∀ limit, limit < p.depth → ∀ s, p.ParametersApart s → ∀ n ∈ s.nodes,
      (p.deepTo limit).matchAt? s.text n = none) ∧
    (∀ limit, p.depth ≤ limit → ∀ source n,
      (p.deepTo limit).matchAt? source n = (p.deepTo p.depth).matchAt? source n) ∧
    ∀ limit limit', limit ≤ limit' → ∀ s, p.ParametersApart s → ∀ n ∈ s.nodes, ∀ m,
      (p.deepTo limit).matchAt? s.text n = some m → (p.deepTo limit').matchAt? s.text n = some m := by
  refine ⟨p.depth_le_size, fun limit => ⟨?_, p.depth_deepTo limit⟩,
    fun limit hlimit s hapart n hn => matchAt?_of_lt_depth hlimit hapart hn,
    fun limit hlimit source n => matchAt?_of_depth_le hlimit source n, ?_⟩
  · rw [compile_deepTo, hp]
    rfl
  · intro limit limit' hle s hapart n hn m hm
    rcases Nat.lt_or_ge limit p.depth with hlimit | hlimit
    · rw [matchAt?_of_lt_depth hlimit hapart hn] at hm
      cases hm
    · rwa [matchAt?_of_depth_le (hlimit.trans hle), ← matchAt?_of_depth_le hlimit]

/-- The tree of `struct b<T, x>;`, where the parameter `x` ends at a byte. -/
def parameters (kind name : String) (last : Nat) : Tree :=
  .named "source_file" none 0 (last + 2) [.named "struct_item" none 0 (last + 2) [.token "struct" 0 6,
    .named "type_identifier" (some "name") 7 8 [],
    .named "type_parameters" (some "type_parameters") 8 (last + 1) [.token "<" 8 9,
      .named "type_parameter" none 9 10 [.named "type_identifier" (some "name") 9 10 []],
      .token "," 10 11, .named kind none 12 last [.named name (some "name") 12 last []],
      .token ">" last (last + 1)],
    .token ";" (last + 1) (last + 2)]]

def parameterGrammar : Grammar := fun t =>
  if t.contains '\'' then parameters "lifetime_parameter" "lifetime" (t.bytes - 2)
  else parameters "type_parameter" "type_identifier" (t.bytes - 2)

def parameterSource : Source := .ofText parameterGrammar "struct b<T, 'a>;".toList

theorem depth_limit_of_parameters : ∃ p n m,
    compile parameterGrammar .default "struct b<T, '_rest:*>;".toList = .ok p ∧
      p.ParametersApart parameterSource ∧ n ∈ parameterSource.nodes ∧ 3 < p.depth ∧
      (p.deepTo 3).matchAt? parameterSource.text n = none ∧ p.depth ≤ 4 ∧
      (p.deepTo 4).matchAt? parameterSource.text n = some m ∧
      (p.deepTo UInt64.size).matchAt? parameterSource.text n = some m := by
  have h : ((compile parameterGrammar .default "struct b<T, '_rest:*>;".toList).toOption.bind
      fun p => parameterSource.root.items.head?.bind fun n =>
        ((p.deepTo 4).matchAt? parameterSource.text n).map fun _ =>
          decide (p.ParametersApart parameterSource) && !(p.structuralLevel 3).isEmpty &&
            (p.structuralLevel 4).isEmpty) = some true := by
    decide +kernel
  simp only [Option.bind_eq_some_iff, Option.map_eq_some_iff, Bool.and_eq_true, decide_eq_true_eq,
    Bool.not_eq_true', List.isEmpty_eq_false_iff, List.isEmpty_iff] at h
  obtain ⟨p, hp, n, hn, m, hm, ⟨hapart, hlevel⟩, hnil⟩ := h
  have hp := ok_of_toOption hp
  have hnode : n ∈ parameterSource.nodes :=
    Node.children_below parameterSource.root_mem_nodes
      (Node.mem_properChildren (List.mem_of_mem_filter (List.mem_of_head? hn)))
  have hlt : 3 < p.depth := Nat.lt_of_not_le fun hle => hlevel (depth_le_iff.mp hle)
  have hle : p.depth ≤ 4 := depth_le_iff.mpr hnil
  obtain ⟨-, -, hbelow, -, hmono⟩ := depth_limit hp
  exact ⟨p, n, m, hp, hapart, hnode, hlt, hbelow 3 hlt parameterSource hapart n hnode, hle, hm,
    hmono 4 UInt64.size (by decide) parameterSource hapart n hnode m hm⟩

end Pattern

end ShapeSearch
