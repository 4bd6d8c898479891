import ShapeSearch.Proofs.Lists

namespace ShapeSearch

def TupleField.nodes (f : TupleField) : List Node :=
  f.attributes ++ (f.visibility.toList ++ [f.type])

/-- The nodes below or in front of a pattern's node that a clause compares. -/
def Clause.compared (a : Node) : Clause → List Node
  | .part q => (q.of a).toList
  | .elementsInOrder | .elementsInAnyOrder => a.elements
  | .childrenInOrder => a.significantChildren
  | .attributes => a.outerAttributes
  | .tupleFields => a.tupleFields.flatMap TupleField.nodes
  | .tokenGroups => a.tokenGroups.flatMap (·.tokens)
  | .quotedName => (a.childOfKind? "identifier").toList
  | _ => []

namespace TupleField

theorem attributes_subset_nodes (f : TupleField) : f.attributes ⊆ f.nodes :=
  List.subset_append_left _ _

theorem visibility_subset_nodes (f : TupleField) : f.visibility.toList ⊆ f.nodes :=
  fun _ hx => List.mem_append_right _ (List.mem_append_left _ hx)

theorem type_mem_nodes (f : TupleField) : f.type ∈ f.nodes :=
  List.mem_append_right _ (List.mem_append_right _ (List.mem_singleton_self _))

theorem nodes_subset_compared {f : TupleField} {n : Node} (hf : f ∈ n.tupleFields) :
    f.nodes ⊆ Clause.tupleFields.compared n :=
  fun _ hx => List.mem_flatMap.mpr ⟨f, hf, hx⟩

end TupleField

theorem TokenGroup.tokens_subset_compared {g : TokenGroup} {n : Node} (hg : g ∈ n.tokenGroups) :
    g.tokens ⊆ Clause.tokenGroups.compared n :=
  fun _ hx => List.mem_flatMap.mpr ⟨g, hg, hx⟩

/-- The nodes that a clause compares one level further down. -/
def Clause.opened (a : Node) : Clause → List Node
  | .quotedName => []
  | c => c.compared a

theorem Clause.compared_of_opened {a x : Node} {c : Clause} (h : x ∈ c.opened a) :
    x ∈ c.compared a ∧ c ≠ .quotedName := by
  cases c with
  | quotedName => cases h
  | _ => exact ⟨h, nofun⟩

theorem Clause.opened_of_compared {a x : Node} {c : Clause} (hc : c ≠ .quotedName)
    (h : x ∈ c.compared a) : x ∈ c.opened a := by
  cases c with
  | quotedName => exact absurd rfl hc
  | _ => exact h

/-- What a node asks depends on the other node only where a type parameter meets another kind of
parameter. -/
theorem strategy_cases (a b : Node) :
    strategy a b = strategy a a ∨ (a.kind = "type_parameter" ∧ b.kind ≠ "type_parameter" ∧
      strategy a b = [.genericParameter, .sameText]) := by
  by_cases ha : a.kind = "type_parameter"
  · by_cases hb : b.kind = "type_parameter"
    · left
      simp only [strategy, ha, hb]
    · right
      refine ⟨ha, hb, ?_⟩
      simp [strategy, ha, hb]
  · left
    simp only [strategy]
    split <;> first | rfl | contradiction

theorem strategy_self (a b : Node) :
    strategy a b = strategy a a ∨ strategy a b = [.genericParameter, .sameText] :=
  (strategy_cases a b).imp_right fun h => h.2.2

/-- Only what a node asks of itself, too, compares any nodes. -/
theorem mem_strategy_self {a b x : Node} {c : Clause} (hc : c ∈ strategy a b)
    (hx : x ∈ c.compared a) : c ∈ strategy a a := by
  rcases strategy_self a b with hs | hs
  · exact hs ▸ hc
  · rw [hs] at hc
    simp only [List.mem_cons, List.not_mem_nil, or_false] at hc
    rcases hc with rfl | rfl <;> cases hx

theorem isScoped_of_pathName_mem {a b : Node} (h : .part .pathName ∈ strategy a b) :
    a.isScoped = true := by
  simp only [strategy] at h
  split at h
  all_goals
    repeat' split at h
    all_goals simp_all [Node.isScoped]

/-- The words that two nodes must both have, or neither. -/
def Clause.markerKinds : List String :=
  ["union", "static", "mutable_specifier", "const"]

theorem marker_mem_strategy {a b : Node} {kind : String} (h : .marker kind ∈ strategy a b) :
    kind ∈ Clause.markerKinds := by
  simp only [strategy] at h
  split at h
  all_goals
    repeat' split at h
    all_goals simp_all [Clause.markerKinds]
  all_goals
    rcases h with rfl | rfl <;> simp

/-- Nodes of which a wildcard can stand for the name behind a quote. -/
def Node.isQuoted (n : Node) : Bool :=
  n.kind == "lifetime" || n.kind == "label"

theorem strategy_of_quotedName_mem {a b : Node} (h : .quotedName ∈ strategy a b) :
    a.isQuoted = true ∧ strategy a b = [.kindAmong [a.kind], .quotedName] := by
  simp only [strategy] at h ⊢
  split at h
  all_goals
    repeat' split at h
    all_goals simp_all [Node.isQuoted]

namespace Pattern

/-- The wildcards that a comparison with a node can come to, each as often as it can. -/
def places (p : Pattern) : Nat → Node → List Node
  | 0, a => if (p.wildcard? a).isSome then [a] else []
  | room + 1, a =>
    if (p.wildcard? a).isSome then [a]
    else (strategy a a).flatMap fun c => (c.compared a).flatMap (places p room)

theorem places_of_wildcard {p : Pattern} {a : Node} {w : Wildcard} (h : p.wildcard? a = some w)
    (room : Nat) : p.places room a = [a] := by
  cases room <;> simp [places, h]

theorem places_succ {p : Pattern} {a : Node} (h : p.wildcard? a = none) (room : Nat) :
    p.places (room + 1) a =
      (strategy a a).flatMap fun c => (c.compared a).flatMap (p.places room) := by
  simp [places, h]

inductive ComesTo (p : Pattern) : Node → Prop
  | root {r : Node} (hr : r ∈ p.roots) : ComesTo p r
  | step {a x : Node} {c : Clause} (ha : ComesTo p a) (hw : p.wildcard? a = none)
      (hc : c ∈ strategy a a) (hx : x ∈ c.opened a) : ComesTo p x

theorem compare_of_wildcard {p : Pattern} {a : Node} {w : Wildcard} (h : p.wildcard? a = some w)
    (source : Text) (room : Nat) (b : Node) :
    p.compare source room a b = w.bindOne source 0 b := by
  cases room <;> simp only [compare, h]

section Element

variable {α : Type} [Listed α] {p : Pattern} {a : α}

theorem eq_of_element_eq_one {b : α} (h : p.element a = .one b) : b = a := by
  simp only [element] at h
  split at h
  · split at h
    · exact (Element.one.inj h).symm
    · cases h
  · exact (Element.one.inj h).symm

theorem wildcard_of_element_eq_run {w : Wildcard} (h : p.element a = .run w) :
    ∃ x, Listed.node? a = some x ∧ p.wildcard? x = some w := by
  simp only [element] at h
  split at h
  next w' hw =>
    split at h
    · cases h
    · rw [Element.run.injEq] at h
      exact h ▸ Option.bind_eq_some_iff.mp hw
  next => cases h

end Element

end Pattern

end ShapeSearch
