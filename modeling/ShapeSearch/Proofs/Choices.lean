import Mathlib.Data.List.Flatten
import ShapeSearch.Proofs.Alternatives
import ShapeSearch.Proofs.Tightening

namespace ShapeSearch

open Attempt

namespace Wildcard

variable {w w' : Wildcard} {source : Text} {total : List Text}

def names (w : Wildcard) : List Text :=
  if w.ofVariable.name.isEmpty then [] else [w.ofVariable.name]

theorem bind_confined (w : Wildcard) (b : Binding) :
    Confined w.names (Captures.bind w.ofVariable.name b) := by
  refine .bind (fun hname => ?_) b
  simp [names, hname]

theorem Tighter.bindOne_simulates (h : w.Tighter w') (skipped : Nat) (n : Node) :
    Simulates total w.names (w.bindOne source skipped n) (w'.bindOne source skipped n) := by
  simp only [bindOne]
  rw [h.name, h.quantifier]
  refine .guard total (w.bind_confined _) fun hc => ?_
  rw [Bool.and_eq_true] at hc ⊢
  exact ⟨hc.1, h.accepts hc.2⟩

theorem Tighter.bindRun_simulates (h : w.Tighter w') (ns : List Node) (offset : Nat) :
    Simulates total w.names (w.bindRun source ns offset) (w'.bindRun source ns offset) := by
  simp only [bindRun]
  rw [h.name, h.quantifier]
  refine .guard total (w.bind_confined _) fun hc => ?_
  rw [Bool.and_eq_true, List.all_eq_true] at hc ⊢
  exact ⟨hc.1, fun n hn => h.accepts (hc.2 n hn)⟩

end Wildcard

namespace Pattern

def names (p : Pattern) (xs : List Node) : List Text :=
  xs.flatMap fun x => (p.wildcard? x).elim [] Wildcard.names

def allNames (p : Pattern) : List Text :=
  p.names (p.roots.flatMap (p.places p.config.maxDepth))

/-- The nodes of a list whose candidates can be divided in more than one way. -/
def choiceInOrder {α : Type} [Listed α] (p : Pattern) (nodes : α → List Node) (ps : List α) :
    List (List Node) :=
  if 2 ≤ (Element.runs (ps.map p.element)).length then [ps.flatMap nodes] else []

def choiceInAnyOrder {α : Type} (nodes : α → List Node) (ps : List α) : List (List Node) :=
  if 2 ≤ ps.length then [ps.flatMap nodes] else []

def choicesOf (p : Pattern) (a : Node) : Clause → List (List Node)
  | .elementsInOrder => p.choiceInOrder ([·]) a.elements
  | .childrenInOrder => p.choiceInOrder ([·]) a.significantChildren
  | .elementsInAnyOrder => choiceInAnyOrder ([·]) a.elements
  | .attributes => choiceInAnyOrder ([·]) a.outerAttributes
  | .tupleFields =>
    p.choiceInOrder TupleField.nodes a.tupleFields ++
      a.tupleFields.flatMap fun f => choiceInAnyOrder ([·]) f.attributes
  | .tokenGroups =>
    choiceInAnyOrder TokenGroup.tokens a.tokenGroups ++
      a.tokenGroups.flatMap fun g => p.choiceInOrder ([·]) g.tokens
  | _ => []

def choices (p : Pattern) : Nat → Node → List (List Node)
  | 0, _ => []
  | room + 1, a =>
    if (p.wildcard? a).isSome then []
    else (strategy a a).flatMap fun c =>
      (p.choicesOf a c).map (·.flatMap (p.places room)) ++ (c.compared a).flatMap (choices p room)

/-- Some places leave a variable out, or no name stands both there and elsewhere. -/
def Apart (p : Pattern) (i : Nat) (total : List Text) (xs : List Node) : Prop :=
  (∀ x ∈ xs, p.index? x ≠ some i) ∨ ∀ n ∈ p.names xs, (p.names xs).count n = total.count n

/-- No list that offers a choice holds a variable together with a name that also stands outside of
the list. -/
def Independent (p : Pattern) (i : Nat) : Prop :=
  ∀ r ∈ p.roots, ∀ xs ∈ p.choices p.config.maxDepth r, p.Apart i p.allNames xs

instance (p : Pattern) (i : Nat) (total : List Text) (xs : List Node) :
    Decidable (p.Apart i total xs) :=
  inferInstanceAs (Decidable (_ ∨ _))

instance (p : Pattern) (i : Nat) : Decidable (p.Independent i) :=
  inferInstanceAs (Decidable (∀ r ∈ p.roots, ∀ xs ∈ _, p.Apart i p.allNames xs))

variable {p p' : Pattern} {i room : Nat} {source : Text} {total : List Text}

theorem names_append (xs ys : List Node) : p.names (xs ++ ys) = p.names xs ++ p.names ys :=
  List.flatMap_append

theorem names_flatMap {α : Type} (as : List α) (f : α → List Node) :
    p.names (as.flatMap f) = as.flatMap fun a => p.names (f a) :=
  List.flatMap_assoc

theorem count_names_le {xs ys : List Node} (h : xs.Sublist ys)
    (hcount : ∀ n, (p.names ys).count n ≤ total.count n) (n : Text) :
    (p.names xs).count n ≤ total.count n :=
  Nat.le_trans ((h.flatMap _).count_le n) (hcount n)

theorem count_names_of_append {xs ys : List Node}
    (h : ∀ n, (p.names (xs ++ ys)).count n ≤ total.count n) :
    (∀ n, (p.names xs).count n ≤ total.count n) ∧ ∀ n, (p.names ys).count n ≤ total.count n := by
  simp only [names_append, List.count_append] at h
  exact ⟨fun n => by have := h n; omega, fun n => by have := h n; omega⟩

theorem sublist_flatMap_of_mem {α β : Type} {as : List α} {a : α} (h : a ∈ as) (f : α → List β) :
    (f a).Sublist (as.flatMap f) := by
  rw [List.flatMap_def]
  exact List.sublist_flatten_of_mem (List.mem_map_of_mem h)

theorem names_of_wildcard {x : Node} {w : Wildcard} (h : p.wildcard? x = some w) :
    p.names [x] = w.names := by
  simp [names, h]

/-- An attempt of a pattern and one of a tighter pattern, which depend on what stands at some
places. -/
structure Alike (p : Pattern) (i : Nat) (total : List Text) (xs : List Node)
    (a a' : Attempt Captures) : Prop where
  simulates : Simulates total (p.names xs) a a'
  eq (h : ∀ x ∈ xs, p.index? x ≠ some i) : a = a'

namespace Alike

variable {xs ys : List Node} {a a' b b' : Attempt Captures}

theorem refl (h : Confined (p.names xs) a) : Alike p i total xs a a :=
  ⟨.refl total h, fun _ => rfl⟩

theorem test (xs : List Node) (b : Bool) : Alike p i total xs (test b) (test b) :=
  refl (.test _ b)

theorem of_covers (hcovers : Covers (p.names xs) a a')
    (heq : (∀ x ∈ xs, p.index? x ≠ some i) → a = a')
    (h : Simulates total (p.names xs) a a' ∨ p.Apart i total xs) : Alike p i total xs a a' := by
  refine ⟨?_, heq⟩
  rcases h with h | hi | hn
  · exact h
  · rw [← heq hi]
    exact .refl total hcovers.confined
  · exact .of_covers hcovers hn

theorem andThen (ha : Alike p i total xs a a') (hb : Alike p i total ys b b')
    (hcount : ∀ n, (p.names (xs ++ ys)).count n ≤ total.count n) :
    Alike p i total (xs ++ ys) (andThen a b) (andThen a' b') := by
  constructor
  · rw [names_append] at hcount ⊢
    exact ha.simulates.andThen hcount hb.simulates
  · intro h
    rw [ha.eq fun x hx => h x (List.mem_append_left ys hx),
      hb.eq fun x hx => h x (List.mem_append_right xs hx)]

theorem all {ι : Type} {is : List ι} {places : ι → List Node} {f f' : ι → Attempt Captures}
    (h : ∀ j ∈ is, Alike p i total (places j) (f j) (f' j))
    (hcount : ∀ n, (p.names (is.flatMap places)).count n ≤ total.count n) :
    Alike p i total (is.flatMap places) (all (is.map f)) (all (is.map f')) := by
  constructor
  · rw [names_flatMap] at hcount ⊢
    exact .all (List.forall₂_same.mpr fun j hj => (h j hj).simulates) hcount
  · intro hi
    congr 1
    apply List.map_congr_left
    intro j hj
    exact (h j hj).eq fun x hx => hi x (List.mem_flatMap.mpr ⟨j, hj, hx⟩)

end Alike

theorem relatedAt_eq (h : Tightened i p p') {x : Node} (hx : p.index? x ≠ some i) :
    RelatedAt (· = ·) p p' source x :=
  fun _ hw => ⟨(h.wildcard_eq hx).trans hw, fun _ _ => rfl, fun _ _ => rfl⟩

theorem bindOne_alike (h : Tightened i p p') {x : Node} {w w' : Wildcard}
    (hw : p.wildcard? x = some w) (hw' : p'.wildcard? x = some w') (htighter : w.Tighter w')
    (skipped : Nat) (b : Node) :
    Alike p i total [x] (w.bindOne source skipped b) (w'.bindOne source skipped b) := by
  constructor
  · rw [names_of_wildcard hw]
    exact htighter.bindOne_simulates skipped b
  · intro hi
    have heq := h.wildcard_eq (hi x (List.mem_singleton_self x))
    rw [hw, hw', Option.some.injEq] at heq
    rw [heq]

section Lists

variable {α : Type} [Listed α] {nodes : α → List Node} {one one' : α → α → Attempt Captures}
  {ps : List α}

def elementNames (p : Pattern) (room : Nat) (nodes : α → List Node) :
    Element α Wildcard → List Text
  | .one a => p.names ((nodes a).flatMap (p.places room))
  | .run w => w.names

theorem elementNames_element (hnodes : ∀ a x, Listed.node? a = some x → nodes a = [x]) (a : α) :
    p.elementNames room nodes (p.element a) = p.names ((nodes a).flatMap (p.places room)) := by
  cases he : p.element a with
  | one b =>
      rw [eq_of_element_eq_one he]
      rfl
  | run w =>
      obtain ⟨x, hx, hw⟩ := wildcard_of_element_eq_run he
      rw [hnodes a x hx, List.flatMap_singleton, places_of_wildcard hw, names_of_wildcard hw]
      rfl

theorem flatMap_elementNames (p : Pattern) (room : Nat)
    (hnodes : ∀ a x, Listed.node? a = some x → nodes a = [x]) {ns : List Node}
    (hns : ps.flatMap nodes = ns) :
    (ps.map p.element).flatMap (p.elementNames room nodes) = p.names (ns.flatMap (p.places room)) := by
  rw [← hns, List.flatMap_map, List.flatMap_assoc, names_flatMap]
  exact List.flatMap_congr fun a _ => elementNames_element hnodes a

section Alike

variable (h : Tightened i p p') (hnodes : ∀ a x, Listed.node? a = some x → nodes a = [x])
  (hone : ∀ a ∈ ps, ∀ b,
    Alike p i total ((nodes a).flatMap (p.places room)) (one a b) (one' a b))
  {ns : List Node} (hns : ps.flatMap nodes = ns)
  (hcount : ∀ n, (p.names (ns.flatMap (p.places room))).count n ≤ total.count n)

include h hnodes hone hns hcount

omit hone hcount in
theorem relatedAt_node {a : α} (ha : a ∈ ps) {x : Node} (hx : Listed.node? a = some x)
    (hi : ∀ x ∈ ns.flatMap (p.places room), p.index? x ≠ some i) :
    RelatedAt (· = ·) p p' source x := by
  subst hns
  intro w hw
  refine relatedAt_eq h (hi x ?_) w hw
  refine List.mem_flatMap.mpr ⟨x, List.mem_flatMap.mpr ⟨a, ha, ?_⟩, ?_⟩
  · rw [hnodes a x hx]
    exact List.mem_singleton_self x
  · rw [places_of_wildcard hw]
    exact List.mem_singleton_self x

omit hnodes hns hcount in
theorem elements_simulate (source : Text) :
    List.Forall₂
      (Comparison.ElementSimulates (comparison source one) (comparison source one') total
        (p.elementNames room nodes))
      (ps.map p.element) (ps.map p'.element) := by
  rw [List.forall₂_map_left_iff, List.forall₂_map_right_iff, List.forall₂_same]
  intro a ha
  rcases h.element_cases a with ⟨he, he'⟩ | ⟨x, w, w', -, -, htighter, he, he'⟩
  · rw [he, he']
    exact .one fun b => (hone a ha b).simulates
  · rw [he, he']
    refine .run ⟨htighter.quantifier, htighter.accepts, fun cs offset => ?_⟩
    exact htighter.bindRun_simulates _ offset

omit h hone in
theorem count_elementNames_le (n : Text) :
    ((ps.map p.element).flatMap (p.elementNames room nodes)).count n ≤ total.count n := by
  rw [flatMap_elementNames p room hnodes hns]
  exact hcount n

omit [Listed α] h hnodes hcount in
theorem one_eq {a : α} (ha : a ∈ ps) (b : α)
    (hi : ∀ x ∈ ns.flatMap (p.places room), p.index? x ≠ some i) : one a b = one' a b := by
  subst hns
  refine (hone a ha b).eq fun x hx => hi x ?_
  obtain ⟨y, hy, hxy⟩ := List.mem_flatMap.mp hx
  exact List.mem_flatMap.mpr ⟨y, List.mem_flatMap.mpr ⟨a, ha, hy⟩, hxy⟩

theorem matchInOrder_alike
    (hapart : ∀ xs ∈ p.choiceInOrder nodes ps, p.Apart i total (xs.flatMap (p.places room)))
    (cs : List α) (parent : Node) :
    Alike p i total (ns.flatMap (p.places room))
      (p.matchInOrder source one ps cs parent) (p'.matchInOrder source one' ps cs parent) := by
  have helements := elements_simulate h hone source
  have hnames := flatMap_elementNames p room hnodes hns
  have hcount' := count_elementNames_le hnodes hns hcount
  refine .of_covers ?_ (fun hi => ?_) ?_
  · rw [← hnames]
    exact Comparison.inOrder_covers helements hcount' rfl _ _
  · exact matchInOrder_related eq_congruence h.sameShape (fun a ha b => one_eq hone hns ha b hi)
      (fun a ha x hx => relatedAt_node h hnodes hns ha hx hi) cs parent
  · -- where there is no choice, both patterns divide the candidates in the same way
    by_cases hchoice : 2 ≤ (Element.runs (ps.map p.element)).length
    · right
      apply hapart
      rw [choiceInOrder, if_pos hchoice, hns]
      exact List.mem_singleton_self _
    · left
      rw [← hnames]
      exact Comparison.inOrder_simulates helements hcount' rfl (by omega) _ _

theorem matchInAnyOrder_alike
    (hapart : ∀ xs ∈ choiceInAnyOrder nodes ps, p.Apart i total (xs.flatMap (p.places room)))
    (cs : List α) (parent : Node) :
    Alike p i total (ns.flatMap (p.places room))
      (p.matchInAnyOrder source one ps cs parent) (p'.matchInAnyOrder source one' ps cs parent) := by
  have helements := elements_simulate h hone source
  have hnames := flatMap_elementNames p room hnodes hns
  have hcount' := count_elementNames_le hnodes hns hcount
  refine .of_covers ?_ (fun hi => ?_) ?_
  · rw [← hnames]
    exact Comparison.anyOrder_covers helements hcount' _ _
  · exact matchInAnyOrder_related eq_congruence h.sameShape (fun a ha b => one_eq hone hns ha b hi)
      (fun a ha x hx => relatedAt_node h hnodes hns ha hx hi) cs parent
  · by_cases hchoice : 2 ≤ ps.length
    · right
      apply hapart
      rw [choiceInAnyOrder, if_pos hchoice, hns]
      exact List.mem_singleton_self _
    · left
      rw [← hnames]
      exact Comparison.anyOrder_simulates helements hcount' (by rw [List.length_map]; omega) _ _

end Alike

end Lists

end Pattern

end ShapeSearch
