import ShapeSearch.Proofs.Choices
import ShapeSearch.Proofs.Echoes
import ShapeSearch.Proofs.Independence
import ShapeSearch.Proofs.Soundness

namespace ShapeSearch

open Attempt

def Variable.rename (r : Renaming) (v : Variable) : Variable :=
  { v with name := r.name v.name }

namespace Wildcard

variable {r : Renaming} {source : Text} {s : Captures}

def rename (r : Renaming) (w : Wildcard) : Wildcard :=
  { w with ofVariable := w.ofVariable.rename r }

theorem accepts_rename (w : Wildcard) (skipped : Nat) (n : Node) :
    (w.rename r).accepts source skipped n = w.accepts source skipped n :=
  rfl

theorem bind_echoes (w : Wildcard) (b : Binding) : Echoes r w.names s
    (Captures.bind w.ofVariable.name b) (Captures.bind (r.name w.ofVariable.name) b) := by
  by_cases hname : w.ofVariable.name = []
  · rw [hname, r.nameless]
    exact .of_unchanged rfl rfl
  · have hnames : w.names = [w.ofVariable.name] := by simp [names, hname]
    rw [hnames]
    exact .bind r _ b s

theorem bindOne_echoes (w : Wildcard) (skipped : Nat) (n : Node) :
    Echoes r w.names s (w.bindOne source skipped n) ((w.rename r).bindOne source skipped n) := by
  have hquantifier : (w.rename r).quantifier = w.quantifier := rfl
  simp only [bindOne, accepts_rename, hquantifier]
  split
  · exact w.bind_echoes _
  · exact .test r _ s false

theorem bindRun_echoes (w : Wildcard) (ns : List Node) (offset : Nat) :
    Echoes r w.names s (w.bindRun source ns offset) ((w.rename r).bindRun source ns offset) := by
  have hquantifier : (w.rename r).quantifier = w.quantifier := rfl
  have haccepts : (w.rename r).accepts source 0 = w.accepts source 0 := rfl
  simp only [bindRun, haccepts, hquantifier]
  split
  · exact w.bind_echoes _
  · exact .test r _ s false

end Wildcard

namespace Pattern

/-- Two patterns with one tree, whose wildcards differ by name. -/
structure Renamed (r : Renaming) (p p' : Pattern) : Prop where
  parsed : p'.parsed = p.parsed
  wrapped : p'.wrapped = p.wrapped
  config : p'.config = p.config
  wildcard (x : Node) : p'.wildcard? x = (p.wildcard? x).map (Wildcard.rename r)

variable {r : Renaming} {p p' : Pattern} {source : Text} {s : Captures}

theorem Renamed.roots (h : Renamed r p p') : p'.roots = p.roots := by
  simp only [Pattern.roots]
  rw [h.parsed, h.wrapped]

section Lists

variable {α : Type} [Listed α] {look : Node → List Node} {nodes : α → List Node}

def lookedNames (p : Pattern) (look : Node → List Node) (nodes : α → List Node) :
    Element α Wildcard → List Text
  | .one a => p.names ((nodes a).flatMap look)
  | .run w => w.names

theorem lookedNames_element (hnodes : ∀ a x, Listed.node? a = some x → nodes a = [x])
    (hlook : ∀ x w, p.wildcard? x = some w → look x = [x]) (a : α) :
    p.lookedNames look nodes (p.element a) = p.names ((nodes a).flatMap look) := by
  cases he : p.element a with
  | one b =>
      rw [eq_of_element_eq_one he]
      rfl
  | run w =>
      obtain ⟨x, hx, hw⟩ := wildcard_of_element_eq_run he
      rw [hnodes a x hx, List.flatMap_singleton, hlook x w hw, names_of_wildcard hw]
      rfl

theorem flatMap_lookedNames (hnodes : ∀ a x, Listed.node? a = some x → nodes a = [x])
    (hlook : ∀ x w, p.wildcard? x = some w → look x = [x]) {ps : List α} {ns : List Node}
    (hns : ps.flatMap nodes = ns) :
    (ps.map p.element).flatMap (p.lookedNames look nodes) = p.names (ns.flatMap look) := by
  rw [← hns, List.flatMap_map, List.flatMap_assoc, names_flatMap]
  exact List.flatMap_congr fun a _ => lookedNames_element hnodes hlook a

variable {one one' : α → α → Attempt Captures} {ps cs : List α}

theorem Renamed.elements_echo (h : Renamed r p p') (look : Node → List Node)
    (nodes : α → List Node) (source : Text) (one one' : α → α → Attempt Captures) (ps : List α) :
    List.Forall₂ (Comparison.ElementEchoes (comparison source one) (comparison source one') r
        (p.lookedNames look nodes))
      (ps.map p.element) (ps.map p'.element) := by
  rw [List.forall₂_map_left_iff, List.forall₂_map_right_iff, List.forall₂_same]
  intro a _
  have hw : (Listed.node? a).bind p'.wildcard? =
      ((Listed.node? a).bind p.wildcard?).map (Wildcard.rename r) := by
    cases Listed.node? a with
    | none => rfl
    | some x => exact h.wildcard x
  have hrun (w : Wildcard) : Comparison.RunEchoes (comparison source one) (comparison source one')
      r w.names w (w.rename r) :=
    ⟨rfl, fun _ => rfl, fun _ _ _ => w.bindRun_echoes _ _⟩
  simp only [element, hw]
  cases (Listed.node? a).bind p.wildcard? with
  | none => exact .one a
  | some w =>
      have hquantifier : (w.rename r).quantifier = w.quantifier := rfl
      simp only [Option.map_some, hquantifier]
      split
      · exact .one a
      · exact .run (hrun w)

variable (h : Renamed r p p') (hnodes : ∀ a x, Listed.node? a = some x → nodes a = [x])
  (hlook : ∀ x w, p.wildcard? x = some w → look x = [x]) {ns : List Node}
  (hns : ps.flatMap nodes = ns) (honce : r.Once (p.names (ns.flatMap look)))

include h hnodes hlook hns honce

theorem matchInAnyOrder_echoes (hone : ∀ a ∈ ps, ∀ b ∈ cs, ∀ s,
      Echoes r (p.names ((nodes a).flatMap look)) s (one a b) (one' a b)) (parent : Node) :
    Echoes r (p.names (ns.flatMap look)) s (p.matchInAnyOrder source one ps cs parent)
      (p'.matchInAnyOrder source one' ps cs parent) := by
  have hnames := flatMap_lookedNames hnodes hlook hns
  rw [← hnames] at honce ⊢
  refine Comparison.anyOrder_echoes (h.elements_echo look nodes source one one' ps) ?_ honce _
  intro a ha b hb s
  obtain ⟨a', ha', he⟩ := List.mem_map.mp ha
  obtain rfl := eq_of_element_eq_one he
  exact hone a ha' b hb s

theorem matchInOrder_echoes (hgrows : ∀ a b, Grows (one a b))
    (hone : ∀ hist a es b bs s,
      Comparison.Passed (comparison source one) (comparison source one') r (ps.map p.element) cs
        hist (.one a :: es) (b :: bs) s →
      Echoes r (p.names ((nodes a).flatMap look)) s (one a b) (one' a b)) (parent : Node) :
    Echoes r (p.names (ns.flatMap look)) s (p.matchInOrder source one ps cs parent)
      (p'.matchInOrder source one' ps cs parent) := by
  have hnames := flatMap_lookedNames hnodes hlook hns
  rw [← hnames] at honce ⊢
  exact Comparison.inOrder_echoes (h.elements_echo look nodes source one one' ps) rfl hgrows
    (fun w cs offset => w.bindRun_grows source _ offset) hone honce (.start _ _ r _ cs s) _

omit h hnodes hlook hns honce in
theorem mem_of_passed {k k' : Comparison α Wildcard α Captures} {hist a es b bs s}
    (hpassed : k.Passed k' r (ps.map p.element) cs hist (.one a :: es) (b :: bs) s) :
    a ∈ ps ∧ b ∈ cs := by
  constructor
  · have ha : .one a ∈ ps.map p.element := by rw [hpassed.elements]; simp
    obtain ⟨a', ha', he⟩ := List.mem_map.mp ha
    exact eq_of_element_eq_one he ▸ ha'
  · rw [hpassed.candidates]
    simp

theorem matchInOrder_echoes_of_one (hgrows : ∀ a b, Grows (one a b)) (hone : ∀ a ∈ ps, ∀ b ∈ cs, ∀ s,
      Echoes r (p.names ((nodes a).flatMap look)) s (one a b) (one' a b)) (parent : Node) :
    Echoes r (p.names (ns.flatMap look)) s (p.matchInOrder source one ps cs parent)
      (p'.matchInOrder source one' ps cs parent) :=
  matchInOrder_echoes h hnodes hlook hns honce hgrows (fun _ a _ b _ s hpassed =>
    have hmem := mem_of_passed hpassed
    hone a hmem.1 b hmem.2 s) parent

end Lists

section Ask

variable {look : Node → List Node} {cmp cmp' : Node → Node → Attempt Captures}

/-- One comparison of nodes echoes another, where it compares some nodes with others. -/
def ComparesAs (r : Renaming) (p : Pattern) (look : Node → List Node)
    (cmp cmp' : Node → Node → Attempt Captures) (xs ys : List Node) : Prop :=
  ∀ x ∈ xs, ∀ y ∈ ys, ∀ s, Echoes r (p.names (look x)) s (cmp x y) (cmp' x y)

theorem ComparesAs.mono {xs xs' ys ys' : List Node} (h : ComparesAs r p look cmp cmp' xs ys)
    (hxs : xs' ⊆ xs) (hys : ys' ⊆ ys) : ComparesAs r p look cmp cmp' xs' ys' :=
  fun x hx y hy => h x (hxs hx) y (hys hy)

theorem ComparesAs.singleton {xs ys : List Node} (h : ComparesAs r p look cmp cmp' xs ys) :
    ∀ a ∈ xs, ∀ b ∈ ys, ∀ s, Echoes r (p.names ([a].flatMap look)) s (cmp a b) (cmp' a b) := by
  intro a ha b hb s
  rw [List.flatMap_singleton]
  exact h a ha b hb s

theorem matchOptional_echoes {a b : Option Node}
    (hcmp : ComparesAs r p look cmp cmp' a.toList b.toList) :
    Echoes r (p.names (a.toList.flatMap look)) s (matchOptional cmp a b) (matchOptional cmp' a b) := by
  cases a with
  | none => exact .test r _ s true
  | some x =>
      cases b with
      | none => exact .test r _ s false
      | some y => exact hcmp.singleton x (by simp) y (by simp) s

variable (h : Renamed r p p') (hlook : ∀ x w, p.wildcard? x = some w → look x = [x])

include h hlook

theorem matchTupleField_echoes {f g : TupleField}
    (hcmp : ComparesAs r p look cmp cmp' f.nodes g.nodes)
    (honce : r.Once (p.names (f.nodes.flatMap look))) :
    Echoes r (p.names (f.nodes.flatMap look)) s (p.matchTupleField source cmp f g)
      (p'.matchTupleField source cmp' f g) := by
  have hnodes : f.nodes.flatMap look = f.attributes.flatMap look ++
      (f.visibility.toList.flatMap look ++ ([f.type].flatMap look ++ [])) := by
    simp only [TupleField.nodes, List.flatMap_append, List.append_nil]
  have hattributes := hcmp.mono (List.subset_append_left f.attributes _)
    (List.subset_append_left g.attributes _)
  have hrest := hcmp.mono (List.subset_append_right f.attributes _)
    (List.subset_append_right g.attributes _)
  have hvisibility := hrest.mono (List.subset_append_left f.visibility.toList _)
    (List.subset_append_left g.visibility.toList _)
  have htype := hrest.mono (List.subset_append_right f.visibility.toList _)
    (List.subset_append_right g.visibility.toList _)
  rw [hnodes, names_append, names_append, names_append] at honce ⊢
  refine .andThen ?_ (fun t _ _ => .andThen ?_ (fun u _ _ => .andThen ?_ (fun v _ _ => ?_) ?_) ?_) ?_
  · exact matchInAnyOrder_echoes h singleton_of_node? hlook (List.flatMap_singleton' _) honce.left
      hattributes.singleton g.type
  · exact matchOptional_echoes hvisibility
  · exact htype.singleton _ (List.mem_singleton_self _) _ (List.mem_singleton_self _) u
  · exact .test r _ v true
  · exact honce.right.right.apart
  · exact honce.right.apart
  · exact honce.apart

theorem matchQuotedName_echoes (a b : Node) :
    Echoes r (p.names ((a.childOfKind? "identifier").toList.flatMap look)) s
      (p.matchQuotedName source a b) (p'.matchQuotedName source a b) := by
  simp only [matchQuotedName, h.parsed]
  cases hx : a.childOfKind? "identifier" with
  | none => exact .test r _ s _
  | some x =>
      simp only [Option.bind_some, h.wildcard]
      cases hw : p.wildcard? x with
      | none => exact .test r _ s _
      | some w =>
          rw [Option.toList_some, List.flatMap_singleton, hlook x w hw, names_of_wildcard hw]
          exact w.bindOne_echoes 1 b

theorem ask_echoes (hgrows : ∀ x y, Grows (cmp x y)) {a b : Node} {c : Clause}
    (hc : c ≠ .childrenInOrder) (honce : r.Once (p.names ((c.compared a).flatMap look)))
    (hcmp : ComparesAs r p look cmp cmp' (c.opened a) (c.compared b)) :
    Echoes r (p.names ((c.compared a).flatMap look)) s (p.ask source cmp a b c)
      (p'.ask source cmp' a b c) := by
  cases c with
  | kindAmong | marker | genericParameter | segments => exact .test r _ s _
  | sameText | sameTokens | sameValue | lastSegment =>
      simp only [ask, h.parsed]
      exact .test r _ s _
  | part q => exact matchOptional_echoes hcmp
  | childrenInOrder => exact absurd rfl hc
  | elementsInOrder =>
      exact matchInOrder_echoes_of_one h singleton_of_node? hlook (List.flatMap_singleton' _) honce
        hgrows hcmp.singleton b
  | elementsInAnyOrder | attributes =>
      exact matchInAnyOrder_echoes h singleton_of_node? hlook (List.flatMap_singleton' _) honce
        hcmp.singleton b
  | tupleFields =>
      refine matchInOrder_echoes_of_one h nodes_of_node? hlook rfl honce (matchTupleField_grows hgrows)
        (fun f hf g hg s => ?_) b
      have hsub : f.nodes.Sublist (a.tupleFields.flatMap TupleField.nodes) :=
        sublist_flatMap_of_mem hf _
      refine matchTupleField_echoes h hlook (hcmp.mono hsub.subset ?_) ?_
      · exact (sublist_flatMap_of_mem hg TupleField.nodes).subset
      · exact honce.of_sublist ((hsub.flatMap _).flatMap _)
  | tokenGroups =>
      refine matchInAnyOrder_echoes h tokens_of_node? hlook rfl honce (fun g hg g' hg' s => ?_) b
      have hsub : g.tokens.Sublist (a.tokenGroups.flatMap TokenGroup.tokens) :=
        sublist_flatMap_of_mem hg _
      have hcmp' := hcmp.mono hsub.subset (sublist_flatMap_of_mem hg' TokenGroup.tokens).subset
      exact matchInOrder_echoes_of_one h singleton_of_node? hlook (List.flatMap_singleton' _)
        (honce.of_sublist ((hsub.flatMap _).flatMap _)) hgrows hcmp'.singleton _
  | quotedName => exact matchQuotedName_echoes h hlook a b

end Ask

end Pattern

end ShapeSearch
