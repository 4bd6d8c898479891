import ShapeSearch.Proofs.Looks
import ShapeSearch.Proofs.Repeating
import ShapeSearch.Proofs.RootAttributes

namespace ShapeSearch

namespace Comparison

open Attempt

variable {P W C : Type} {k k' : Comparison P W C Captures} {r : Renaming} {s t : Captures}

/-- An attempt that once succeeded under both names, and all that it bound is still bound. -/
def Settled (r : Renaming) (s : Captures) (a a' : Attempt Captures) : Prop :=
  ∃ t u, a t = (true, u) ∧ a' (r.captures t) = (true, r.captures u) ∧ u <+: s

theorem forall₂_of_history {R : P → C → Prop} {hist : List (Element P W × List C)} {ps : List P}
    (h : hist.map Prod.fst = ps.map .one)
    (hR : ∀ p ds, (.one p, ds) ∈ hist → ∃ d, ds = [d] ∧ R p d) :
    List.Forall₂ R ps (hist.flatMap Prod.snd) := by
  induction ps generalizing hist with
  | nil =>
      obtain rfl : hist = [] := List.map_eq_nil_iff.mp h
      exact .nil
  | cons p ps ih =>
      obtain ⟨⟨e, ds⟩, hist, rfl, rfl, htail⟩ := List.map_eq_cons_iff.mp h
      obtain ⟨d, rfl, hd⟩ := hR p ds List.mem_cons_self
      exact .cons hd (ih htail fun q es hq => hR q es (List.mem_cons_of_mem _ hq))

theorem Passed.partners {all front es : List (Element P W)} {candidates cs : List C}
    {hist : List (Element P W × List C)} {ps : List P}
    (h : Passed k k' r all candidates hist es cs s) (hall : all = front ++ ps.map .one ++ es) :
    ∃ before ds, candidates = before ++ ds ++ cs ∧
      List.Forall₂ (fun p d => Settled r s (k.one p d) (k'.one p d)) ps ds := by
  rw [h.elements, List.append_cancel_right_eq] at hall
  obtain ⟨before, behind, rfl, -, hbehind⟩ := List.map_eq_append_iff.mp hall
  refine ⟨before.flatMap Prod.snd, behind.flatMap Prod.snd, ?_, ?_⟩
  · rw [h.candidates, List.flatMap_append]
  · refine forall₂_of_history hbehind fun p ds hp => ?_
    obtain ⟨d, t, u, hds, ht, hu, hs⟩ := h.ones (List.mem_append_right before hp)
    exact ⟨d, hds, t, u, ht, hu, hs⟩

end Comparison

namespace Node

variable {n c : Node} {P : Node → Bool}

def isSignificant (n : Node) : Bool :=
  !n.label.extra && (n.label.named || n.kind != ",")

theorem significantChildren_eq (n : Node) :
    n.significantChildren = n.children.filter isSignificant :=
  rfl

/-- The attributes with nothing but comments and commas between them and the node. -/
def attributesInFront (n : Node) : List Node :=
  ((n.earlier.filter isSignificant).takeWhile (·.isAttributeItem)).reverse

theorem isAttributeItem_of_mem_outerAttributes {a : Node} (h : a ∈ n.outerAttributes) :
    a.isAttributeItem = true :=
  (List.mem_filter.mp (List.mem_reverse.mp h)).2

theorem earlier_of_row_eq {above : List String} {before ts : List Tree} {xs ys : List Node}
    (h : row above before ts = xs ++ c :: ys) :
    c.earlier = xs.reverse ++ rowBack above ts before := by
  induction ts generalizing before xs with
  | nil => simp [row] at h
  | cons t ts ih =>
      cases xs with
      | nil =>
          rw [row, List.nil_append, List.cons.injEq] at h
          rw [← h.1]
          rfl
      | cons x xs =>
          rw [row, List.cons_append, List.cons.injEq] at h
          rw [ih h.2, List.reverse_cons, List.append_assoc, ← h.1]
          rfl

theorem filter_earlier {xs ys : List Node} (h : n.children.filter P = xs ++ c :: ys) :
    c.earlier.filter P = xs.reverse := by
  obtain ⟨front, back, hchildren, rfl, hback⟩ := List.filter_eq_append_iff.mp h
  obtain ⟨skipped, rest, rfl, hskipped, -, -⟩ := List.filter_eq_cons_iff.mp hback
  rw [← List.append_assoc] at hchildren
  rw [earlier_of_row_eq hchildren, rowBack, List.append_nil, List.filter_reverse, List.filter_append,
    List.filter_eq_nil_iff.mpr hskipped, List.append_nil]

theorem attributesInFront_suffix {xs ys : List Node} (h : n.significantChildren = xs ++ c :: ys) :
    c.attributesInFront <:+ xs := by
  rw [significantChildren_eq] at h
  rw [attributesInFront, filter_earlier h, ← List.reverse_prefix, List.reverse_reverse]
  exact List.takeWhile_prefix _

theorem sublist_attributesInFront {xs ds ys : List Node}
    (h : n.significantChildren = xs ++ ds ++ c :: ys) (hds : ∀ d ∈ ds, d.isAttributeItem = true) :
    ds.Sublist c.attributesInFront := by
  rw [significantChildren_eq] at h
  rw [attributesInFront, filter_earlier h, List.reverse_append,
    List.takeWhile_append_of_pos (by simpa using hds), List.reverse_append, List.reverse_reverse]
  exact List.sublist_append_right _ _

theorem attributesInFront_sublist
    (h : ∀ y ∈ n.earlier, y.isAttributeItem = true → y.label.named = true) :
    n.attributesInFront.Sublist n.outerAttributes := by
  rw [attributesInFront, outerAttributes, List.reverse_sublist]
  generalize n.earlier = ys at h
  induction ys with
  | nil => exact List.Sublist.refl _
  | cons y ys ih =>
      have ih' := ih fun z hz => h z (List.mem_cons_of_mem y hz)
      by_cases hs : y.isSignificant = true
      · rw [List.filter_cons_of_pos hs]
        by_cases hattribute : y.isAttributeItem = true
        · have hnamed := h y List.mem_cons_self hattribute
          simp only [List.filter_cons, List.takeWhile_cons, hattribute, hnamed, Bool.true_or,
            if_true]
          exact ih'.cons_cons y
        · rw [List.takeWhile_cons_of_neg hattribute]
          exact List.nil_sublist _
      · rw [List.filter_cons_of_neg hs]
        refine ih'.trans ?_
        by_cases hnamed : y.label.named = true
        · have hextra : y.label.extra = true := by simpa [isSignificant, hnamed] using hs
          simp only [List.filter_cons, List.takeWhile_cons, hnamed, hextra, Bool.or_true, if_true]
          split
          · exact List.sublist_cons_self _ _
          · exact List.Sublist.refl _
        · simp only [List.filter_cons, hnamed, Bool.false_eq_true, if_false]
          exact List.Sublist.refl _

end Node

/-- Attribute items have names, unlike the tokens between them. -/
def Source.AttributesNamed (s : Source) : Prop :=
  ∀ y ∈ s.nodes, y.isAttributeItem = true → y.label.named = true

instance (s : Source) : Decidable s.AttributesNamed :=
  inferInstanceAs (Decidable (∀ y ∈ s.nodes, _ → _))

namespace Pattern

open Attempt Node

/-- The grammar begins every attribute item of a pattern with its mark. Where an attribute item is a
member of a list, nothing but comments and commas stands between it and the member it decorates. -/
structure AttributesPlain (p : Pattern) : Prop where
  named : p.parsed.AttributesNamed
  marked : ∀ x ∈ p.parsed.nodes, x.isAttributeItem = true →
    (x.text p.parsed.text).head? = some '#'
  inFront : ∀ a ∈ p.parsed.nodes, .childrenInOrder ∈ strategy a a → ∀ x ∈ a.significantChildren,
    .attributes ∈ strategy x x → x.outerAttributes.length ≤ x.attributesInFront.length

instance (p : Pattern) : Decidable p.AttributesPlain :=
  decidable_of_iff
    (p.parsed.AttributesNamed ∧
      (∀ x ∈ p.parsed.nodes, x.isAttributeItem = true → (x.text p.parsed.text).head? = some '#') ∧
      ∀ a ∈ p.parsed.nodes, .childrenInOrder ∈ strategy a a → ∀ x ∈ a.significantChildren,
        .attributes ∈ strategy x x → x.outerAttributes.length ≤ x.attributesInFront.length)
    ⟨fun ⟨named, marked, inFront⟩ => ⟨named, marked, inFront⟩,
      fun h => ⟨h.named, h.marked, h.inFront⟩⟩

variable {r : Renaming} {p p' : Pattern} {s : Source} {source : Text} {e : Captures}

theorem AttributesPlain.outerAttributes_eq (h : p.AttributesPlain) {a x : Node}
    (ha : a ∈ p.parsed.nodes) (hc : .childrenInOrder ∈ strategy a a) (hx : x ∈ a.significantChildren)
    (hattributes : .attributes ∈ strategy x x) : x.outerAttributes = x.attributesInFront := by
  have hmem : x ∈ a.children := List.mem_of_mem_filter hx
  have hsub := attributesInFront_sublist (n := x) fun y hy =>
    h.named y (children_below ha (earlier_of_mem_children hmem hy))
  exact (hsub.eq_of_length_le (h.inFront a ha hc x hx hattributes)).symm

theorem wildcard?_of_marked {x : Node} (h : (x.text p.parsed.text).head? = some '#') :
    p.wildcard? x = none := by
  rw [wildcard?, Template.variableFor?_eq_none h, Option.map_none]

theorem isAttributeItem_of_compare {room : Nat} {a b : Node} {s t : Captures}
    (hitem : a.isAttributeItem = true) (hw : p.wildcard? a = none)
    (h : p.compare source room a b s = (true, t)) : b.isAttributeItem = true := by
  cases room with
  | zero =>
      simp only [compare, hw] at h
      cases h
  | succ room =>
      have hkind : a.kind = "attribute_item" := by simpa [isAttributeItem] using hitem
      have hc : .kindAmong ["attribute_item"] ∈ strategy a b := by simp [strategy, hkind]
      have haccepts := accepts_ask hw ⟨s, t, h, List.prefix_rfl⟩ hc
      simpa [ask, isAttributeItem] using haccepts.test

/-- Whatever is compared by its structure below a node is compared with its like. -/
def ApartBelow (p : Pattern) (s : Source) (a : Node) : Prop :=
  ∀ level, ∀ x ∈ p.structuralAt level a, ∀ y ∈ s.nodes, p.ApartFrom s.text x y

theorem attributes_of_ask {room : Nat} {x y : Node}
    (hmarked : ∀ z ∈ x.outerAttributes, (z.text p.parsed.text).head? = some '#')
    (hne : x.outerAttributes ≠ []) (hy : y ∈ s.nodes)
    (hapart : ∀ z ∈ x.outerAttributes, p.ApartBelow s z)
    (h : (p.ask s.text (p.compare s.text room) x y .attributes e).1 = true) :
    y.outerAttributes.length = x.outerAttributes.length ∧
      ∀ z ∈ x.outerAttributes, p.structuralAt room z = [] := by
  obtain ⟨partners, hperm, hpartners⟩ :=
    exists_perm_of_ask hmarked hne ⟨e, _, Prod.ext h rfl, List.prefix_rfl⟩
  refine ⟨by rw [← hperm.length_eq, hpartners.length_eq], fun z hz => ?_⟩
  obtain ⟨w, hw, haccepts⟩ := Comparison.forall₂_exists_left hpartners.flip z hz
  have hmem : w ∈ s.nodes := s.nodes_closed.front hy (hperm.subset hw)
  exact structuralAt_of_accepts s.nodes_closed.stable hmem (hapart z hz) haccepts

theorem attributes_unchanged {cmp : Node → Node → Attempt Captures} {x y : Node}
    (hmarked : ∀ z ∈ x.outerAttributes, (z.text p.parsed.text).head? = some '#')
    (h : List.Forall₂ (fun z w => cmp z w e = (true, e)) x.outerAttributes y.outerAttributes) :
    p.ask source cmp x y .attributes e = (true, e) := by
  have hones : x.outerAttributes.map p.element = x.outerAttributes.map .one :=
    List.map_congr_left fun z hz => element_of_marked (hmarked z hz)
  rw [ask, matchInAnyOrder, hones]
  exact Comparison.anyOrder_unchanged (k := comparison source cmp) h y.start

section Renamed

variable (h : Renamed r p p')

include h

theorem Renamed.isSome_wildcard? (x : Node) :
    (p'.wildcard? x).isSome = (p.wildcard? x).isSome := by
  rw [h.wildcard, Option.isSome_map]

theorem Renamed.structuralAt (level : Nat) (a : Node) :
    p'.structuralAt level a = p.structuralAt level a := by
  induction level generalizing a with
  | zero => simp only [Pattern.structuralAt, h.isSome_wildcard?]
  | succ level ih => simp only [Pattern.structuralAt, h.isSome_wildcard?, funext ih]

theorem Renamed.apartBelow {a : Node} (ha : p.ApartBelow s a) : p'.ApartBelow s a := by
  intro level x hx y hy
  rw [h.structuralAt] at hx
  have hxy := ha level x hx y hy
  simp only [ApartFrom, h.parsed] at hxy ⊢
  exact hxy

end Renamed

theorem marked_of_outerAttributes (hplain : p.AttributesPlain) {x : Node} (hx : x ∈ p.parsed.nodes) :
    ∀ z ∈ x.outerAttributes, (z.text p.parsed.text).head? = some '#' := fun z hz =>
  hplain.marked z (p.parsed.nodes_closed.front hx hz) (isAttributeItem_of_mem_outerAttributes hz)

section Members

variable (hplain : p.AttributesPlain) {a b x y : Node} {room : Nat}
  {es : List (Element Node Wildcard)} {ys : List Node} {t u : Captures}
  {hist : List (Element Node Wildcard × List Node)} (ha : a ∈ p.parsed.nodes)
  (hc : .childrenInOrder ∈ strategy a a) (hattributes : .attributes ∈ strategy x x)
  (hb : b ∈ s.nodes)
  (hpassed : (comparison source (p.compare source room)).Passed
    (comparison source (p'.compare source room)) r (a.significantChildren.map p.element)
    b.significantChildren hist (.one x :: es) (y :: ys) t)

include hplain ha hc hattributes hpassed

theorem exists_front : ∃ front zs, a.significantChildren = front ++ x.outerAttributes ++ x :: zs ∧
    (x :: zs).map p.element = .one x :: es := by
  obtain ⟨hx, -⟩ := mem_of_passed hpassed
  obtain ⟨xs, zs, hsplit, -, hbehind⟩ := List.map_eq_append_iff.mp hpassed.elements
  obtain ⟨x', zs, rfl, hx', hzs⟩ := List.map_eq_cons_iff.mp hbehind
  obtain rfl := eq_of_element_eq_one hx'
  have hsuffix : x.outerAttributes <:+ xs := by
    rw [hplain.outerAttributes_eq ha hc hx hattributes]
    exact attributesInFront_suffix hsplit
  obtain ⟨front, rfl⟩ := hsuffix
  exact ⟨front, zs, hsplit, by rw [List.map_cons, hx', hzs]⟩

include hb

theorem exists_partners (hnamed : s.AttributesNamed) : ∃ ds, ds.Sublist y.outerAttributes ∧
    List.Forall₂ (fun z w => Comparison.Settled r t (p.compare source room z w)
      (p'.compare source room z w)) x.outerAttributes ds := by
  obtain ⟨hx, hy⟩ := mem_of_passed hpassed
  have hmarked := marked_of_outerAttributes hplain (children_below ha (List.mem_of_mem_filter hx))
  have hones : x.outerAttributes.map p.element = x.outerAttributes.map .one :=
    List.map_congr_left fun z hz => element_of_marked (hmarked z hz)
  obtain ⟨front, zs, hsplit, hzs⟩ := exists_front hplain ha hc hattributes hpassed
  have hall : a.significantChildren.map p.element =
      front.map p.element ++ x.outerAttributes.map .one ++ .one x :: es := by
    rw [hsplit, List.map_append, List.map_append, hones, hzs]
  obtain ⟨before, ds, hcandidates, hpartners⟩ := hpassed.partners hall
  refine ⟨ds, ?_, hpartners⟩
  have hds : ∀ d ∈ ds, d.isAttributeItem = true := by
    intro d hd
    obtain ⟨z, hz, v, w, hcompare, -, -⟩ := Comparison.forall₂_exists_left hpartners d hd
    exact isAttributeItem_of_compare (isAttributeItem_of_mem_outerAttributes hz)
      (wildcard?_of_marked (hmarked z hz)) hcompare
  refine (sublist_attributesInFront hcandidates hds).trans (attributesInFront_sublist fun z hz => ?_)
  exact hnamed z (children_below hb (earlier_of_mem_children (List.mem_of_mem_filter hy) hz))

end Members

theorem ask_attributes_of_nil {cmp : Node → Node → Attempt Captures} {x : Node}
    (h : x.outerAttributes = []) (y : Node) :
    p.ask source cmp x y .attributes e = (true, e) := by
  simp only [ask, matchInAnyOrder, h, List.map_nil, Comparison.anyOrder, List.isEmpty_nil, if_true]
  rfl

theorem compare_of_settled {room : Nat} {z w : Node} {t u : Captures} (hren : Renamed r p p')
    (hw : w ∈ s.nodes) (hapart : p.ApartBelow s z) (hroom : p.structuralAt room z = [])
    (h : Comparison.Settled r t (p.compare s.text (room + 1) z w) (p'.compare s.text (room + 1) z w))
    (htu : t <+: u) :
    p.compare s.text room z w u = (true, u) ∧
      p'.compare s.text room z w (r.captures u) = (true, r.captures u) := by
  obtain ⟨v, v', hv, hv', hv't⟩ := h
  have hroom' : p'.structuralAt room z = [] := by rw [hren.structuralAt, hroom]
  rw [compare_eq_of_structuralAt (Nat.le_succ room) hroom] at hv
  rw [compare_eq_of_structuralAt (Nat.le_succ room) hroom'] at hv'
  have hle := hv't.trans htu
  constructor
  · exact compare_again s.nodes_closed.stable hw hapart hv hle
  · exact compare_again s.nodes_closed.stable hw (hren.apartBelow hapart) hv' (r.captures_mono hle)

/-- The second look at the attributes of a member of a list finds what the first has found. -/
theorem attributes_echo (hren : Renamed r p p') (hplain : p.AttributesPlain)
    (hnamed : s.AttributesNamed) {a b x y : Node} {room : Nat} {es : List (Element Node Wildcard)}
    {ys : List Node} {t u : Captures} {hist : List (Element Node Wildcard × List Node)}
    (ha : a ∈ p.parsed.nodes) (hc : .childrenInOrder ∈ strategy a a)
    (hattributes : .attributes ∈ strategy x x) (hb : b ∈ s.nodes)
    (hapart : ∀ z ∈ x.outerAttributes, p.ApartBelow s z)
    (hpassed : (comparison s.text (p.compare s.text (room + 1))).Passed
      (comparison s.text (p'.compare s.text (room + 1))) r (a.significantChildren.map p.element)
      b.significantChildren hist (.one x :: es) (y :: ys) t)
    (htu : t <+: u) :
    Echoes r [] u (p.ask s.text (p.compare s.text room) x y .attributes)
      (p'.ask s.text (p'.compare s.text room) x y .attributes) := by
  by_cases hne : x.outerAttributes = []
  · exact .of_unchanged (ask_attributes_of_nil hne y) (ask_attributes_of_nil hne y)
  obtain ⟨hx, hy⟩ := mem_of_passed hpassed
  have hynodes : y ∈ s.nodes := children_below hb (List.mem_of_mem_filter hy)
  have hmarked := marked_of_outerAttributes hplain (children_below ha (List.mem_of_mem_filter hx))
  have hmarked' : ∀ z ∈ x.outerAttributes, (z.text p'.parsed.text).head? = some '#' := by
    rw [hren.parsed]
    exact hmarked
  by_cases h : y.outerAttributes.length = x.outerAttributes.length ∧
      ∀ z ∈ x.outerAttributes, p.structuralAt room z = []
  · obtain ⟨hlength, hroom⟩ := h
    obtain ⟨ds, hsub, hpartners⟩ := exists_partners hplain ha hc hattributes hb hpassed hnamed
    obtain rfl := hsub.eq_of_length (by rw [hlength, hpartners.length_eq])
    have hagain := Comparison.forall₂_imp_of_mem hpartners fun z hz w hw hzw =>
      compare_of_settled hren (s.nodes_closed.front hynodes hw) (hapart z hz) (hroom z hz) hzw htu
    refine .of_unchanged (attributes_unchanged hmarked ?_) (attributes_unchanged hmarked' ?_)
    · exact hagain.imp fun _ _ => And.left
    · exact hagain.imp fun _ _ => And.right
  · refine .of_fails (Bool.eq_false_iff.mpr fun hask => h ?_)
      (Bool.eq_false_iff.mpr fun hask => h ?_)
    · exact attributes_of_ask hmarked hne hynodes hapart hask
    · have hask' := attributes_of_ask hmarked' hne hynodes
        (fun z hz => hren.apartBelow (hapart z hz)) hask
      simpa only [hren.structuralAt] using hask'

end Pattern

end ShapeSearch
