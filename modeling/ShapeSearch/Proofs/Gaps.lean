import ShapeSearch.Proofs.Soundness

namespace ShapeSearch

namespace Attempt

variable {α : Type} {a b : Attempt (List α)} {as : List (Attempt (List α))} {e : List α}
  {Q : α → Prop}

/-- What a success adds to the bindings has a property, if all that it leaves bound is among `e`. -/
def Adds (e : List α) (Q : α → Prop) (a : Attempt (List α)) : Prop :=
  ∀ s t, a s = (true, t) → t <+: e → ∀ x ∈ t, x ∈ s ∨ Q x

namespace Adds

theorem of_accepts (h : a.Accepts e → Adds e Q a) : Adds e Q a :=
  fun s t hst ht => h ⟨s, t, hst, ht⟩ s t hst ht

theorem test (r : Bool) : Adds e Q (test r) := by
  intro s t h _ x hx
  obtain rfl : s = t := congrArg Prod.snd h
  exact .inl hx

theorem andThen (hgrows : Grows b) (ha : b.Accepts e → Adds e Q a)
    (hb : a.Accepts e → Adds e Q b) : Adds e Q (andThen a b) := by
  intro s t h ht x hx
  obtain ⟨u, hu, hbt⟩ := andThen_eq_true h
  have hut : u <+: t := by simpa [hbt] using hgrows u
  rcases hb ⟨s, u, hu, hut.trans ht⟩ u t hbt ht x hx with hxu | hq
  · exact ha ⟨u, t, hbt, ht⟩ s u hu (hut.trans ht) x hxu
  · exact .inr hq

theorem firstOf (h : ∀ a ∈ as, Adds e Q a) : Adds e Q (firstOf as) := by
  intro s t hst ht
  obtain ⟨a, ha, hat⟩ := firstOf_eq_true hst
  exact h a ha s t hat ht

theorem congruence (e : List α) (Q : α → Prop) :
    Congruence (fun a _ : Attempt (List α) => Grows a ∧ Adds e Q a) where
  test r := ⟨fun _ => List.prefix_rfl, test r⟩
  andThen ha hb := ⟨ha.1.andThen hb.1, andThen hb.1 (fun _ => ha.2) fun _ => hb.2⟩
  firstOf h := ⟨.firstOf fun a ha => (forall_mem_of_forall₂ h a ha).1,
    firstOf fun a ha => (forall_mem_of_forall₂ h a ha).2⟩

theorem all (hgrows : ∀ a ∈ as, Grows a) (h : ∀ a ∈ as, Adds e Q a) : Adds e Q (all as) :=
  ((congruence e Q).all (List.forall₂_same.mpr fun a ha => ⟨hgrows a ha, h a ha⟩)).2

end Adds

end Attempt

open Attempt

namespace Comparison

variable {P W C α : Type} {k : Comparison P W C (List α)} {e : List α} {Q : α → Prop}
  {r : P → C → Prop} {q : W → List C → Prop}

variable (hgone : ∀ p c, (k.one p c).Grows) (hgrun : ∀ w cs offset, (k.run w cs offset).Grows)
  {es : List (Element P W)} {cs : List C} (hone : ∀ p, .one p ∈ es → ∀ c ∈ cs, Adds e Q (k.one p c))

include hgone hgrun hone

theorem inOrder_adds (fallback : Nat) (hsone : ∀ p c, (k.one p c).Accepts e → r p c)
    (hsrun : ∀ w cs offset, (k.run w cs offset).Accepts e → q w cs)
    (hrun : ∀ before w after taken between left, es = before ++ .run w :: after →
      cs = taken ++ (between ++ left) → HoldInOrder r q before taken → HoldInOrder r q after left →
          Adds e Q (k.run w between (k.anchor fallback (between ++ left)))) :
    Adds e Q (k.inOrder fallback es cs) := by
  induction es generalizing cs with
  | nil => exact .test _
  | cons x es ih =>
      have hgrows := inOrder_grows hgone hgrun fallback es
      cases x with
      | one p =>
          cases cs with
          | nil => exact .test false
          | cons c cs =>
              apply Adds.firstOf
              intro a ha
              rw [List.mem_singleton] at ha
              subst ha
              refine .andThen (hgrows cs)
                (fun _ => hone p List.mem_cons_self c List.mem_cons_self) fun hp => ih ?_ ?_
              · exact fun q hq d hd =>
                  hone q (List.mem_cons_of_mem _ hq) d (List.mem_cons_of_mem c hd)
              · rintro before w after taken between left rfl rfl hbefore hafter
                exact hrun (.one p :: before) w after (c :: taken) between left rfl rfl
                  (.cons_one (hsone p c hp) hbefore) hafter
      | run w =>
          apply Adds.firstOf
          intro a ha
          obtain ⟨n, -, rfl⟩ := List.mem_map.mp ha
          refine .andThen (hgrows _) (fun hes => ?_) fun hw => ih ?_ ?_
          · have hleft := (inOrder_sound hgone hgrun hes).mono hsone
              fun w cs ⟨offset, h⟩ => hsrun w cs offset h
            have hfirst := hrun [] w es [] (cs.take n) (cs.drop n) rfl
              (List.take_append_drop n cs).symm .nil hleft
            rwa [List.take_append_drop] at hfirst
          · exact fun q hq d hd => hone q (List.mem_cons_of_mem _ hq) d (List.drop_subset n cs hd)
          · rintro before w' after taken between left rfl hcs hbefore hafter
            refine hrun (.run w :: before) w' after (cs.take n ++ taken) between left rfl ?_
              (.cons_run (hsrun w _ _ hw) hbefore) hafter
            rw [List.append_assoc, ← hcs, List.take_append_drop]

theorem anyOrder_adds (offset : Nat)
    (hrun : ∀ w, .run w ∈ es → ∀ taken, taken.Sublist cs → Adds e Q (k.run w taken offset)) :
    Adds e Q (k.anyOrder offset es cs) :=
  (anyOrder_images (Adds.congruence e Q) (.refl k) (f := id) offset (fun _ _ => trivial)
    (fun p hp c hc => ⟨hgone p c, hone p hp c hc⟩)
    fun w hw taken htaken => ⟨hgrun w taken offset, hrun w hw taken (by simpa using htaken)⟩).2

end Comparison

namespace Pattern

open Node

variable {p : Pattern} {source : Text} {e : Captures} {Q : Text × Binding → Prop}

section Lists

variable {α : Type} [Listed α]

/-- Where a place in a list lies that hangs from `parent`: where the member at the place begins, or
where the last one ends if there is none at the place, or where the parent begins if there is no
member at all. -/
def offsetAt (parent : Node) (candidates : List α) (place : Nat) : Nat :=
  match candidates[place]? with
  | some next => (Listed.bound next).start
  | none => (candidates.getLast?.map fun last => (Listed.bound last).stop).getD parent.start

/-- A wildcard of the variable `v` stands for none of the candidates, at an offset. What stands in
front of it in the pattern holds of all candidates before that place, and what stands behind it of
all from there on. -/
def GapInOrder (p : Pattern) (source : Text) (e : Captures) (r : α → α → Prop)
    (patterns candidates : List α) (parent : Node) (v : Variable) (offset : Nat) : Prop :=
  ∃ before a after w taken left, patterns = before ++ a :: after ∧ candidates = taken ++ left ∧
    p.element a = .run w ∧ w.ofVariable = v ∧ p.ListInOrder source e r before taken ∧
      p.ListInOrder source e r after left ∧ offset = offsetAt parent candidates taken.length

/-- In a list without an order a wildcard that stands for no candidates is where the parent
begins. -/
def GapInAnyOrder (p : Pattern) (patterns : List α) (parent : Node) (v : Variable)
    (offset : Nat) : Prop :=
  (∃ a ∈ patterns, ∃ w, p.element a = .run w ∧ w.ofVariable = v) ∧ offset = parent.start

theorem GapInOrder.mono {r s : α → α → Prop} {patterns candidates : List α} {parent : Node}
    {v : Variable} {offset : Nat} (hrs : ∀ x y, r x y → s x y)
    (h : p.GapInOrder source e r patterns candidates parent v offset) :
    p.GapInOrder source e s patterns candidates parent v offset := by
  obtain ⟨before, a, after, w, taken, left, hp, hc, ha, hw, hbefore, hafter, hoffset⟩ := h
  exact ⟨before, a, after, w, taken, left, hp, hc, ha, hw, hbefore.mono hrs, hafter.mono hrs,
    hoffset⟩

theorem anchor_eq_offsetAt (source : Text) (one : α → α → Attempt Captures) (parent : Node)
    (taken left : List α) :
    (comparison source one).anchor
      (((taken ++ left).getLast?.map (comparison source one).stop).getD parent.start) left =
        offsetAt parent (taken ++ left) taken.length := by
  cases left with
  | nil =>
      rw [offsetAt, List.getElem?_eq_none (by simp)]
      rfl
  | cons c left =>
      rw [offsetAt, List.getElem?_append_right (Nat.le_refl _), Nat.sub_self]
      rfl

variable {one : α → α → Attempt Captures} {patterns candidates : List α} {parent : Node}
  (hone : ∀ a ∈ patterns, ∀ b ∈ candidates, Adds e Q (one a b))

include hone

theorem one_adds (a : α) (ha : .one a ∈ patterns.map p.element) (b : α) (hb : b ∈ candidates) :
    Adds e Q (one a b) := by
  obtain ⟨a', ha', he⟩ := List.mem_map.mp ha
  rw [eq_of_element_eq_one he]
  exact hone a' ha' b hb

variable (hgrows : ∀ a b, Grows (one a b))

include hgrows

theorem matchInOrder_adds
    (hrun : ∀ a ∈ patterns, ∀ w, p.element a = .run w → ∀ cs, cs ⊆ candidates → ∀ offset,
      (cs = [] → p.GapInOrder source e (fun a b => (one a b).Accepts e) patterns candidates parent
        w.ofVariable offset) → Adds e Q (w.bindRun source (cs.map Listed.bound) offset)) :
    Adds e Q (p.matchInOrder source one patterns candidates parent) := by
  refine Comparison.inOrder_adds (k := comparison source one)
    (r := fun a b => (one a b).Accepts e)
    (q := fun w cs => w.StandsForRun source e (cs.map Listed.bound)) hgrows
    (fun w _ _ => w.bindRun_grows source _ _) (one_adds hone) _ (fun _ _ ha => ha)
    (fun _ _ _ hw => Wildcard.bindRun_sound hw) ?_
  intro before w after taken between left hes hcs hbefore hafter
  obtain ⟨before', rest, rfl, rfl, hrest⟩ := List.map_eq_append_iff.mp hes
  obtain ⟨a, after', rfl, ha, rfl⟩ := List.map_eq_cons_iff.mp hrest
  apply hrun a (by simp) w ha between
  · rw [hcs]
    intro c hc
    exact List.mem_append_right _ (List.mem_append_left _ hc)
  · intro hnil
    subst hnil
    rw [List.nil_append] at hcs ⊢
    refine ⟨before', a, after', w, taken, left, rfl, hcs, ha, rfl, hbefore, hafter, ?_⟩
    rw [hcs, anchor_eq_offsetAt]

theorem matchInAnyOrder_adds
    (hrun : ∀ a ∈ patterns, ∀ w, p.element a = .run w → ∀ cs, cs ⊆ candidates →
      Adds e Q (w.bindRun source (cs.map Listed.bound) parent.start)) :
    Adds e Q (p.matchInAnyOrder source one patterns candidates parent) := by
  refine Comparison.anyOrder_adds (k := comparison source one) hgrows
    (fun w _ _ => w.bindRun_grows source _ _) (one_adds hone) _ fun w hw taken htaken => ?_
  obtain ⟨a, ha, he⟩ := List.mem_map.mp hw
  exact hrun a ha w he taken htaken.subset

end Lists

/-- What is asked of a field of a tuple, where nodes are related by `r`. -/
def FieldHolds (p : Pattern) (source : Text) (e : Captures) (r : Node → Node → Prop)
    (f g : TupleField) : Prop :=
  p.ListInAnyOrder source e r f.attributes g.attributes ∧
    OptionalHolds r f.visibility g.visibility ∧ r f.type g.type

/-- Where a wildcard of the variable `v` can stand for no nodes in the lists that a clause
compares. -/
def Gap (p : Pattern) (source : Text) (e : Captures) (r : Node → Node → Prop) (a b : Node)
    (v : Variable) (offset : Nat) : Clause → Prop
  | .elementsInOrder => p.GapInOrder source e r a.elements b.elements b v offset
  | .childrenInOrder =>
    p.GapInOrder source e r a.significantChildren b.significantChildren b v offset
  | .elementsInAnyOrder => p.GapInAnyOrder a.elements b v offset
  | .attributes => p.GapInAnyOrder a.outerAttributes b v offset
  | .tupleFields =>
    p.GapInOrder source e (p.FieldHolds source e r) a.tupleFields b.tupleFields b v offset ∨
      ∃ f ∈ a.tupleFields, ∃ g ∈ b.tupleFields, p.FieldHolds source e r f g ∧
        p.GapInAnyOrder f.attributes g.type v offset
  | .tokenGroups =>
    p.GapInAnyOrder a.tokenGroups b v offset ∨
      ∃ g ∈ a.tokenGroups, ∃ h ∈ b.tokenGroups, p.GapInOrder source e r g.tokens h.tokens b v offset
  | _ => False

theorem Gap.mono {r s : Node → Node → Prop} {a b : Node} {v : Variable} {offset : Nat} {c : Clause}
    (hrs : ∀ x y, r x y → s x y) (h : p.Gap source e r a b v offset c) :
    p.Gap source e s a b v offset c := by
  have hfield (f g : TupleField) (h : p.FieldHolds source e r f g) : p.FieldHolds source e s f g :=
    ⟨h.1.mono hrs, h.2.1.mono hrs, hrs _ _ h.2.2⟩
  cases c with
  | elementsInOrder => exact GapInOrder.mono hrs h
  | childrenInOrder => exact GapInOrder.mono hrs h
  | tupleFields =>
      rcases h with h | ⟨f, hf, g, hg, h, hgap⟩
      · exact .inl (h.mono hfield)
      · exact .inr ⟨f, hf, g, hg, hfield f g h, hgap⟩
  | tokenGroups =>
      rcases h with h | ⟨g, hg, g', hg', h⟩
      · exact .inl h
      · exact .inr ⟨g, hg, g', hg', h.mono hrs⟩
  | _ => exact h

variable {cmp : Node → Node → Attempt Captures} {T : Node → Prop}

theorem matchOptional_adds {a b : Option Node}
    (hcmp : ∀ x ∈ a.toList, ∀ y ∈ b.toList, Adds e Q (cmp x y)) :
    Adds e Q (matchOptional cmp a b) := by
  cases a with
  | none => exact .test true
  | some x =>
      cases b with
      | none => exact .test false
      | some y => exact hcmp x (by simp) y (by simp)

theorem matchTupleField_adds {f g : TupleField} (hgrows : ∀ x y, Grows (cmp x y))
    (hcmp : ∀ x ∈ f.nodes, ∀ y ∈ g.nodes, Adds e Q (cmp x y))
    (hrun : ∀ x ∈ f.attributes, ∀ w, p.element x = .run w → ∀ ns, ns ⊆ g.attributes →
      Adds e Q (w.bindRun source (ns.map Listed.bound) g.type.start)) :
    Adds e Q (p.matchTupleField source cmp f g) := by
  have hattributes : Adds e Q (p.matchInAnyOrder source cmp f.attributes g.attributes g.type) :=
    matchInAnyOrder_adds (fun x hx y hy => hcmp x (f.attributes_subset_nodes hx) y
      (g.attributes_subset_nodes hy)) hgrows hrun
  have hvisibility : Adds e Q (matchOptional cmp f.visibility g.visibility) :=
    matchOptional_adds fun x hx y hy => hcmp x (f.visibility_subset_nodes hx) y
      (g.visibility_subset_nodes hy)
  apply Adds.all
  · simp only [List.forall_mem_cons]
    exact ⟨matchInAnyOrder_grows hgrows, matchOptional_grows hgrows _ _, hgrows _ _,
      List.forall_mem_nil _⟩
  · simp only [List.forall_mem_cons]
    exact ⟨hattributes, hvisibility, hcmp _ f.type_mem_nodes _ g.type_mem_nodes,
      List.forall_mem_nil _⟩

theorem matchQuotedName_adds {a b : Node} (h : ∀ x, a.childOfKind? "identifier" = some x →
      ∀ w, p.wildcard? x = some w → Adds e Q (w.bindOne source 1 b)) :
    Adds e Q (p.matchQuotedName source a b) := by
  rw [matchQuotedName]
  split
  next w hw =>
    obtain ⟨x, hx, hwx⟩ := Option.bind_eq_some_iff.mp hw
    exact h x hx w hwx
  next => exact .test _

theorem wildcard?_of_element {x : Node} {w : Wildcard} (h : p.element x = .run w) :
    p.wildcard? x = some w := by
  obtain ⟨y, hy, hw⟩ := wildcard_of_element_eq_run h
  obtain rfl : x = y := Option.some.inj hy
  exact hw

theorem forall_mem_bounds {ns cs : List Node} (hns : ∀ n ∈ ns, T n) (hcs : cs ⊆ ns) :
    ∀ n ∈ cs.map Listed.bound, T n := by
  intro n hn
  rw [Listed.map_bound_node] at hn
  exact hns n (hcs hn)

section Ask

variable {a b : Node} {c : Clause} (hgrows : ∀ x y, Grows (cmp x y)) (hb : T b)
  (hT : ∀ y ∈ c.compared b, T y)
  (hcmp : ∀ x ∈ c.opened a, ∀ y ∈ c.compared b, Adds e Q (cmp x y))
  (hrun : ∀ x ∈ c.opened a, ∀ w, p.wildcard? x = some w → ∀ ns, (∀ n ∈ ns, T n) → ∀ offset,
    (ns = [] → p.Gap source e (fun x y => (cmp x y).Accepts e) a b w.ofVariable offset c) →
      Adds e Q (w.bindRun source ns offset))

include hgrows hT hcmp hrun

theorem tupleFields_adds (hc : c = .tupleFields) : Adds e Q (p.ask source cmp a b c) := by
  subst hc
  have hmem {n : Node} {f : TupleField} (hf : f ∈ n.tupleFields) :=
    TupleField.nodes_subset_compared hf
  refine matchInOrder_adds (fun f hf g hg => .of_accepts fun h => ?_)
    (matchTupleField_grows hgrows) fun f hf w hw gs hgs offset hgap => ?_
  · -- the attributes of a field can hold a gap as well
    have hholds : p.FieldHolds source e _ f g := matchTupleField_sound hgrows h
    refine matchTupleField_adds hgrows (fun x hx y hy => hcmp x (hmem hf hx) y (hmem hg hy)) ?_
    intro x hx w hw ns hns
    have hattribute : ∀ y ∈ g.attributes, T y := fun y hy =>
      hT y (hmem hg (g.attributes_subset_nodes hy))
    apply hrun x (hmem hf (f.attributes_subset_nodes hx)) w (wildcard?_of_element hw)
    · exact forall_mem_bounds hattribute hns
    · exact fun _ => .inr ⟨f, hf, g, hg, hholds, ⟨x, hx, w, hw, rfl⟩, rfl⟩
  · obtain ⟨x, hx, hwx⟩ := wildcard_of_element_eq_run hw
    apply hrun x (hmem hf (by simp [nodes_of_node? f x hx])) w hwx
    · intro n hn
      obtain ⟨g, hg, rfl⟩ := List.mem_map.mp hn
      exact hT _ (hmem (hgs hg) g.type_mem_nodes)
    · intro hnil
      have hfields := hgap (List.map_eq_nil_iff.mp hnil)
      exact .inl (hfields.mono fun f g h => matchTupleField_sound hgrows h)

include hb

theorem tokenGroups_adds (hc : c = .tokenGroups) : Adds e Q (p.ask source cmp a b c) := by
  subst hc
  have hmem {n : Node} {g : TokenGroup} (hg : g ∈ n.tokenGroups) :=
    TokenGroup.tokens_subset_compared hg
  refine matchInAnyOrder_adds (fun g hg h hh => ?_) (fun g h => matchInOrder_grows hgrows)
    fun g hg w hw gs hgs => ?_
  · refine matchInOrder_adds (fun x hx y hy => hcmp x (hmem hg hx) y (hmem hh hy)) hgrows ?_
    intro x hx w hw ns hns offset hgap
    rw [tree_of_mem_tokenGroups hh] at hgap
    apply hrun x (hmem hg hx) w (wildcard?_of_element hw)
    · exact forall_mem_bounds (fun y hy => hT y (hmem hh hy)) hns
    · exact fun hnil => .inr ⟨g, hg, h, hh, hgap (List.map_eq_nil_iff.mp hnil)⟩
  · obtain ⟨x, hx, hwx⟩ := wildcard_of_element_eq_run hw
    apply hrun x (hmem hg (by simp [tokens_of_node? g x hx])) w hwx
    · intro n hn
      obtain ⟨h, hh, rfl⟩ := List.mem_map.mp hn
      exact bound_of_mem_tokenGroups (hgs hh) hb hT
    · exact fun _ => .inl ⟨⟨g, hg, w, hw, rfl⟩, rfl⟩

/-- All that a node asks of another adds bindings with a property, if comparisons of smaller nodes
do, and wildcards that are given nodes in `T` or a gap. -/
theorem ask_adds (hquoted : c = .quotedName → ∀ x, a.childOfKind? "identifier" = some x →
      ∀ w, p.wildcard? x = some w → Adds e Q (w.bindOne source 1 b)) :
    Adds e Q (p.ask source cmp a b c) := by
  cases c with
  | part q => exact matchOptional_adds hcmp
  | elementsInOrder | childrenInOrder =>
      apply matchInOrder_adds hcmp hgrows
      intro x hx w hw ns hns offset hgap
      apply hrun x hx w (wildcard?_of_element hw) _ (forall_mem_bounds hT hns)
      exact fun hnil => hgap (List.map_eq_nil_iff.mp hnil)
  | elementsInAnyOrder | attributes =>
      apply matchInAnyOrder_adds hcmp hgrows
      intro x hx w hw ns hns
      apply hrun x hx w (wildcard?_of_element hw) _ (forall_mem_bounds hT hns)
      exact fun _ => ⟨⟨x, hx, w, hw, rfl⟩, rfl⟩
  | tupleFields => exact tupleFields_adds hgrows hT hcmp hrun rfl
  | tokenGroups => exact tokenGroups_adds hgrows hb hT hcmp hrun rfl
  | quotedName => exact matchQuotedName_adds (hquoted rfl)
  | _ => exact .test _

end Ask

end Pattern

end ShapeSearch
