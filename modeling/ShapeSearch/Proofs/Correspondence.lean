import ShapeSearch.Proofs.Descendants

namespace ShapeSearch

namespace TupleField

def map (f : Node → Node) (t : TupleField) : TupleField :=
  ⟨t.attributes.map f, t.visibility.map f, f t.type⟩

theorem map_id' (t : TupleField) : t.map id = t := by
  simp [map]

end TupleField

namespace TokenGroup

def map (f : Node → Node) (t : TokenGroup) : TokenGroup :=
  ⟨t.tokens.map f, f t.tree⟩

theorem map_id' (t : TokenGroup) : t.map id = t := by
  simp [map]

end TokenGroup

/-- The members of lists are mapped as the nodes that stand for them. -/
structure Listed.Along {α : Type} [Listed α] (f : Node → Node) (F : α → α) : Prop where
  node? (a : α) : Listed.node? (F a) = (Listed.node? a).map f
  bound (a : α) : Listed.bound (F a) = f (Listed.bound a)

theorem Listed.Along.map_bound {α : Type} [Listed α] {f : Node → Node} {F : α → α}
    (hF : Along f F) (as : List α) : (as.map F).map Listed.bound = (as.map Listed.bound).map f := by
  rw [List.map_map, List.map_map]
  exact List.map_congr_left fun a _ => hF.bound a

theorem Listed.along_id (α : Type) [Listed α] : Along id (@id α) :=
  ⟨fun a => by simp, fun _ => rfl⟩

theorem Listed.along_node (f : Node → Node) : Along f f :=
  ⟨fun _ => rfl, fun _ => rfl⟩

theorem Listed.map_bound_node (ns : List Node) : ns.map Listed.bound = ns :=
  List.map_id ns

theorem Listed.along_tupleField (f : Node → Node) : Along f (TupleField.map f) where
  node? t := by
    simp only [node?, TupleField.map, List.isEmpty_map, Option.isNone_map]
    split <;> rfl
  bound _ := rfl

theorem Listed.along_tokenGroup (f : Node → Node) : Along f (TokenGroup.map f) where
  node? t := by
    obtain ⟨tokens, tree⟩ := t
    match tokens with
    | [] | [_] | _ :: _ :: _ => rfl
  bound t := by
    obtain ⟨tokens, tree⟩ := t
    cases tokens <;> rfl

namespace Node

/-- A map of nodes that keeps what a node's label says besides where it stands. -/
structure Guise (f : Node → Node) : Prop where
  kind (n : Node) : (f n).kind = n.kind
  named (n : Node) : (f n).label.named = n.label.named
  extra (n : Node) : (f n).label.extra = n.label.extra
  field (n : Node) : (f n).label.field = n.label.field

namespace Guise

variable {f : Node → Node} (hf : Guise f)

include hf

theorem isProper (n : Node) : (f n).label.isProper = n.label.isProper := by
  simp only [Label.isProper, hf.named, hf.extra]

theorem isAttributeItem (n : Node) : (f n).isAttributeItem = n.isAttributeItem := by
  simp only [Node.isAttributeItem, hf.kind]

theorem isDelimiter (n : Node) : (f n).isDelimiter = n.isDelimiter := by
  simp only [Node.isDelimiter, hf.named, hf.kind]

theorem isComma (n : Node) : (f n).isComma = n.isComma := by
  simp only [Node.isComma, hf.named, hf.kind]

theorem isScoped (n : Node) : (f n).isScoped = n.isScoped := by
  simp only [Node.isScoped, hf.kind]

end Guise

/-- A map of nodes that keeps what a node says of itself and where it hangs. -/
structure Face (f : Node → Node) : Prop where
  label (n : Node) : (f n).label = n.label
  above (n : Node) : (f n).above = n.above

theorem Face.id : Face id :=
  ⟨fun _ => rfl, fun _ => rfl⟩

namespace Face

variable {f : Node → Node} (hf : Face f)

include hf

theorem kind (n : Node) : (f n).kind = n.kind := by
  simp only [Node.kind, hf.label]

theorem text (n : Node) (source : Text) : (f n).text source = n.text source := by
  simp only [Node.text, hf.label]

theorem start (n : Node) : (f n).start = n.start := by
  simp only [Node.start, hf.label]

theorem stop (n : Node) : (f n).stop = n.stop := by
  simp only [Node.stop, hf.label]

theorem guise : Guise f where
  kind := hf.kind
  named n := by rw [hf.label]
  extra n := by rw [hf.label]
  field n := by rw [hf.label]

theorem isAttributeItem (n : Node) : (f n).isAttributeItem = n.isAttributeItem :=
  hf.guise.isAttributeItem n

theorem isScoped (n : Node) : (f n).isScoped = n.isScoped :=
  hf.guise.isScoped n

theorem isPath (n : Node) : (f n).isPath = n.isPath := by
  simp only [Node.isPath, hf.kind]

theorem isPathExpression (n : Node) : (f n).isPathExpression = n.isPathExpression := by
  simp only [Node.isPathExpression, hf.isPath, parentKind?, hf.above, hf.label]

theorem isGenericParameter (n : Node) : (f n).isGenericParameter = n.isGenericParameter := by
  simp only [Node.isGenericParameter, hf.kind, parentKind?, hf.above]

theorem isWithinAttribute (n : Node) : (f n).isWithinAttribute = n.isWithinAttribute := by
  simp only [Node.isWithinAttribute, hf.above]

theorem accepts (w : Wildcard) (source : Text) (skipped : Nat) (n : Node) :
    w.accepts source skipped (f n) = w.accepts source skipped n := by
  simp only [Wildcard.accepts, hf.isGenericParameter, hf.text]

theorem bindOne (w : Wildcard) (source : Text) (skipped : Nat) (n : Node) :
    w.bindOne source skipped (f n) = w.bindOne source skipped n := by
  simp only [Wildcard.bindOne, hf.accepts, hf.text, hf.label]

theorem bindRun (w : Wildcard) (source : Text) (ns : List Node) (offset : Nat) :
    w.bindRun source (ns.map f) offset = w.bindRun source ns offset := by
  simp only [Wildcard.bindRun, List.length_map, List.all_map, Function.comp_def, hf.accepts,
    List.map_map, hf.label]

end Face

/-- The map also keeps the nodes that a comparison goes on to from a node. -/
structure Parts (f : Node → Node) (n : Node) : Prop where
  isLeaf : (f n).isLeaf = n.isLeaf
  marker {kind : String} (h : kind ∈ Clause.markerKinds) :
    (f n).hasChildOfKind kind = n.hasChildOfKind kind
  part (q : Part) : q.of (f n) = (q.of n).map f
  elements : (f n).elements = n.elements.map f
  significantChildren : (f n).significantChildren = n.significantChildren.map f
  outerAttributes : (f n).outerAttributes = n.outerAttributes.map f
  tupleFields : (f n).tupleFields = n.tupleFields.map (TupleField.map f)
  tokenGroups : (f n).tokenGroups = n.tokenGroups.map (TokenGroup.map f)

/-- The map also keeps what a comparison reads below a node and in front of it. -/
structure Kept (f : Node → Node) (n : Node) : Prop extends Parts f n where
  tokenText (source : Text) : (f n).tree.tokenText source = n.tree.tokenText source
  lastSegment : (f n).tree.lastSegment.label = n.tree.lastSegment.label

theorem Kept.id (n : Node) : Kept id n where
  isLeaf := rfl
  tokenText _ := rfl
  lastSegment := rfl
  marker _ := rfl
  part _ := by simp
  elements := by simp
  significantChildren := by simp
  outerAttributes := by simp
  tupleFields := by simp [funext TupleField.map_id']
  tokenGroups := by simp [funext TokenGroup.map_id']

/-- A candidate in one text reads as its image in another, but for where it stands. -/
structure Seen (source source' : Text) (move : Nat → Nat) (g : Node → Node) (n : Node) : Prop
    extends Parts g n where
  kind : (g n).kind = n.kind
  text : (g n).text source' = n.text source
  start : (g n).start = move n.start
  stop : (g n).stop = move n.stop
  isGenericParameter : (g n).isGenericParameter = n.isGenericParameter
  tokenText : (g n).tree.tokenText source' = n.tree.tokenText source
  lastSegment : (g n).tree.lastSegment.label.text source' = n.tree.lastSegment.label.text source

theorem seen_of_face {g : Node → Node} {n : Node} (hg : Face g) (h : Kept g n) (source : Text) :
    Seen source source id g n where
  toParts := h.toParts
  kind := hg.kind n
  text := hg.text n source
  start := hg.start n
  stop := hg.stop n
  isGenericParameter := hg.isGenericParameter n
  tokenText := h.tokenText source
  lastSegment := by rw [h.lastSegment]

namespace Seen

variable {source source' : Text} {move : Nat → Nat} {g : Node → Node} {n : Node}
  (hn : Seen source source' move g n)

include hn

theorem isScoped : (g n).isScoped = n.isScoped := by
  simp only [Node.isScoped, hn.kind]

theorem isPath : (g n).isPath = n.isPath := by
  simp only [Node.isPath, hn.kind]

theorem accepts (w : Wildcard) (skipped : Nat) :
    w.accepts source' skipped (g n) = w.accepts source skipped n := by
  simp only [Wildcard.accepts, hn.isGenericParameter, hn.text]

end Seen

theorem strategy_map {f g : Node → Node} (hf : Face f) {a b : Node}
    (ha : (f a).isLeaf = a.isLeaf) (hb : (g b).kind = b.kind) : strategy (f a) (g b) = strategy a b := by
  simp only [strategy, hf.kind, hb, hf.isPathExpression, hf.isWithinAttribute, ha]

def orderedLists (n : Node) : List (List Node) :=
  n.elements :: n.significantChildren :: n.tupleFields.map (·.type) :: n.tokenGroups.map (·.tokens)

/-- Where a run of no nodes stands in a list that hangs from a node: at the node, at the next member
of an ordered list, or behind its last member. -/
inductive Anchor (n : Node) : Nat → Prop
  | start : Anchor n n.start
  | next {ns : List Node} {y : Node} (hns : ns ∈ n.orderedLists) (hy : y ∈ ns) : Anchor n y.start
  | last {ns : List Node} {y : Node} (hns : ns ∈ n.orderedLists) (hy : ns.getLast? = some y) :
    Anchor n y.stop

def AnchorIn (T : Node → Prop) (offset : Nat) : Prop :=
  ∃ n, T n ∧ n.Anchor offset

end Node

namespace Pattern

open Node

variable {r : Attempt Captures → Attempt Captures → Prop} {p p' : Pattern} {source source' : Text}
  {move : Nat → Nat} {f g : Node → Node} {T : Node → Prop} {V : Nat → Prop}

/-- A second pattern, which sees the images of the nodes that the first one sees. -/
structure Image (p p' : Pattern) (f : Node → Node) : Prop where
  text : p'.parsed.text = p.parsed.text
  none {x : Node} : p.wildcard? x = none → p'.wildcard? (f x) = none

/-- What the wildcard at `x` binds is related on both sides, as long as it binds nodes in `T`, and no
nodes at an offset in `V`. -/
structure BoundAt (r : Attempt Captures → Attempt Captures → Prop) (p' : Pattern)
    (source source' : Text) (move : Nat → Nat) (f g : Node → Node) (T : Node → Prop)
    (V : Nat → Prop) (x : Node) (w : Wildcard) : Prop where
  wildcard : p'.wildcard? (f x) = some w
  one {n : Node} (hn : T n) : r (w.bindOne source 0 n) (w.bindOne source' 0 (g n))
  run {ns : List Node} {offset : Nat} (hns : ∀ n ∈ ns, T n)
    (hoffset : ns = [] → V offset) :
    r (w.bindRun source ns offset) (w.bindRun source' (ns.map g) (move offset))

section Lists

variable {α : Type} [Listed α] {F G : α → α} {patterns candidates : List α} {parent : Node}
  {one one' : α → α → Attempt Captures}

theorem element_map (hp : Image p p' f) (hF : Listed.Along f F) {a : α}
    (hat : ∀ x, Listed.node? a = some x → ∀ w, p.wildcard? x = some w →
      BoundAt r p' source source' move f g T V x w) :
    p'.element (F a) = (p.element a).map F := by
  have hw : (Listed.node? (F a)).bind p'.wildcard? = (Listed.node? a).bind p.wildcard? := by
    rw [hF.node?]
    cases hx : Listed.node? a with
    | none => rfl
    | some x =>
        simp only [Option.map_some, Option.bind_some]
        cases hwx : p.wildcard? x with
        | none => exact hp.none hwx
        | some w => exact (hat x hx w hwx).wildcard
  simp only [element, hw]
  cases (Listed.node? a).bind p.wildcard? with
  | none => rfl
  | some w => cases hq : w.quantifier.isSingle <;> simp [hq, Element.map]

theorem map_element_map (hp : Image p p' f) (hF : Listed.Along f F)
    (hat : ∀ a ∈ patterns, ∀ x, Listed.node? a = some x → ∀ w, p.wildcard? x = some w →
      BoundAt r p' source source' move f g T V x w) :
    (patterns.map F).map p'.element = (patterns.map p.element).map (.map F) := by
  rw [List.map_map, List.map_map]
  exact List.map_congr_left fun a ha => element_map hp hF (hat a ha)

theorem related_of_one (hone : ∀ a ∈ patterns, ∀ b ∈ candidates, r (one a b) (one' (F a) (G b)))
    (a : α) (ha : .one a ∈ patterns.map p.element) (b : α) (hb : b ∈ candidates) :
    r (one a b) (one' (F a) (G b)) := by
  obtain ⟨a', ha', he⟩ := List.mem_map.mp ha
  rw [eq_of_element_eq_one he]
  exact hone a' ha' b hb

theorem images_comparison (hg : ∀ b, T b → Node.Seen source source' move g b)
    (hG : Listed.Along g G) (one one' : α → α → Attempt Captures) :
    Comparison.Images (comparison source one) (comparison source' one') G move
      fun c => T (Listed.bound c) where
  quantifier := rfl
  takes hc w := by simp only [comparison, hG.bound, (hg _ hc).accepts]
  start hc := by simp only [comparison, hG.bound, (hg _ hc).start]

theorem anchor_of_suffix (hlist : candidates.map Listed.bound ∈ parent.orderedLists)
    (source : Text) (one : α → α → Attempt Captures) {rest : List α} (hrest : rest <:+ candidates) :
    parent.Anchor ((comparison source one).anchor
      ((candidates.getLast?.map (comparison source one).stop).getD parent.start) rest) := by
  cases rest with
  | cons c rest => exact .next hlist (List.mem_map_of_mem (hrest.subset List.mem_cons_self))
  | nil =>
      cases hc : candidates.getLast? with
      | none => exact .start
      | some c => exact .last hlist (by rw [List.getLast?_map, hc]; rfl)

variable (h : Attempt.Congruence r) (hp : Image p p' f)
  (hg : ∀ b, T b → Node.Seen source source' move g b) (hparent : (g parent).start = move parent.start)
  (hF : Listed.Along f F) (hG : Listed.Along g G)
  (hone : ∀ a ∈ patterns, ∀ b ∈ candidates, r (one a b) (one' (F a) (G b)))
  (hat : ∀ a ∈ patterns, ∀ x, Listed.node? a = some x → ∀ w, p.wildcard? x = some w →
    BoundAt r p' source source' move f g T V x w)
  (hT : ∀ c ∈ candidates, T (Listed.bound c))

include h hp hg hparent hF hG hone hat hT

theorem matchInOrder_images (hV : ∀ rest, rest <:+ candidates →
      V ((comparison source one).anchor
        ((candidates.getLast?.map (comparison source one).stop).getD parent.start) rest)) :
    r (p.matchInOrder source one patterns candidates parent)
      (p'.matchInOrder source' one' (patterns.map F) (candidates.map G) (g parent)) := by
  have hfallback : (((candidates.map G).getLast?.map (comparison source' one').stop).getD
      (g parent).start) =
      move ((candidates.getLast?.map (comparison source one).stop).getD parent.start) := by
    rw [List.getLast?_map]
    cases hlast : candidates.getLast? with
    | none => exact hparent
    | some c =>
        have hstop := (hg _ (hT c (List.mem_of_getLast? hlast))).stop
        simp only [Option.map_some, Option.getD_some, comparison, hG.bound, hstop]
  simp only [matchInOrder, map_element_map hp hF hat, hfallback]
  refine Comparison.inOrder_images h (images_comparison hg hG one one') _ hT ?_ ?_
  · exact related_of_one hone
  · intro w hw rest hrest n
    obtain ⟨a, ha, he⟩ := List.mem_map.mp hw
    obtain ⟨x, hx, hwx⟩ := wildcard_of_element_eq_run he
    have hns : ∀ y ∈ (rest.take n).map Listed.bound, T y := by
      intro y hy
      obtain ⟨c, hc, rfl⟩ := List.mem_map.mp hy
      exact hT c (hrest.subset (List.take_subset n rest hc))
    have hrun := (hat a ha x hx w hwx).run hns fun _ => hV rest hrest
    simpa only [comparison, hG.map_bound] using hrun

theorem matchInAnyOrder_images (hV : V parent.start) :
    r (p.matchInAnyOrder source one patterns candidates parent)
      (p'.matchInAnyOrder source' one' (patterns.map F) (candidates.map G) (g parent)) := by
  simp only [matchInAnyOrder, map_element_map hp hF hat, hparent]
  refine Comparison.anyOrder_images h (images_comparison hg hG one one') _ hT ?_ ?_
  · exact related_of_one hone
  · intro w hw taken htaken
    obtain ⟨a, ha, he⟩ := List.mem_map.mp hw
    obtain ⟨x, hx, hwx⟩ := wildcard_of_element_eq_run he
    have hns : ∀ y ∈ taken.map Listed.bound, T y := by
      intro y hy
      obtain ⟨c, hc, rfl⟩ := List.mem_map.mp hy
      exact hT c (htaken.subset hc)
    have hrun := (hat a ha x hx w hwx).run hns fun _ => hV
    simpa only [comparison, hG.map_bound] using hrun

end Lists

theorem nodes_of_node? (f : TupleField) (x : Node) (h : Listed.node? f = some x) :
    f.nodes = [x] := by
  simp only [Listed.node?] at h
  split at h
  next hc =>
    rw [Bool.and_eq_true, List.isEmpty_iff, Option.isNone_iff_eq_none] at hc
    rw [Option.some.injEq] at h
    rw [TupleField.nodes, hc.1, hc.2, h]
    rfl
  next => cases h

theorem tokens_of_node? (g : TokenGroup) (x : Node) (h : Listed.node? g = some x) :
    g.tokens = [x] := by
  simp only [Listed.node?] at h
  split at h
  next n hn =>
    rw [Option.some.injEq] at h
    rw [hn, h]
  next => cases h

theorem tree_of_mem_tokenGroups {n : Node} {g : TokenGroup} (h : g ∈ n.tokenGroups) : g.tree = n := by
  obtain ⟨tokens, -, rfl⟩ := List.mem_map.mp h
  rfl

theorem bound_of_mem_tokenGroups {n : Node} {g : TokenGroup} (hg : g ∈ n.tokenGroups) (hn : T n)
    (hT : ∀ y ∈ Clause.tokenGroups.compared n, T y) : T (Listed.bound g) := by
  have htree := tree_of_mem_tokenGroups hg
  obtain ⟨tokens, tree⟩ := g
  cases tokens with
  | nil =>
      obtain rfl : tree = n := htree
      exact hn
  | cons y tokens => exact hT y (TokenGroup.tokens_subset_compared hg List.mem_cons_self)

theorem matchOptional_images (h : Attempt.Congruence r) {cmp cmp' : Node → Node → Attempt Captures}
    {a b : Option Node} (hcmp : ∀ x ∈ a.toList, ∀ y ∈ b.toList, r (cmp x y) (cmp' (f x) (g y))) :
    r (matchOptional cmp a b) (matchOptional cmp' (a.map f) (b.map g)) := by
  cases a with
  | none => exact h.succeed
  | some x =>
      cases b with
      | none => exact h.fail
      | some y => exact hcmp x (by simp) y (by simp)

section Ask

variable (h : Attempt.Congruence r) (hp : Image p p' f)
  (hg : ∀ b, T b → Node.Seen source source' move g b) {cmp cmp' : Node → Node → Attempt Captures}

include h hp hg

theorem matchTupleField_images {t u : TupleField}
    (hcmp : ∀ x ∈ t.nodes, ∀ y ∈ u.nodes, r (cmp x y) (cmp' (f x) (g y)))
    (hat : ∀ x ∈ t.nodes, ∀ w, p.wildcard? x = some w → BoundAt r p' source source' move f g T V x w)
    (hT : ∀ y ∈ u.nodes, T y) (hV : V u.type.start) :
    r (p.matchTupleField source cmp t u)
      (p'.matchTupleField source' cmp' (t.map f) (u.map g)) := by
  have htype := hcmp t.type t.type_mem_nodes u.type u.type_mem_nodes
  refine h.all (.cons ?_ (.cons ?_ (.cons htype .nil)))
  · refine matchInAnyOrder_images h hp hg (hg _ (hT _ u.type_mem_nodes)).start (Listed.along_node f)
      (Listed.along_node g) (fun x hx y hy => ?_) ?_
      (fun y hy => hT y (u.attributes_subset_nodes hy)) hV
    · exact hcmp x (t.attributes_subset_nodes hx) y (u.attributes_subset_nodes hy)
    · rintro a ha x ⟨⟩
      exact hat a (t.attributes_subset_nodes ha)
  · apply matchOptional_images h
    intro x hx y hy
    exact hcmp x (t.visibility_subset_nodes hx) y (u.visibility_subset_nodes hy)

theorem matchTokenGroup_images {t u : TokenGroup}
    (hcmp : ∀ x ∈ t.tokens, ∀ y ∈ u.tokens, r (cmp x y) (cmp' (f x) (g y)))
    (hat : ∀ x ∈ t.tokens, ∀ w, p.wildcard? x = some w → BoundAt r p' source source' move f g T V x w)
    (hT : ∀ y ∈ u.tokens, T y) (htree : T u.tree)
    (hV : ∀ rest, rest <:+ u.tokens → V ((comparison source cmp).anchor
      ((u.tokens.getLast?.map (comparison source cmp).stop).getD u.tree.start) rest)) :
    r (p.matchTokenGroup source cmp t u)
      (p'.matchTokenGroup source' cmp' (t.map f) (u.map g)) := by
  refine matchInOrder_images h hp hg (hg _ htree).start (Listed.along_node f) (Listed.along_node g)
    hcmp ?_ hT hV
  rintro a ha x ⟨⟩
  exact hat a ha

theorem matchQuotedName_images (hf : Node.Face f) {a b : Node} (ha : Node.Kept f a) (hb : T b)
    (hat : ∀ x, a.childOfKind? "identifier" = some x → ∀ w, p.wildcard? x = some w →
      p'.wildcard? (f x) = some w ∧ r (w.bindOne source 1 b) (w.bindOne source' 1 (g b))) :
    r (p.matchQuotedName source a b) (p'.matchQuotedName source' (f a) (g b)) := by
  have hname : (f a).childOfKind? "identifier" = (a.childOfKind? "identifier").map f :=
    ha.part (.childOfKind "identifier")
  simp only [matchQuotedName, hname, hp.text, hf.text, (hg b hb).text]
  cases hx : a.childOfKind? "identifier" with
  | none => exact h.test _
  | some x =>
      simp only [Option.map_some, Option.bind_some]
      cases hw : p.wildcard? x with
      | none =>
          rw [hp.none hw]
          exact h.test _
      | some w =>
          obtain ⟨hw', hbind⟩ := hat x hx w hw
          rw [hw']
          exact hbind

variable {a b : Node} {c : Clause} (ha : Node.Kept f a) (hTb : T b) (hT : ∀ y ∈ c.compared b, T y)
  (hV : ∀ y, T y → ∀ offset, y.Anchor offset → V offset)
  (hcmp : ∀ x ∈ c.opened a, ∀ y ∈ c.compared b, r (cmp x y) (cmp' (f x) (g y)))
  (hat : ∀ x ∈ c.opened a, ∀ w, p.wildcard? x = some w → BoundAt r p' source source' move f g T V x w)

include ha hTb hT hV hcmp hat

theorem tupleFields_images (hc : c = .tupleFields) :
    r (p.ask source cmp a b c) (p'.ask source' cmp' (f a) (g b) c) := by
  subst hc
  have hb := hg b hTb
  have hmem {n : Node} {t : TupleField} (ht : t ∈ n.tupleFields) :=
    TupleField.nodes_subset_compared ht
  have htype {u : TupleField} (hu : u ∈ b.tupleFields) : T u.type :=
    hT u.type (hmem hu u.type_mem_nodes)
  simp only [ask, ha.tupleFields, hb.tupleFields]
  refine matchInOrder_images (V := V) h hp hg hb.start (Listed.along_tupleField f)
    (Listed.along_tupleField g) (fun t ht u hu => ?_) (fun t ht x hx => ?_)
    (fun u hu => htype hu) fun rest hrest => ?_
  · exact matchTupleField_images h hp hg
      (fun x hx y hy => hcmp x (hmem ht hx) y (hmem hu hy))
      (fun x hx => hat x (hmem ht hx)) (fun y hy => hT y (hmem hu hy))
      (hV u.type (htype hu) _ .start)
  · exact hat x (hmem ht (by simp [nodes_of_node? t x hx]))
  · have htypes : b.tupleFields.map Listed.bound ∈ b.orderedLists := by
      have hbound : b.tupleFields.map Listed.bound = b.tupleFields.map (·.type) := rfl
      simp [hbound, Node.orderedLists]
    exact hV b hTb _ (anchor_of_suffix htypes source _ hrest)

theorem tokenGroups_images (hc : c = .tokenGroups) :
    r (p.ask source cmp a b c) (p'.ask source' cmp' (f a) (g b) c) := by
  subst hc
  have hb := hg b hTb
  have hmem {n : Node} {t : TokenGroup} (ht : t ∈ n.tokenGroups) :=
    TokenGroup.tokens_subset_compared ht
  simp only [ask, ha.tokenGroups, hb.tokenGroups]
  refine matchInAnyOrder_images (T := T) h hp hg hb.start (Listed.along_tokenGroup f)
    (Listed.along_tokenGroup g) (fun t ht u hu => ?_) (fun t ht x hx => ?_)
    (fun u hu => bound_of_mem_tokenGroups hu hTb hT) (hV b hTb _ .start)
  · have htree : u.tree = b := tree_of_mem_tokenGroups hu
    have htokens : u.tokens ∈ b.orderedLists := by
      simp only [Node.orderedLists, List.mem_cons, List.mem_map]
      exact .inr (.inr (.inr ⟨u, hu, rfl⟩))
    refine matchTokenGroup_images h hp hg (fun x hx y hy => hcmp x (hmem ht hx) y (hmem hu hy))
      (fun x hx => hat x (hmem ht hx)) (fun y hy => hT y (hmem hu hy)) (htree ▸ hTb) ?_
    intro rest hrest
    rw [htree]
    apply hV b hTb
    exact anchor_of_suffix (by rwa [Listed.map_bound_node]) source cmp hrest
  · exact hat x (hmem ht (by simp [tokens_of_node? t x hx]))

theorem ask_images (hf : Node.Face f) (hc : c ∈ strategy a b)
    (hquoted : c = .quotedName → ∀ x, a.childOfKind? "identifier" = some x →
      ∀ w, p.wildcard? x = some w → p'.wildcard? (f x) = some w ∧
        r (w.bindOne source 1 b) (w.bindOne source' 1 (g b))) :
    r (p.ask source cmp a b c) (p'.ask source' cmp' (f a) (g b) c) := by
  have hb := hg b hTb
  have hnode {ns : List Node} (hns : ∀ x ∈ ns, ∀ w, p.wildcard? x = some w →
      BoundAt r p' source source' move f g T V x w) : ∀ a ∈ ns, ∀ x, Listed.node? a = some x → ∀ w,
      p.wildcard? x = some w → BoundAt r p' source source' move f g T V x w := by
    rintro a ha x ⟨⟩
    exact hns a ha
  have hlist {ns : List Node} (hns : ns ∈ b.orderedLists) (rest : List Node) (hrest : rest <:+ ns) :
      V ((comparison source cmp).anchor
        ((ns.getLast?.map (comparison source cmp).stop).getD b.start) rest) :=
    hV b hTb _ (anchor_of_suffix (by rwa [Listed.map_bound_node]) source cmp hrest)
  cases c with
  | kindAmong kinds =>
      simp only [ask, hb.kind]
      exact h.test _
  | marker kind =>
      simp only [ask, ha.marker (marker_mem_strategy hc), hb.marker (marker_mem_strategy hc)]
      exact h.test _
  | sameText =>
      simp only [ask, hp.text, hf.text, hb.text]
      exact h.test _
  | sameTokens =>
      simp only [ask, hp.text, ha.tokenText, hb.tokenText]
      exact h.test _
  | sameValue =>
      simp only [ask, hp.text, hf.kind, hf.text, hb.kind, hb.text]
      exact h.test _
  | genericParameter =>
      simp only [ask, hb.isGenericParameter]
      exact h.test _
  | segments =>
      simp only [ask, hb.isScoped, hb.isLeaf]
      exact h.test _
  | lastSegment =>
      simp only [ask, hp.text, hf.text, hb.isPath, hb.lastSegment]
      exact h.test _
  | part q =>
      simp only [ask, ha.part, hb.part]
      exact matchOptional_images h hcmp
  | elementsInOrder =>
      simp only [ask, ha.elements, hb.elements]
      exact matchInOrder_images h hp hg hb.start (Listed.along_node f) (Listed.along_node g) hcmp
        (hnode hat) hT (hlist (by simp [Node.orderedLists]))
  | elementsInAnyOrder =>
      simp only [ask, ha.elements, hb.elements]
      exact matchInAnyOrder_images h hp hg hb.start (Listed.along_node f) (Listed.along_node g) hcmp
        (hnode hat) hT (hV b hTb _ .start)
  | childrenInOrder =>
      simp only [ask, ha.significantChildren, hb.significantChildren]
      exact matchInOrder_images h hp hg hb.start (Listed.along_node f) (Listed.along_node g) hcmp
        (hnode hat) hT (hlist (by simp [Node.orderedLists]))
  | attributes =>
      simp only [ask, ha.outerAttributes, hb.outerAttributes]
      exact matchInAnyOrder_images h hp hg hb.start (Listed.along_node f) (Listed.along_node g) hcmp
        (hnode hat) hT (hV b hTb _ .start)
  | tupleFields => exact tupleFields_images h hp hg ha hTb hT hV hcmp hat rfl
  | tokenGroups => exact tokenGroups_images h hp hg ha hTb hT hV hcmp hat rfl
  | quotedName => exact matchQuotedName_images h hp hg hf ha hTb (hquoted rfl)

end Ask

theorem all_of_kind_ne {a b : Node} (h : .quotedName ∈ strategy a b) (hkind : b.kind ≠ a.kind)
    (p : Pattern) (source : Text) (cmp : Node → Node → Attempt Captures) :
    Attempt.all ((strategy a b).map (p.ask source cmp a b)) = .fail := by
  obtain ⟨-, hs⟩ := strategy_of_quotedName_mem h
  have htest : p.ask source cmp a b (.kindAmong [a.kind]) = .fail := by
    simp only [ask, List.contains_cons, List.contains_nil, Bool.or_false,
      beq_eq_false_iff_ne.mpr hkind]
    rfl
  rw [hs, List.map_cons, htest]
  rfl

/-- A set of the pattern's nodes that a comparison does not leave. -/
def Stays (p : Pattern) (S : Node → Prop) : Prop :=
  ∀ a x, S a → p.wildcard? a = none → ∀ c ∈ strategy a a, x ∈ c.opened a → S x

theorem Stable.stays {S : Node → Prop} (hS : Stable S) (p : Pattern) : p.Stays S :=
  fun a x ha _ c _ hx => hS a x ha c (Clause.compared_of_opened hx).1

/-- What a wildcard binds is related on both sides, where it is compared with a node and where it is
the name behind a quote. -/
structure PlacedAt (r : Attempt Captures → Attempt Captures → Prop) (p' : Pattern)
    (source source' : Text) (move : Nat → Nat) (f g : Node → Node) (S T : Node → Prop) (x : Node)
    (w : Wildcard) : Prop where
  wildcard : p'.wildcard? (f x) = some w
  bound (hx : S x) : BoundAt r p' source source' move f g T (AnchorIn T) x w
  quoted {a n : Node} (ha : S a) (hquoted : a.isQuoted = true)
    (hx : a.childOfKind? "identifier" = some x) (hn : T n) (hkind : n.kind = a.kind) :
    r (w.bindOne source 1 n) (w.bindOne source' 1 (g n))

/-- The relation holds of whole comparisons if it holds of all that they can bind. -/
theorem compare_images {S : Node → Prop} (h : Attempt.Congruence r) (hp : Image p p' f)
    (hf : Node.Face f) (hg : ∀ b, T b → Node.Seen source source' move g b) (hS : p.Stays S)
    (hT : Node.Stable T) (hkf : ∀ a, S a → Node.Kept f a) {room : Nat} {a b : Node}
    (ha : S a) (hb : T b)
    (hat : ∀ x ∈ p.places room a, ∀ w, p.wildcard? x = some w →
      PlacedAt r p' source source' move f g S T x w) :
    r (p.compare source room a b) (p'.compare source' room (f a) (g b)) := by
  induction room generalizing a b with
  | zero =>
      cases hw : p.wildcard? a with
      | none =>
          simp only [compare, hw, hp.none hw]
          exact h.fail
      | some w =>
          have hplaced := hat a (by simp [places_of_wildcard hw]) w hw
          rw [compare_of_wildcard hw, compare_of_wildcard hplaced.wildcard]
          exact (hplaced.bound ha).one hb
  | succ room ih =>
      cases hw : p.wildcard? a with
      | some w =>
          have hplaced := hat a (by simp [places_of_wildcard hw]) w hw
          rw [compare_of_wildcard hw, compare_of_wildcard hplaced.wildcard]
          exact (hplaced.bound ha).one hb
      | none =>
          simp only [compare, hw, hp.none hw]
          by_cases hkind : .quotedName ∈ strategy a b ∧ b.kind ≠ a.kind
          · -- the kinds are asked for first, so that the name is not bound
            have hquoted : .quotedName ∈ strategy (f a) (g b) := by
              rw [Node.strategy_map hf (hkf a ha).isLeaf (hg b hb).kind]
              exact hkind.1
            have hkind' : (g b).kind ≠ (f a).kind := by
              rw [hf.kind, (hg b hb).kind]
              exact hkind.2
            rw [all_of_kind_ne hkind.1 hkind.2, all_of_kind_ne hquoted hkind']
            exact h.fail
          · rw [Node.strategy_map hf (hkf a ha).isLeaf (hg b hb).kind]
            apply h.all
            rw [List.forall₂_map_left_iff, List.forall₂_map_right_iff, List.forall₂_same]
            intro c hc
            have hself {x : Node} (hx : x ∈ c.compared a) : c ∈ strategy a a :=
              mem_strategy_self hc hx
            have hbelow {x y : Node} (hx : x ∈ c.compared a) (hy : y ∈ p.places room x) :
                y ∈ p.places (room + 1) a := by
              rw [places_succ hw]
              exact List.mem_flatMap.mpr ⟨c, hself hx, List.mem_flatMap.mpr ⟨x, hx, hy⟩⟩
            have hplaced {x : Node} {w : Wildcard} (hx : x ∈ c.compared a)
                (hwx : p.wildcard? x = some w) : PlacedAt r p' source source' move f g S T x w :=
              hat x (hbelow hx (by simp [places_of_wildcard hwx])) w hwx
            have hSx {x : Node} (hx : x ∈ c.opened a) : S x :=
              hS a x ha hw c (hself (Clause.compared_of_opened hx).1) hx
            refine ask_images (V := AnchorIn T) h hp hg (hkf a ha) hb (fun y hy => hT b y hb c hy)
              (fun y hy _ hoffset => ⟨y, hy, hoffset⟩) (fun x hx y hy => ?_) (fun x hx w hwx => ?_)
              hf hc ?_
            · exact ih (hSx hx) (hT b y hb c hy)
                fun z hz => hat z (hbelow (Clause.compared_of_opened hx).1 hz)
            · exact (hplaced (Clause.compared_of_opened hx).1 hwx).bound (hSx hx)
            · rintro rfl x hx w hwx
              obtain ⟨hquoted, -⟩ := strategy_of_quotedName_mem hc
              have hx' := hplaced (Option.mem_toList.mpr hx) hwx
              refine ⟨hx'.wildcard, hx'.quoted ha hquoted hx hb ?_⟩
              exact Decidable.byContradiction fun hne => hkind ⟨hc, hne⟩

/-- A comparison cannot tell nodes from images that keep all it reads. -/
theorem compare_map {S : Node → Prop} (htext : p'.parsed.text = p.parsed.text)
    (hwildcard : ∀ x, p'.wildcard? (f x) = p.wildcard? x) (hf : Node.Face f) (hg : Node.Face g)
    (hS : Node.Stable S) (hT : Node.Stable T) (hkf : ∀ a, S a → Node.Kept f a)
    (hkg : ∀ b, T b → Node.Kept g b) {a b : Node} (ha : S a) (hb : T b) (source : Text)
    (room : Nat) : p'.compare source room (f a) (g b) = p.compare source room a b := by
  have hp : Image p p' f := ⟨htext, fun {x} hx => (hwildcard x).trans hx⟩
  have hseen (b : Node) (hb : T b) := Node.seen_of_face hg (hkg b hb) source
  refine (compare_images Attempt.eq_congruence hp hf hseen (Stable.stays hS p) hT hkf ha hb
    fun x _ w hw => ⟨(hwildcard x).trans hw, fun _ => ⟨(hwildcard x).trans hw, ?_, ?_⟩, ?_⟩).symm
  · exact fun _ => (hg.bindOne w source 0 _).symm
  · exact fun _ _ => (hg.bindRun w source _ _).symm
  · exact fun _ _ _ _ _ => (hg.bindOne w source 1 _).symm

section SameShape

structure SameShape (p p' : Pattern) : Prop where
  parsed : p'.parsed = p.parsed
  none {x : Node} : p.wildcard? x = none → p'.wildcard? x = none

theorem SameShape.refl (p : Pattern) : SameShape p p := ⟨rfl, id⟩

theorem SameShape.image (hs : SameShape p p') : Image p p' id :=
  ⟨by rw [hs.parsed], hs.none⟩

def RelatedAt (r : Attempt Captures → Attempt Captures → Prop) (p p' : Pattern) (source : Text)
    (x : Node) : Prop :=
  ∀ w, p.wildcard? x = some w → p'.wildcard? x = some w ∧
    (∀ skipped n, r (w.bindOne source skipped n) (w.bindOne source skipped n)) ∧
      ∀ ns offset, r (w.bindRun source ns offset) (w.bindRun source ns offset)

theorem RelatedAt.wildcard_eq (hs : SameShape p p') {x : Node} (h : RelatedAt r p p' source x) :
    p'.wildcard? x = p.wildcard? x := by
  cases hx : p.wildcard? x with
  | none => exact hs.none hx
  | some w => exact (h w hx).1

theorem seen_self (T : Node → Prop) (source : Text) (b : Node) (_ : T b) :
    Node.Seen source source id id b :=
  Node.seen_of_face .id (.id b) source

theorem RelatedAt.boundAt {x : Node} (h : RelatedAt r p p' source x) {w : Wildcard}
    (hw : p.wildcard? x = some w) : BoundAt r p' source source id id id T V x w where
  wildcard := (h w hw).1
  one _ := (h w hw).2.1 0 _
  run _ _ := by simpa only [List.map_id, id_eq] using (h w hw).2.2 _ _

variable {cmp cmp' : Node → Node → Attempt Captures}

section Lists

variable {α : Type} [Listed α] {patterns : List α} {one one' : α → α → Attempt Captures}

variable (h : Attempt.Congruence r) (hs : SameShape p p')
  (hone : ∀ a ∈ patterns, ∀ b, r (one a b) (one' a b))
  (hat : ∀ a ∈ patterns, ∀ x, Listed.node? a = some x → RelatedAt r p p' source x)

include h hs hone hat

theorem matchInOrder_related (candidates : List α) (parent : Node) :
    r (p.matchInOrder source one patterns candidates parent)
      (p'.matchInOrder source one' patterns candidates parent) := by
  have himages : r (p.matchInOrder source one patterns candidates parent)
      (p'.matchInOrder source one' (patterns.map id) (candidates.map id) (id parent)) :=
    matchInOrder_images (V := fun _ => True) h hs.image (seen_self (fun _ => True) source) rfl
      (Listed.along_id α) (Listed.along_id α) (fun a ha b _ => hone a ha b)
      (fun a ha x hx _ => (hat a ha x hx).boundAt) (fun _ _ => trivial) fun _ _ => trivial
  simpa only [List.map_id, id_eq] using himages

theorem matchInAnyOrder_related (candidates : List α) (parent : Node) :
    r (p.matchInAnyOrder source one patterns candidates parent)
      (p'.matchInAnyOrder source one' patterns candidates parent) := by
  have himages : r (p.matchInAnyOrder source one patterns candidates parent)
      (p'.matchInAnyOrder source one' (patterns.map id) (candidates.map id) (id parent)) :=
    matchInAnyOrder_images (V := fun _ => True) h hs.image (seen_self (fun _ => True) source) rfl
      (Listed.along_id α) (Listed.along_id α) (fun a ha b _ => hone a ha b)
      (fun a ha x hx _ => (hat a ha x hx).boundAt) (fun _ _ => trivial) trivial
  simpa only [List.map_id, id_eq] using himages

end Lists

theorem matchOptional_related (h : Attempt.Congruence r) (cmp' : Node → Node → Attempt Captures)
    {a : Option Node} (hcmp : ∀ x ∈ a.toList, ∀ y, r (cmp x y) (cmp' x y)) (b : Option Node) :
    r (matchOptional cmp a b) (matchOptional cmp' a b) := by
  have himages : r (matchOptional cmp a b) (matchOptional cmp' (a.map id) (b.map id)) :=
    matchOptional_images h fun x hx y _ => hcmp x hx y
  simpa only [Option.map_id_fun, id_eq] using himages

theorem matchTupleField_related (h : Attempt.Congruence r) (hs : SameShape p p')
    (cmp' : Node → Node → Attempt Captures) {t : TupleField}
    (hcmp : ∀ x ∈ t.nodes, ∀ y, r (cmp x y) (cmp' x y))
    (hat : ∀ x ∈ t.nodes, RelatedAt r p p' source x) (u : TupleField) :
    r (p.matchTupleField source cmp t u) (p'.matchTupleField source cmp' t u) := by
  have himages : r (p.matchTupleField source cmp t u)
      (p'.matchTupleField source cmp' (t.map id) (u.map id)) :=
    matchTupleField_images (V := fun _ => True) h hs.image (seen_self (fun _ => True) source)
      (fun x hx y _ => hcmp x hx y) (fun x hx _ => (hat x hx).boundAt) (fun _ _ => trivial) trivial
  simpa only [TupleField.map_id'] using himages

theorem ask_related (h : Attempt.Congruence r) (hs : SameShape p p')
    (cmp' : Node → Node → Attempt Captures) {a b : Node} {c : Clause} (hc : c ∈ strategy a b)
    (hcmp : ∀ x ∈ c.compared a, ∀ y, r (cmp x y) (cmp' x y))
    (hat : ∀ x ∈ c.compared a, RelatedAt r p p' source x) :
    r (p.ask source cmp a b c) (p'.ask source cmp' a b c) :=
  have hopened {x : Node} (hx : x ∈ c.opened a) : x ∈ c.compared a :=
    (Clause.compared_of_opened hx).1
  ask_images (V := fun _ => True) (f := id) (g := id) h hs.image (seen_self (fun _ => True) source)
    (.id a) trivial (fun _ _ => trivial) (fun _ _ _ _ => trivial)
    (fun x hx y _ => hcmp x (hopened hx) y) (fun x hx _ => (hat x (hopened hx)).boundAt) .id hc
    fun hquoted x hx w hw =>
      have hbound := hat x (hquoted ▸ Option.mem_toList.mpr hx) w hw
      ⟨hbound.1, hbound.2.1 1 b⟩

theorem compare_related (h : Attempt.Congruence r) (hs : SameShape p p') {room : Nat} {a : Node}
    (hat : ∀ x ∈ p.places room a, RelatedAt r p p' source x) (b : Node) :
    r (p.compare source room a b) (p'.compare source room a b) :=
  have hall : Stable fun _ => True := fun _ _ _ _ _ => trivial
  compare_images (f := id) (g := id) h hs.image .id (seen_self _ source) (Stable.stays hall p) hall
    (fun a _ => .id a) trivial trivial fun x hx w hw =>
      ⟨(hat x hx w hw).1, fun _ => (hat x hx).boundAt hw, fun _ _ _ _ _ => (hat x hx w hw).2.1 1 _⟩

theorem compare_config (p : Pattern) (config : Config) (source : Text) (room : Nat) (a b : Node) :
    compare { p with config := config } source room a b = p.compare source room a b := by
  have hshape : SameShape p { p with config := config } := ⟨rfl, id⟩
  refine (compare_related Attempt.eq_congruence hshape (fun x _ w hw => ?_) b).symm
  exact ⟨hw, fun _ _ => rfl, fun _ _ => rfl⟩

end SameShape

end Pattern

end ShapeSearch
