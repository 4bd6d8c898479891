import ShapeSearch.Proofs.Extras
import ShapeSearch.Proofs.MatchedNodes
import ShapeSearch.Proofs.Slices

namespace ShapeSearch

def Label.move (f : Nat → Nat) (l : Label) : Label :=
  { l with start := f l.start, stop := f l.stop }

def Label.shift (d : Nat) : Label → Label :=
  move (· + d)

theorem Label.text_shift {source inner : Text} {d stop : Nat} {l : Label}
    (hinner : source.slice? d (stop + d) = some inner) (h : l.stop ≤ stop) :
    (l.shift d).text source = l.text inner :=
  Text.slice_of_slice? hinner (Nat.add_le_add_right h d)

namespace Tree

mutual

def move (f : Nat → Nat) : Tree → Tree
  | node l ts => node (l.move f) (moveAll f ts)

def moveAll (f : Nat → Nat) : List Tree → List Tree
  | [] => []
  | t :: ts => move f t :: moveAll f ts

end

def shift (d : Nat) : Tree → Tree :=
  move (· + d)

theorem moveAll_eq (f : Nat → Nat) (ts : List Tree) : moveAll f ts = ts.map (move f) := by
  induction ts with
  | nil => rfl
  | cons t ts ih => rw [moveAll, ih, List.map_cons]

theorem move_node (f : Nat → Nat) (l : Label) (ts : List Tree) :
    (node l ts).move f = node (l.move f) (ts.map (move f)) := by
  rw [move, moveAll_eq]

theorem label_shift (d : Nat) (t : Tree) : (t.shift d).label = t.label.shift d := by
  cases t; rfl

theorem children_shift (d : Nat) (t : Tree) : (t.shift d).children = t.children.map (shift d) := by
  cases t; exact moveAll_eq _ _

theorem childAt?_shift (d : Nat) (t : Tree) (field : String) :
    (t.shift d).childAt? field = (t.childAt? field).map (shift d) := by
  rw [childAt?, children_shift, List.find?_map, childAt?]
  congr 2
  funext u
  rw [Function.comp_apply, label_shift]
  rfl

end Tree

namespace Node

def hang (d : Nat) (above : List String) (n : Node) : Node :=
  ⟨n.tree.shift d, n.before.map (Tree.shift d), n.after.map (Tree.shift d), n.above ++ above⟩

section Hang

variable (d : Nat) (above : List String)

theorem label_hang (n : Node) : (n.hang d above).label = n.label.shift d :=
  n.tree.label_shift d

theorem guise_hang : Guise (hang d above) where
  kind n := by rw [kind, label_hang]; rfl
  named n := by rw [label_hang]; rfl
  extra n := by rw [label_hang]; rfl
  field n := by rw [label_hang]; rfl

theorem row_hang (inner : List String) (before ts : List Tree) :
    row (inner ++ above) (before.map (Tree.shift d)) (ts.map (Tree.shift d)) =
      (row inner before ts).map (hang d above) := by
  induction ts generalizing before with
  | nil => rfl
  | cons t ts ih =>
      have hrest := ih (t :: before)
      rw [List.map_cons] at hrest
      rw [List.map_cons, row, row, List.map_cons, hrest]
      rfl

theorem rowBack_hang (inner : List String) (after ts : List Tree) :
    rowBack (inner ++ above) (after.map (Tree.shift d)) (ts.map (Tree.shift d)) =
      (rowBack inner after ts).map (hang d above) := by
  induction ts generalizing after with
  | nil => rfl
  | cons t ts ih =>
      have hrest := ih (t :: after)
      rw [List.map_cons] at hrest
      rw [List.map_cons, rowBack, rowBack, List.map_cons, hrest]
      rfl

theorem children_hang (n : Node) :
    (n.hang d above).children = n.children.map (hang d above) := by
  rw [children, (guise_hang d above).kind, hang, Tree.children_shift]
  exact row_hang d above (n.kind :: n.above) [] n.tree.children

theorem later_hang (n : Node) : (n.hang d above).later = n.later.map (hang d above) :=
  row_hang d above n.above (n.tree :: n.before) n.after

theorem earlier_hang (n : Node) : (n.hang d above).earlier = n.earlier.map (hang d above) :=
  rowBack_hang d above n.above (n.tree :: n.after) n.before

end Hang

section Readers

variable {f : Node → Node}

theorem filter_map_eq {P : Node → Bool} (hP : ∀ c, P (f c) = P c) (ns : List Node) :
    (ns.map f).filter P = (ns.filter P).map f := by
  rw [List.filter_map]
  congr 2
  exact funext hP

theorem find?_map_eq {P : Node → Bool} (hP : ∀ c, P (f c) = P c) (ns : List Node) :
    (ns.map f).find? P = (ns.find? P).map f := by
  rw [← List.head?_filter, filter_map_eq hP, List.head?_map, List.head?_filter]

variable (hf : Guise f) {n : Node}

include hf

theorem Guise.outerAttributes (hearlier : (f n).earlier = n.earlier.map f) :
    (f n).outerAttributes = n.outerAttributes.map f := by
  have hpassed (c : Node) : ((f c).isAttributeItem || (f c).label.extra) =
      (c.isAttributeItem || c.label.extra) := by
    rw [hf.isAttributeItem, hf.extra]
  rw [Node.outerAttributes, hearlier, filter_map_eq hf.named, List.takeWhile_map,
    filter_map_eq hf.isAttributeItem, ← List.map_reverse, Node.outerAttributes]
  congr 5
  exact funext hpassed

theorem Guise.nextItem? (hlater : (f n).later = n.later.map f) :
    (f n).nextItem? = n.nextItem?.map f := by
  rw [Node.nextItem?, hlater, find?_map_eq, Node.nextItem?]
  intro c
  rw [hf.isProper, hf.isAttributeItem]

variable (hchildren : (f n).children = n.children.map f)

include hchildren

theorem Guise.properChildren : (f n).properChildren = n.properChildren.map f := by
  rw [Node.properChildren, hchildren, filter_map_eq hf.isProper, Node.properChildren]

theorem Guise.elements : (f n).elements = n.elements.map f := by
  rw [Node.elements, hf.properChildren hchildren, filter_map_eq, Node.elements]
  intro c
  rw [hf.isAttributeItem]

theorem Guise.childAt? (field : String) : (f n).childAt? field = (n.childAt? field).map f := by
  rw [Node.childAt?, hchildren, find?_map_eq, Node.childAt?]
  intro c
  rw [hf.field]

theorem Guise.part (q : Part) : q.of (f n) = (q.of n).map f := by
  cases q with
  | field name => exact hf.childAt? hchildren name
  | childOfKind | value =>
      simp only [Part.of, childOfKind?, hf.properChildren hchildren]
      exact find?_map_eq (fun c => by rw [hf.kind]) _
  | unfielded =>
      simp only [Part.of, unfieldedChild?, hchildren]
      exact find?_map_eq (fun c => by rw [hf.isProper, hf.field]) _
  | firstElement => simp only [Part.of, hf.elements hchildren, List.head?_map]
  | pathName =>
      simp only [Part.of, pathName?, hf.isScoped]
      split
      · exact hf.childAt? hchildren "name"
      · rfl
  | pathQualifier =>
      simp only [Part.of, pathQualifier?, hf.isScoped]
      split
      · exact hf.childAt? hchildren "path"
      · rfl

theorem Guise.tokenGroups : (f n).tokenGroups = n.tokenGroups.map (TokenGroup.map f) := by
  have htokens : (f n).children.filter (!·.label.extra) =
      (n.children.filter (!·.label.extra)).map f := by
    rw [hchildren]
    exact filter_map_eq (fun c => by rw [hf.extra]) _
  have hsplit := splitAtCommas_map hf [] (undelimited (n.children.filter (!·.label.extra)))
  rw [List.map_nil] at hsplit
  simp only [Node.tokenGroups, htokens, undelimited_map hf, hsplit, List.map_map]
  rfl

theorem Guise.parts (hearlier : (f n).earlier = n.earlier.map f) : Parts f n where
  isLeaf := by rw [isLeaf_eq, isLeaf_eq, hchildren, List.isEmpty_map]
  marker {kind} _ := by
    simp only [hasChildOfKind, hchildren, List.any_map, Function.comp_def, hf.kind]
  part := hf.part hchildren
  elements := hf.elements hchildren
  significantChildren := by
    rw [Node.significantChildren, hchildren, filter_map_eq, Node.significantChildren]
    intro c
    rw [hf.extra, hf.named, hf.kind]
  outerAttributes := hf.outerAttributes hearlier
  tupleFields := by
    have hgather := gather_map hf [] none n.children
    rwa [List.map_nil, Option.map_none, ← hchildren] at hgather
  tokenGroups := hf.tokenGroups hchildren

end Readers

theorem lastSegment_shift (d : Nat) (n : Node) :
    (n.tree.shift d).lastSegment = n.tree.lastSegment.shift d := by
  induction n using childInduct with
  | step n ih =>
      have hkind : (n.tree.shift d).label.kind = n.tree.label.kind := by
        rw [Tree.label_shift]
        rfl
      rw [Tree.lastSegment_eq, Tree.lastSegment_eq n.tree, hkind, Tree.childAt?_shift,
        Tree.childAt?_shift]
      split
      · cases n.tree.childAt? "name" <;> rfl
      · split
        · rw [childAt?_tree]
          cases hc : n.childAt? "function" with
          | none => rfl
          | some c => exact ih c (List.mem_of_find?_eq_some hc)
        · rfl

theorem exists_lastSegment (n : Node) : ∃ y ∈ n.below, y.tree = n.tree.lastSegment := by
  induction n using childInduct with
  | step n ih =>
      have hself : ∃ y ∈ n.below, y.tree = n.tree := ⟨n, n.mem_below_self, rfl⟩
      have hchild {field : String} {c : Node} (hc : n.childAt? field = some c) : c ∈ n.children :=
        List.mem_of_find?_eq_some hc
      rw [Tree.lastSegment_eq, childAt?_tree, childAt?_tree]
      split
      · cases hc : n.childAt? "name" with
        | none => exact hself
        | some c => exact ⟨c, children_below n.mem_below_self (hchild hc), rfl⟩
      · split
        · cases hc : n.childAt? "function" with
          | none => exact hself
          | some c =>
              obtain ⟨y, hy, htree⟩ := ih c (hchild hc)
              exact ⟨y, below_trans (children_below n.mem_below_self (hchild hc)) hy, htree⟩
        · exact hself

def Within (stop : Nat) (n : Node) : Prop :=
  ∀ y ∈ n.below, y.start ≤ stop ∧ y.stop ≤ stop

theorem Within.below {stop : Nat} {n y : Node} (h : n.Within stop) (hy : y ∈ n.below) :
    y.Within stop :=
  fun z hz => h z (below_trans hy hz)

section Texts

variable {source inner : Text} {d stop : Nat} {above : List String} {n : Node}
  (hinner : source.slice? d (stop + d) = some inner)

include hinner

theorem text_hang (h : n.stop ≤ stop) : (n.hang d above).text source = n.text inner := by
  rw [text, label_hang, Label.text_shift hinner h]
  rfl

theorem tokenText_hang (h : n.Within stop) :
    (n.hang d above).tree.tokenText source = n.tree.tokenText inner := by
  induction n using childInduct with
  | step n ih =>
      have hchildren := n.children_hang d above
      cases hleaf : n.isLeaf with
      | true =>
          have hleaf' : (n.hang d above).isLeaf = true := by
            rwa [isLeaf_eq, hchildren, List.isEmpty_map, ← isLeaf_eq]
          rw [tokenText_of_isLeaf hleaf, tokenText_of_isLeaf hleaf',
            text_hang hinner (h n n.mem_below_self).2]
      | false =>
          rw [isLeaf_eq, List.isEmpty_eq_false_iff] at hleaf
          have hne : (n.hang d above).children ≠ [] := by
            rw [hchildren]
            simpa using hleaf
          rw [tokenText_eq hleaf, tokenText_eq hne, hchildren,
            filter_map_eq (fun c => by rw [(guise_hang d above).extra]), List.flatMap_map]
          apply List.flatMap_congr
          intro c hc
          have hmem := List.mem_of_mem_filter hc
          exact ih c hmem (h.below (children_below n.mem_below_self hmem))

theorem seen_hang (h : n.Within stop) (hinside : n.above ≠ []) :
    Seen inner source (· + d) (hang d above) n where
  toParts := (guise_hang d above).parts (n.children_hang d above) (n.earlier_hang d above)
  kind := (guise_hang d above).kind n
  text := text_hang hinner (h n n.mem_below_self).2
  start := congrArg Label.start (n.label_hang d above)
  stop := congrArg Label.stop (n.label_hang d above)
  isGenericParameter := by
    have hparent : (n.hang d above).parentKind? = n.parentKind? := by
      rw [parentKind?, parentKind?, hang]
      cases habove : n.above with
      | nil => exact absurd habove hinside
      | cons kind kinds => rfl
    rw [isGenericParameter, (guise_hang d above).kind, hparent, isGenericParameter]
  tokenText := tokenText_hang hinner h
  lastSegment := by
    obtain ⟨y, hy, htree⟩ := n.exists_lastSegment
    have hlast : (n.hang d above).tree.lastSegment = (y.hang d above).tree := by
      rw [hang, lastSegment_shift, ← htree]
      rfl
    rw [hlast, ← htree]
    exact text_hang hinner (h y hy).2

end Texts

end Node

def Fragment.shift (d : Nat) (f : Fragment) : Fragment :=
  ⟨f.label.shift d, f.text⟩

def Binding.shift (d : Nat) : Binding → Binding
  | .single f => .single (f.shift d)
  | .multiple fs start stop t => .multiple (fs.map (Fragment.shift d)) (start + d) (stop + d) t

theorem Binding.agrees_shift (d : Nat) (a b : Binding) :
    (a.shift d).agrees (b.shift d) = a.agrees b := by
  cases a with
  | single f => cases b <;> rfl
  | multiple fs start stop t =>
      cases b with
      | single g => rfl
      | multiple gs start' stop' t' =>
          simp only [Binding.shift, Binding.agrees, List.map_map]
          rfl

def Captures.shift (d : Nat) (s : Captures) : Captures :=
  s.map fun x => (x.1, x.2.shift d)

theorem Captures.lookup_shift (d : Nat) (s : Captures) (name : Text) :
    (s.shift d).lookup name = (s.lookup name).map (Binding.shift d) := by
  induction s with
  | nil => rfl
  | cons x s ih =>
      obtain ⟨other, b⟩ := x
      simp only [shift, List.map_cons, List.lookup_cons]
      cases name == other with
      | true => rfl
      | false => exact ih

namespace Attempt

/-- The second attempt does as the first, so many bytes further on. -/
def Moved (d : Nat) (a a' : Attempt Captures) : Prop :=
  ∀ s : Captures, a' (s.shift d) = ((a s).1, (a s).2.shift d)

theorem moved_congruence (d : Nat) : Congruence (Moved d) where
  test _ _ := rfl
  andThen {a a' b b'} ha hb s := by
    rw [andThen_apply, andThen_apply, ha s]
    split
    · exact hb (a s).2
    · rfl
  firstOf h s := by
    induction h with
    | nil => rfl
    | cons ha _ ih =>
        rw [firstOf_cons, firstOf_cons, ha s]
        split
        · rfl
        · exact ih

theorem moved_bind (d : Nat) (name : Text) (b : Binding) :
    Moved d (Captures.bind name b) (Captures.bind name (b.shift d)) := by
  intro s
  simp only [Captures.bind, Captures.lookup_shift]
  split
  · rfl
  · cases s.lookup name with
    | none => simp [Captures.shift]
    | some a => simp only [Option.map_some, Binding.agrees_shift]

end Attempt

theorem Binding.ofLabels_shift {source inner : Text} {d stop offset : Nat} {labels : List Label}
    (hinner : source.slice? d (stop + d) = some inner)
    (hlabels : ∀ l ∈ labels, l.stop ≤ stop) (hoffset : labels = [] → offset ≤ stop) :
    Binding.ofLabels source (offset + d) (labels.map (Label.shift d)) =
      (Binding.ofLabels inner offset labels).shift d := by
  have hsorted : (labels.map (Label.shift d)).mergeSort (fun a b => a.start ≤ b.start) =
      (labels.mergeSort fun a b => a.start ≤ b.start).map (Label.shift d) :=
    (List.map_mergeSort fun a _ b _ => by simp [Label.shift, Label.move]).symm
  have hperm := List.mergeSort_perm labels fun a b => a.start ≤ b.start
  simp only [ofLabels, hsorted]
  generalize labels.mergeSort (fun a b => a.start ≤ b.start) = sorted at hperm
  have hstart : ((sorted.map (Label.shift d)).head?.map (·.start)).getD (offset + d) =
      (sorted.head?.map (·.start)).getD offset + d := by
    cases sorted <;> rfl
  have hstop : ((sorted.map (Label.shift d)).getLast?.map (·.stop)).getD (offset + d) =
      (sorted.getLast?.map (·.stop)).getD offset + d := by
    rw [List.getLast?_map]
    cases sorted.getLast? <;> rfl
  have hle : (sorted.getLast?.map (·.stop)).getD offset ≤ stop := by
    cases hlast : sorted.getLast? with
    | none =>
        obtain rfl : sorted = [] := List.getLast?_eq_none_iff.mp hlast
        exact hoffset hperm.nil_eq.symm
    | some l => exact hlabels l (hperm.subset (List.mem_of_getLast? hlast))
  rw [hstart, hstop, Text.slice_of_slice? hinner (Nat.add_le_add_right hle d), shift, List.map_map,
    List.map_map]
  congr 1
  apply List.map_congr_left
  intro l hl
  rw [Function.comp_apply, Function.comp_apply, Fragment.shift,
    Label.text_shift hinner (hlabels l (hperm.subset hl))]

namespace Wildcard

open Node Attempt

variable {source inner : Text} {d stop : Nat} {above : List String}

theorem moved_bindOne {n : Node} (hn : Node.Seen inner source (· + d) (hang d above) n) (w : Wildcard)
    (skipped : Nat) :
    Moved d (w.bindOne inner skipped n) (w.bindOne source skipped (n.hang d above)) := by
  simp only [bindOne, hn.accepts, hn.text, label_hang]
  split
  · exact moved_bind d _ _
  · exact (moved_congruence d).fail

theorem moved_bindRun {ns : List Node} {offset : Nat}
    (hinner : source.slice? d (stop + d) = some inner)
    (hns : ∀ n ∈ ns, n.stop ≤ stop ∧ Node.Seen inner source (· + d) (hang d above) n)
    (hoffset : ns = [] → offset ≤ stop) (w : Wildcard) :
    Moved d (w.bindRun inner ns offset) (w.bindRun source (ns.map (hang d above)) (offset + d)) := by
  have haccepts : (ns.map (hang d above)).all (w.accepts source 0) = ns.all (w.accepts inner 0) := by
    rw [List.all_map, Bool.eq_iff_iff, List.all_eq_true, List.all_eq_true]
    exact forall₂_congr fun n hn => by rw [Function.comp_apply, (hns n hn).2.accepts]
  have hlabels : (ns.map (hang d above)).map (·.label) = (ns.map (·.label)).map (Label.shift d) := by
    rw [List.map_map, List.map_map]
    exact List.map_congr_left fun n _ => n.label_hang d above
  have hbound : ∀ l ∈ ns.map (·.label), l.stop ≤ stop := by
    intro l hl
    obtain ⟨n, hn, rfl⟩ := List.mem_map.mp hl
    exact (hns n hn).1
  simp only [bindRun, List.length_map, haccepts, hlabels]
  split
  · rw [Binding.ofLabels_shift hinner hbound fun h => hoffset (List.map_eq_nil_iff.mp h)]
    exact moved_bind d _ _
  · exact (moved_congruence d).fail

end Wildcard

theorem Node.mem_children_of_orderedLists {n y : Node} {ns : List Node} (hns : ns ∈ n.orderedLists)
    (hy : y ∈ ns) : y ∈ n.children := by
  simp only [orderedLists, List.mem_cons, List.mem_map] at hns
  rcases hns with rfl | rfl | rfl | ⟨g, hg, rfl⟩
  · exact mem_elements hy
  · exact List.mem_of_mem_filter hy
  · obtain ⟨f, hf, rfl⟩ := List.mem_map.mp hy
    exact mem_children_of_mem_nodes hf (by simp [TupleField.nodes])
  · exact mem_children_of_mem_tokens hg hy

def Source.Inner (s : Source) (n : Node) : Prop :=
  n ∈ s.nodes ∧ n.above ≠ []

theorem Source.inner_of_mem_children {s : Source} {n c : Node} (hn : n ∈ s.nodes)
    (hc : c ∈ n.children) : s.Inner c := by
  refine ⟨Node.children_below hn hc, ?_⟩
  rw [Node.above_of_mem_row hc]
  exact List.cons_ne_nil _ _

theorem Source.inner_stable (s : Source) : Node.Stable s.Inner := by
  refine Node.Closed.stable ⟨fun hn hc => inner_of_mem_children hn.1 hc, fun hn ha => ?_⟩
  refine ⟨s.nodes_closed.front hn.1 ha, ?_⟩
  rw [Node.above_of_mem_rowBack (Node.mem_earlier_of_mem_outerAttributes ha)]
  exact hn.2

def Match.hang (d : Nat) (above : List String) (m : Match) : Match :=
  ⟨m.nodes.map (Node.hang d above), m.captures.shift d⟩

namespace Pattern

open Node Attempt

variable {p : Pattern} {s : Source} {source : Text} {d stop : Nat} {above : List String}
  (hinner : source.slice? d (stop + d) = some s.text) (hwithin : s.root.Within stop)

include hinner hwithin

theorem seen_of_inner (above : List String) {n : Node} (hn : s.Inner n) :
    Node.Seen s.text source (· + d) (hang d above) n :=
  seen_hang hinner (hwithin.below hn.1) hn.2

omit hinner in
theorem le_of_anchorIn {offset : Nat} (h : AnchorIn s.Inner offset) : offset ≤ stop := by
  obtain ⟨n, hn, hanchor⟩ := h
  have hchild {ns : List Node} {y : Node} (hns : ns ∈ n.orderedLists) (hy : y ∈ ns) :
      y.start ≤ stop ∧ y.stop ≤ stop :=
    hwithin y (children_below hn.1 (mem_children_of_orderedLists hns hy))
  cases hanchor with
  | start => exact (hwithin n hn.1).1
  | next hns hy => exact (hchild hns hy).1
  | last hns hy => exact (hchild hns (List.mem_of_getLast? hy)).2

theorem compare_hang (room : Nat) (a : Node) {b : Node} (hb : s.Inner b) :
    Moved d (p.compare s.text room a b) (p.compare source room a (b.hang d above)) := by
  have hseen {n : Node} (hn : s.Inner n) := seen_of_inner hinner hwithin above hn
  have hall : Stable fun _ => True := fun _ _ _ _ _ => trivial
  refine compare_images (f := id) (S := fun _ => True) (moved_congruence d) (SameShape.refl p).image
    .id (fun _ => hseen) (Stable.stays hall p) s.inner_stable (fun a _ => .id a) trivial hb
    fun x _ w hw => ⟨hw, fun _ => ⟨hw, fun hn => ?_, fun hns hoffset => ?_⟩, fun _ _ _ hn _ => ?_⟩
  · exact w.moved_bindOne (hseen hn) 0
  · refine w.moved_bindRun hinner (fun n hn => ⟨(hwithin n (hns n hn).1).2, hseen (hns n hn)⟩) ?_
    exact fun h => le_of_anchorIn hwithin (hoffset h)
  · exact w.moved_bindOne (hseen hn) 1

theorem follow_hang (p : Pattern) (room : Nat) (roots : List Node) (above : List String)
    {next : Option Node} (hnext : ∀ b, next = some b → s.Inner b) (e : Captures) :
    follow (p.compare source room) roots (next.map (hang d above)) (e.shift d) =
      (follow (p.compare s.text room) roots next e).map (Match.hang d above) := by
  induction roots generalizing next e with
  | nil => rfl
  | cons r roots ih =>
      cases next with
      | none => rfl
      | some n =>
          have hn := hnext n rfl
          have hlater (b : Node) (hb : n.nextItem? = some b) : s.Inner b := by
            refine ⟨nextItem_below rfl hn.1 hb, ?_⟩
            rw [above_of_mem_row (List.mem_of_find?_eq_some hb)]
            exact hn.2
          have hitem := (guise_hang d above).nextItem? (n.later_hang d above)
          simp only [Option.map_some, follow, compare_hang hinner hwithin room r hn e, hitem]
          cases hc : p.compare s.text room r n e with
          | mk result next =>
              cases result with
              | false => rfl
              | true =>
                  simp only [ih hlater next, Option.map_map]
                  rfl

/-- A match in a part of a text is the match in that part, so many bytes further on. -/
theorem matchAt?_hang (p : Pattern) (above : List String) {b : Node} (hb : s.Inner b) :
    p.matchAt? source (b.hang d above) = (p.matchAt? s.text b).map (Match.hang d above) := by
  have hnext (y : Node) (h : some b = some y) : s.Inner y := Option.some.inj h ▸ hb
  have hfollow := follow_hang hinner hwithin p p.config.maxDepth p.roots above hnext []
  simp only [matchAt?, (guise_hang d above).isAttributeItem, (guise_hang d above).extra]
  split
  · rfl
  · exact hfollow

end Pattern

end ShapeSearch
