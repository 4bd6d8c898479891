import ShapeSearch.Proofs.Hanging
import ShapeSearch.Proofs.Soundness

namespace ShapeSearch

theorem Label.move_eq_self {f : Nat → Nat} {l : Label} (hstart : f l.start = l.start)
    (hstop : f l.stop = l.stop) : l.move f = l := by
  rw [move, hstart, hstop]

namespace Tree

mutual

theorem move_move (f g : Nat → Nat) : ∀ t : Tree, (t.move f).move g = t.move (g ∘ f)
  | node l ts => congrArg (node (l.move (g ∘ f))) (moveAll_moveAll f g ts)

theorem moveAll_moveAll (f g : Nat → Nat) :
    ∀ ts : List Tree, moveAll g (moveAll f ts) = moveAll (g ∘ f) ts
  | [] => rfl
  | t :: ts => congrArg₂ List.cons (move_move f g t) (moveAll_moveAll f g ts)

end

theorem shift_comm (d e : Nat) (t : Tree) : (t.shift d).shift e = (t.shift e).shift d := by
  rw [shift, shift, move_move, move_move]
  congr 1
  funext i
  exact Nat.add_right_comm i d e

end Tree

namespace Node

theorem move_eq_self {f : Nat → Nat} (n : Node)
    (h : ∀ y ∈ n.below, f y.start = y.start ∧ f y.stop = y.stop) : n.tree.move f = n.tree := by
  induction n using childInduct with
  | step n ih =>
      have hchildren : n.tree.children.map (Tree.move f) = n.tree.children := by
        refine (List.map_congr_left fun t ht => ?_).trans (List.map_id' _)
        rw [← map_tree_row (n.kind :: n.above) [] n.tree.children] at ht
        obtain ⟨c, hc, rfl⟩ := List.mem_map.mp ht
        exact ih c hc fun y hy => h y (below_trans (children_below n.mem_below_self hc) hy)
      obtain ⟨hstart, hstop⟩ := h n n.mem_below_self
      rw [start, label] at hstart
      rw [stop, label] at hstop
      cases htree : n.tree with
      | node l ts =>
          rw [htree] at hchildren hstart hstop
          rw [Tree.move_node]
          exact congrArg₂ Tree.node (Label.move_eq_self hstart hstop) hchildren

end Node

theorem Tree.shift_injective (d : Nat) : Function.Injective (shift d) := by
  refine Function.LeftInverse.injective (g := move (· - d)) fun t => ?_
  rw [shift, move_move]
  exact Node.move_eq_self ⟨t, [], [], []⟩ fun y _ => by simp

theorem Fragment.shift_comm (d e : Nat) (f : Fragment) :
    (f.shift d).shift e = (f.shift e).shift d := by
  obtain ⟨l, t⟩ := f
  simp only [shift, Label.shift, Label.move, Nat.add_right_comm _ d e]

theorem Binding.shift_comm (d e : Nat) (b : Binding) :
    (b.shift d).shift e = (b.shift e).shift d := by
  cases b with
  | single f => exact congrArg single (f.shift_comm d e)
  | multiple fs start stop t =>
      simp only [shift, List.map_map, Nat.add_right_comm _ d e]
      congr 2
      funext f
      exact f.shift_comm d e

theorem Captures.shift_comm (d e : Nat) (s : Captures) :
    (s.shift d).shift e = (s.shift e).shift d := by
  simp only [shift, List.map_map]
  congr 1
  funext x
  exact congrArg (Prod.mk x.1) (x.2.shift_comm d e)

namespace Node

theorem children_congr {n m : Node} (htree : n.tree = m.tree) (habove : n.above = m.above) :
    n.children = m.children := by
  rw [children, children, kind, kind, label, label, htree, habove]

theorem mem_below_hang (d : Nat) (above : List String) {n y : Node} (hy : y ∈ n.below) :
    y.hang d above ∈ (n.hang d above).below := by
  induction n using childInduct with
  | step n ih =>
      obtain rfl | ⟨c, hc, hy⟩ := mem_below_iff.mp hy
      · exact mem_below_self _
      · refine below_trans (children_below (mem_below_self _) ?_) (ih c hc hy)
        rw [children_hang]
        exact List.mem_map_of_mem hc

/-- Whatever is below a node lies between its bounds. -/
def Nested (n : Node) : Prop :=
  ∀ y ∈ n.below, n.start ≤ y.start ∧ y.start ≤ n.stop ∧ n.start ≤ y.stop ∧ y.stop ≤ n.stop

instance (n : Node) : Decidable n.Nested :=
  inferInstanceAs (Decidable (∀ y ∈ n.below, _))

/-- Two nodes of which one could be cut out of its file and put in the place of the other. -/
structure Interchangeable (s₁ s₂ : Text) (n₁ n₂ : Node) : Prop where
  tree : n₁.tree.shift n₂.start = n₂.tree.shift n₁.start
  text : ∃ t, s₁.slice? n₁.start n₁.stop = some t ∧ s₂.slice? n₂.start n₂.stop = some t

/-- Children at the same place of two nodes, with the same below them. -/
structure Counterpart (n₁ n₂ x y : Node) : Prop where
  place : ∃ i : Nat, n₁.children[i]? = some x ∧ n₂.children[i]? = some y
  tree : x.tree.shift n₂.start = y.tree.shift n₁.start

theorem Nested.exists_shift {n : Node} (h : n.Nested) : ∃ u : Tree, u.shift n.start = n.tree := by
  refine ⟨n.tree.move (· - n.start), ?_⟩
  rw [Tree.shift, Tree.move_move]
  refine n.move_eq_self fun y hy => ?_
  obtain ⟨hstart, -, hstop, -⟩ := h y hy
  exact ⟨Nat.sub_add_cancel hstart, Nat.sub_add_cancel hstop⟩

section Cut

variable {n : Node} {s : Source} (hs : s.tree.shift n.start = n.tree)

include hs

theorem children_eq_hang : n.children = s.root.children.map (hang n.start n.above) := by
  rw [← children_hang]
  exact children_congr hs.symm rfl

theorem stop_eq : n.stop = s.tree.label.stop + n.start := by
  rw [stop, label, ← hs, Tree.label_shift]
  rfl

theorem Nested.within (h : n.Nested) : s.root.Within s.tree.label.stop := by
  have hstart : s.tree.label.start + n.start = n.start := by
    have hlabel := congrArg Tree.label hs
    rw [Tree.label_shift] at hlabel
    exact congrArg Label.start hlabel
  intro y hy
  obtain rfl | ⟨c, hc, hy⟩ := mem_below_iff.mp hy
  · constructor
    · change s.tree.label.start ≤ s.tree.label.stop
      omega
    · exact Nat.le_refl _
  · have hmem : y.hang n.start n.above ∈ n.below := by
      refine below_trans (children_below n.mem_below_self ?_) (mem_below_hang _ _ hy)
      rw [children_eq_hang hs]
      exact List.mem_map_of_mem hc
    obtain ⟨-, hy₁, -, hy₂⟩ := h _ hmem
    rw [stop_eq hs, start, label_hang] at hy₁
    rw [stop_eq hs, stop, label_hang] at hy₂
    exact ⟨Nat.le_of_add_le_add_right hy₁, Nat.le_of_add_le_add_right hy₂⟩

end Cut

end Node

/-- Two matches among the children of two nodes, at the same places and with the same texts. -/
structure Match.Counterpart (s₁ s₂ : Text) (n₁ n₂ : Node) (m₁ m₂ : Match) : Prop where
  nodes : List.Forall₂ (Node.Counterpart n₁ n₂) m₁.nodes m₂.nodes
  captures : m₁.captures.shift n₂.start = m₂.captures.shift n₁.start
  text : m₁.text s₁ = m₂.text s₂

theorem Match.text_hang {s : Source} {source : Text} {d stop : Nat} {above : List String} {m : Match}
    (hinner : source.slice? d (stop + d) = some s.text)
    (hm : ∀ x ∈ m.nodes, x.stop ≤ stop) : (m.hang d above).text source = m.text s.text := by
  obtain ⟨nodes, captures⟩ := m
  cases hlast : nodes.getLast? with
  | none =>
      obtain rfl : nodes = [] := List.getLast?_eq_none_iff.mp hlast
      rw [text, text, hang]
      exact (Text.slice_zero _).trans (Text.slice_zero _).symm
  | some y =>
      cases nodes with
      | nil => cases hlast
      | cons x nodes =>
          have hstart : (hang d above ⟨x :: nodes, captures⟩).start = x.start + d :=
            congrArg Label.start (x.label_hang d above)
          have hstop : (hang d above ⟨x :: nodes, captures⟩).stop = y.stop + d := by
            rw [Match.stop, hang, List.getLast?_map, hlast]
            exact congrArg Label.stop (y.label_hang d above)
          have hy : y.stop ≤ stop := hm y (List.mem_of_getLast? hlast)
          rw [text, hstart, hstop, Text.slice_of_slice? hinner (Nat.add_le_add_right hy d), text,
            Match.start, Match.stop, hlast]
          rfl

section Counterparts

variable {s₁ s₂ : Text} {n₁ n₂ : Node} {s : Source}
  (hs₁ : s.tree.shift n₁.start = n₁.tree) (hs₂ : s.tree.shift n₂.start = n₂.tree)

include hs₁ hs₂

theorem Node.counterpart_hang {x : Node} (hx : x ∈ s.root.children) :
    Counterpart n₁ n₂ (x.hang n₁.start n₁.above) (x.hang n₂.start n₂.above) := by
  obtain ⟨i, hi⟩ := List.mem_iff_getElem?.mp hx
  refine ⟨⟨i, ?_, ?_⟩, Tree.shift_comm _ _ x.tree⟩
  · rw [children_eq_hang hs₁, List.getElem?_map, hi, Option.map_some]
  · rw [children_eq_hang hs₂, List.getElem?_map, hi, Option.map_some]

theorem Match.counterpart_hang {m : Match}
    (ht₁ : s₁.slice? n₁.start (s.tree.label.stop + n₁.start) = some s.text)
    (ht₂ : s₂.slice? n₂.start (s.tree.label.stop + n₂.start) = some s.text)
    (hwithin : s.root.Within s.tree.label.stop) (hm : ∀ x ∈ m.nodes, x ∈ s.root.children) :
    Counterpart s₁ s₂ n₁ n₂ (m.hang n₁.start n₁.above) (m.hang n₂.start n₂.above) where
  nodes := by
    refine List.forall₂_map_left_iff.mpr (List.forall₂_map_right_iff.mpr ?_)
    exact List.forall₂_same.mpr fun x hx => Node.counterpart_hang hs₁ hs₂ (hm x hx)
  captures := m.captures.shift_comm n₁.start n₂.start
  text := by
    have hstop : ∀ x ∈ m.nodes, x.stop ≤ s.tree.label.stop := fun x hx =>
      (hwithin x (Node.children_below s.root_mem_nodes (hm x hx))).2
    rw [text_hang ht₁ hstop, text_hang ht₂ hstop]

end Counterparts

namespace Pattern

open Node

/-- Whether and how a pattern matches at a node depends only on what is below the parent of the node,
and not on where in its file the parent stands. -/
theorem matchAt?_counterpart (p : Pattern) {s₁ s₂ : Text} {n₁ n₂ b₁ b₂ : Node} {i : Nat}
    (h : n₁.Interchangeable s₁ s₂ n₂) (hnested : n₁.Nested) (h₁ : n₁.children[i]? = some b₁)
    (h₂ : n₂.children[i]? = some b₂) :
    Option.Rel (Match.Counterpart s₁ s₂ n₁ n₂) (p.matchAt? s₁ b₁) (p.matchAt? s₂ b₂) := by
  obtain ⟨u, hu⟩ := hnested.exists_shift
  obtain ⟨t, ht₁, ht₂⟩ := h.text
  -- Both nodes are the root of one small file, hung at two places.
  let s : Source := ⟨t, u⟩
  have hs₁ : s.tree.shift n₁.start = n₁.tree := hu
  have hs₂ : s.tree.shift n₂.start = n₂.tree := by
    apply Tree.shift_injective n₁.start
    rw [Tree.shift_comm, hs₁, h.tree]
  have hwithin : s.root.Within s.tree.label.stop := hnested.within hs₁
  rw [stop_eq hs₁] at ht₁
  rw [stop_eq hs₂] at ht₂
  rw [children_eq_hang hs₁, List.getElem?_map, Option.map_eq_some_iff] at h₁
  obtain ⟨b, hb, rfl⟩ := h₁
  rw [children_eq_hang hs₂, List.getElem?_map, hb, Option.map_some, Option.some.injEq] at h₂
  subst h₂
  have hmem : b ∈ s.root.children := List.mem_of_getElem? hb
  have hinner : s.Inner b := s.inner_of_mem_children s.root_mem_nodes hmem
  rw [matchAt?_hang (s := s) ht₁ hwithin p n₁.above hinner,
    matchAt?_hang (s := s) ht₂ hwithin p n₂.above hinner]
  cases hm : p.matchAt? s.text b with
  | none => exact .none
  | some m =>
      refine .some (Match.counterpart_hang hs₁ hs₂ ht₁ ht₂ hwithin ?_)
      exact forall_mem_nodes hm hmem fun x y hx hy => later_of_mem_row hx (List.mem_of_find?_eq_some hy)

/-- The tree of `{((a, b), a);}`. -/
def tupleBlock (start : Nat) : Tree :=
  .named "block" none start (start + 14)
    (.token "\x7b" start (start + 1) :: ((tuples 1).shift (start + 1)).children ++
      [.token "\x7d" (start + 13) (start + 14)])

def tupleBlockText : Text :=
  "\x7b((a, b), a);\x7d".toList

def tupleBlockInFunctionText : Text :=
  "fn é() \x7b\x7b((a, b), a);\x7d\x7d".toList

/-- The block is all of one file, and stands in a function in the other. -/
theorem matchAt?_counterpart_of_blocks : ∃ p b₁ b₂, ∃ n₁ n₂ : Node,
    n₁ = ⟨tupleBlock 0, [], [], ["expression_statement", "source_file"]⟩ ∧
    n₂ = ⟨tupleBlock 9, [], [], ["expression_statement", "block", "function_item", "source_file"]⟩ ∧
    compile tupleGrammar .default "(('_x:*[regex(a)], '_y:*), '_x);".toList = .ok p ∧
    n₁.Interchangeable tupleBlockText tupleBlockInFunctionText n₂ ∧ n₁.Nested ∧
    n₁.children[1]? = some b₁ ∧ n₂.children[1]? = some b₂ ∧
    (p.matchAt? tupleBlockText b₁).isSome ∧
    Option.Rel (Match.Counterpart tupleBlockText tupleBlockInFunctionText n₁ n₂)
      (p.matchAt? tupleBlockText b₁) (p.matchAt? tupleBlockInFunctionText b₂) := by
  let n₁ : Node := ⟨tupleBlock 0, [], [], ["expression_statement", "source_file"]⟩
  let n₂ : Node :=
    ⟨tupleBlock 9, [], [], ["expression_statement", "block", "function_item", "source_file"]⟩
  have h : ((compile tupleGrammar .default "(('_x:*[regex(a)], '_y:*), '_x);".toList).toOption.bind
      fun p => n₁.children[1]?.bind (p.matchAt? tupleBlockText)).isSome = true := by
    decide +kernel
  obtain ⟨m, hm⟩ := Option.isSome_iff_exists.mp h
  obtain ⟨p, hp, hm⟩ := Option.bind_eq_some_iff.mp hm
  obtain ⟨b₁, hb₁, hm⟩ := Option.bind_eq_some_iff.mp hm
  have hsome : (p.matchAt? tupleBlockText b₁).isSome = true := by rw [hm, Option.isSome_some]
  have hsame : n₁.Interchangeable tupleBlockText tupleBlockInFunctionText n₂ :=
    ⟨rfl, "\x7b((a, b), a);\x7d".toList, rfl, rfl⟩
  have hnested : n₁.Nested := by decide +kernel
  have hb₂ : n₂.children[1]? = some n₂.children[1] := rfl
  exact ⟨p, b₁, _, n₁, n₂, rfl, rfl, ok_of_toOption hp, hsame, hnested, hb₁, hb₂, hsome,
    matchAt?_counterpart p hsame hnested hb₁ hb₂⟩

end Pattern

end ShapeSearch
