import ShapeSearch.Proofs.Places
import ShapeSearch.Tree.Parts

namespace ShapeSearch

def Tree.named (kind : String) (field : Option String) (start stop : Nat) (ts : List Tree) : Tree :=
  .node ⟨kind, true, false, false, false, start, stop, field⟩ ts

def Tree.token (kind : String) (start stop : Nat) : Tree :=
  .node ⟨kind, false, false, false, false, start, stop, none⟩ []

def Tree.comment (start stop : Nat) : Tree :=
  .node ⟨"block_comment", true, true, false, false, start, stop, none⟩
    [token "/*" start (start + 2), token "*/" (stop - 2) stop]

namespace Node

def below (n : Node) : List Node :=
  n.preorder fun _ => true

theorem below_eq (n : Node) : n.below = n :: n.children.flatMap below := by
  have h := n.preorder_eq fun _ => true
  rwa [List.filter_true] at h

theorem mem_below_self (n : Node) : n ∈ n.below := by
  rw [below_eq]
  exact List.mem_cons_self

theorem mem_below_iff {n y : Node} : y ∈ n.below ↔ y = n ∨ ∃ c ∈ n.children, y ∈ c.below := by
  rw [below_eq, List.mem_cons, List.mem_flatMap]

theorem tree_mem_of_mem_row {above : List String} {before ts : List Tree} {y : Node}
    (h : y ∈ row above before ts) : y.tree ∈ ts := by
  rw [← map_tree_row above before ts]
  exact List.mem_map_of_mem h

theorem mem_row_iff {above : List String} {before ts : List Tree} {y : Node} :
    y ∈ row above before ts ↔
      ∃ us, ts = us ++ y.tree :: y.after ∧ y.before = us.reverse ++ before ∧ y.above = above := by
  induction ts generalizing before with
  | nil => simp [row]
  | cons t ts ih =>
      obtain ⟨tree, before', after, above'⟩ := y
      rw [row, List.mem_cons, ih]
      constructor
      · rintro (h | ⟨us, rfl, hbefore, habove⟩)
        · rw [Node.mk.injEq] at h
          obtain ⟨rfl, rfl, rfl, rfl⟩ := h
          exact ⟨[], rfl, rfl, rfl⟩
        · exact ⟨t :: us, rfl, by rw [hbefore, List.reverse_cons, List.append_assoc]; rfl, habove⟩
      · rintro ⟨us, hts, hbefore, rfl⟩
        simp only at hts hbefore
        cases us with
        | nil =>
            obtain ⟨rfl, rfl⟩ := List.cons.inj hts
            left
            rw [hbefore]
            rfl
        | cons u us =>
            obtain ⟨rfl, rfl⟩ := List.cons.inj hts
            exact .inr ⟨us, rfl, by rw [hbefore, List.reverse_cons, List.append_assoc]; rfl, rfl⟩

theorem above_of_mem_row {above : List String} {before ts : List Tree} {y : Node}
    (h : y ∈ row above before ts) : y.above = above := by
  obtain ⟨-, -, -, habove⟩ := mem_row_iff.mp h
  exact habove

theorem above_of_mem_rowBack {above : List String} {after ts : List Tree} {y : Node}
    (h : y ∈ rowBack above after ts) : y.above = above := by
  induction ts generalizing after with
  | nil => cases h
  | cons t ts ih =>
      rcases List.mem_cons.mp h with rfl | h
      · rfl
      · exact ih h

theorem size_lt_of_mem_children {n c : Node} (h : c ∈ n.children) : c.tree.size < n.tree.size := by
  have hc : [c.tree].Sublist n.tree.children :=
    List.singleton_sublist.mpr (tree_mem_of_mem_row h)
  have hle := Tree.sizeAll_le_of_sublist hc
  rw [Tree.size_eq n.tree]
  simp only [Tree.sizeAll] at hle
  omega

theorem childInduct {motive : Node → Prop} (step : ∀ n, (∀ c ∈ n.children, motive c) → motive n)
    (n : Node) : motive n :=
  step n fun c _ => childInduct step c
termination_by n.tree.size
decreasing_by exact size_lt_of_mem_children ‹_›

theorem below_trans {n y z : Node} (hy : y ∈ n.below) (hz : z ∈ y.below) : z ∈ n.below := by
  induction n using childInduct with
  | step n ih =>
      rcases mem_below_iff.mp hy with rfl | ⟨c, hc, hyc⟩
      · exact hz
      · exact mem_below_iff.mpr (.inr ⟨c, hc, ih c hc hyc⟩)

theorem children_below {n y c : Node} (hy : y ∈ n.below) (hc : c ∈ y.children) : c ∈ n.below :=
  below_trans hy (mem_below_iff.mpr (.inr ⟨c, hc, c.mem_below_self⟩))

theorem mem_below_of_mem_preorder {keep : Label → Bool} {n y : Node} (h : y ∈ n.preorder keep) :
    y ∈ n.below := by
  induction n using childInduct with
  | step n ih =>
      rw [preorder_eq] at h
      rcases List.mem_cons.mp h with rfl | h
      · exact y.mem_below_self
      · obtain ⟨c, hc, hy⟩ := List.mem_flatMap.mp h
        have hchild := List.mem_of_mem_filter hc
        exact mem_below_iff.mpr (.inr ⟨c, hchild, ih c hchild hy⟩)

theorem exists_parent_of_mem_below {n y : Node} (hy : y ∈ n.below) :
    y = n ∨ ∃ z ∈ n.below, y ∈ z.children := by
  induction n using childInduct with
  | step n ih =>
      rcases mem_below_iff.mp hy with rfl | ⟨c, hc, hyc⟩
      · exact .inl rfl
      · right
        rcases ih c hc hyc with rfl | ⟨z, hz, hyz⟩
        · exact ⟨n, n.mem_below_self, hc⟩
        · exact ⟨z, mem_below_iff.mpr (.inr ⟨c, hc, hz⟩), hyz⟩

theorem earlier_of_mem_row {above : List String} {before ts : List Tree} {y e : Node}
    (hy : y ∈ row above before ts) (he : e ∈ y.earlier) :
    e ∈ row above before ts ∨ e ∈ rowBack above ts before := by
  induction ts generalizing before with
  | nil => cases hy
  | cons t ts ih =>
      simp only [row, List.mem_cons] at hy ⊢
      rcases hy with rfl | hy
      · exact .inr he
      · have h := ih hy
        simp only [rowBack, List.mem_cons] at h
        rcases h with h | rfl | h
        · exact .inl (.inr h)
        · exact .inl (.inl rfl)
        · exact .inr h

theorem earlier_of_mem_children {z y e : Node} (hy : y ∈ z.children) (he : e ∈ y.earlier) :
    e ∈ z.children := by
  rcases earlier_of_mem_row hy he with h | h
  · exact h
  · cases h

theorem mem_earlier_of_mem_outerAttributes {n a : Node} (h : a ∈ n.outerAttributes) :
    a ∈ n.earlier := by
  simp only [outerAttributes, List.mem_reverse, List.mem_filter] at h
  exact (List.filter_sublist.subset ((List.takeWhile_sublist _).subset h.1))

theorem outerAttributes_below {n y a : Node} (hy : y ∈ n.below) (ha : a ∈ y.outerAttributes) :
    a ∈ n.below ∨ a ∈ n.outerAttributes := by
  rcases exists_parent_of_mem_below hy with rfl | ⟨z, hz, hyz⟩
  · exact .inr ha
  · left
    exact children_below hz (earlier_of_mem_children hyz (mem_earlier_of_mem_outerAttributes ha))

theorem outerAttributes_trans {n a b : Node} (ha : a ∈ n.outerAttributes)
    (hb : b ∈ a.outerAttributes) : b ∈ n.outerAttributes := by
  obtain ⟨tree, before, after, above⟩ := n
  simp only [outerAttributes, List.mem_reverse, List.mem_filter, earlier] at ha ⊢
  refine ⟨?_, (List.mem_filter.mp (List.mem_reverse.mp hb)).2⟩
  obtain ⟨hrun, -⟩ := ha
  generalize tree :: after = behind at hrun ⊢
  induction before generalizing behind with
  | nil => cases hrun
  | cons t before ih =>
      simp only [rowBack, List.filter_cons] at hrun ⊢
      have hnext := ih (t :: behind)
      have hb' := (List.mem_filter.mp (List.mem_reverse.mp hb)).1
      split at hrun
      next hnamed =>
        rw [List.takeWhile_cons] at hrun
        split at hrun
        next hstays =>
          rw [if_pos hnamed, List.takeWhile_cons, if_pos hstays]
          apply List.mem_cons_of_mem
          rcases List.mem_cons.mp hrun with rfl | hrun
          · exact hb'
          · exact hnext hrun
        next => cases hrun
      next hnamed =>
        rw [if_neg hnamed]
        exact hnext hrun

end Node

namespace Node

theorem mem_properChildren {n y : Node} (h : y ∈ n.properChildren) : y ∈ n.children :=
  List.mem_of_mem_filter h

theorem mem_elements {n y : Node} (h : y ∈ n.elements) : y ∈ n.children :=
  mem_properChildren (List.mem_of_mem_filter h)

theorem mem_of_undelimited {ns : List Node} {y : Node} (h : y ∈ undelimited ns) : y ∈ ns := by
  simp only [undelimited] at h
  split at h
  · split at h
    · exact List.mem_cons_of_mem _ (List.dropLast_subset _ h)
    · exact h
  · exact h

theorem mem_of_splitAtCommas {group ns g : List Node} {y : Node} (hg : g ∈ splitAtCommas group ns)
    (hy : y ∈ g) : y ∈ group ∨ y ∈ ns := by
  induction ns generalizing group with
  | nil =>
      simp only [splitAtCommas] at hg
      split at hg
      · cases hg
      · rw [List.mem_singleton] at hg
        exact .inl (hg ▸ hy)
  | cons n ns ih =>
      simp only [splitAtCommas] at hg
      split at hg
      · rcases List.mem_cons.mp hg with rfl | hg
        · exact .inl hy
        · exact (ih hg).elim (fun h => nomatch h) fun h => .inr (List.mem_cons_of_mem n h)
      · rcases ih hg with h | h
        · rcases List.mem_append.mp h with h | h
          · exact .inl h
          · exact .inr (List.mem_singleton.mp h ▸ List.mem_cons_self)
        · exact .inr (List.mem_cons_of_mem n h)

theorem mem_children_of_mem_tokens {n y : Node} {g : TokenGroup} (hg : g ∈ n.tokenGroups)
    (hy : y ∈ g.tokens) : y ∈ n.children := by
  obtain ⟨tokens, htokens, rfl⟩ := List.mem_map.mp hg
  rcases mem_of_splitAtCommas htokens hy with h | h
  · cases h
  · exact List.mem_of_mem_filter (mem_of_undelimited h)

end Node

theorem TupleField.mem_of_gather {attributes ns : List Node} {visibility : Option Node}
    {f : TupleField} {y : Node} (hf : f ∈ gather attributes visibility ns) (hy : y ∈ f.nodes) :
    y ∈ attributes ∨ y ∈ visibility.toList ∨ y ∈ ns := by
  induction ns generalizing attributes visibility with
  | nil => cases hf
  | cons n ns ih =>
      simp only [gather] at hf
      split at hf
      · rcases List.mem_cons.mp hf with rfl | hf
        · simp only [nodes, List.mem_append, List.mem_singleton] at hy
          rcases hy with hy | hy | rfl
          · exact .inl hy
          · exact .inr (.inl hy)
          · exact .inr (.inr List.mem_cons_self)
        · have h := ih hf
          simp only [List.not_mem_nil, Option.toList_none, false_or] at h
          exact .inr (.inr (List.mem_cons_of_mem n h))
      · split at hf
        · rcases ih hf with h | h | h
          · rcases List.mem_append.mp h with h | h
            · exact .inl h
            · exact .inr (.inr (List.mem_singleton.mp h ▸ List.mem_cons_self))
          · exact .inr (.inl h)
          · exact .inr (.inr (List.mem_cons_of_mem n h))
        · split at hf
          · rcases ih hf with h | h | h
            · exact .inl h
            · simp only [Option.toList_some, List.mem_singleton] at h
              exact .inr (.inr (h ▸ List.mem_cons_self))
            · exact .inr (.inr (List.mem_cons_of_mem n h))
          · rcases ih hf with h | h | h
            · exact .inl h
            · exact .inr (.inl h)
            · exact .inr (.inr (List.mem_cons_of_mem n h))

theorem Node.mem_children_of_mem_nodes {n y : Node} {f : TupleField} (hf : f ∈ n.tupleFields)
    (hy : y ∈ f.nodes) : y ∈ n.children := by
  rcases TupleField.mem_of_gather hf hy with h | h | h
  · cases h
  · cases h
  · exact h

theorem Part.of_near {n y : Node} {q : Part} (h : q.of n = some y) :
    (y = n ∧ q = .pathName ∧ n.isScoped = false) ∨ y ∈ n.children := by
  have hchildAt {field : String} (h : n.childAt? field = some y) : y ∈ n.children :=
    List.mem_of_find?_eq_some h
  cases q with
  | field name => exact .inr (hchildAt h)
  | childOfKind kind => exact .inr (Node.mem_properChildren (List.mem_of_find?_eq_some h))
  | unfielded => exact .inr (List.mem_of_find?_eq_some h)
  | value => exact .inr (Node.mem_properChildren (List.mem_of_find?_eq_some h))
  | firstElement => exact .inr (Node.mem_elements (List.mem_of_head? h))
  | pathName =>
      simp only [of, Node.pathName?] at h
      split at h
      · exact .inr (hchildAt h)
      next hscoped => exact .inl ⟨(Option.some.inj h).symm, rfl, by simpa using hscoped⟩
  | pathQualifier =>
      simp only [of, Node.pathQualifier?] at h
      split at h
      · exact .inr (hchildAt h)
      · cases h

theorem Clause.compared_near {n y : Node} {c : Clause} (h : y ∈ c.compared n) :
    (y = n ∧ c = .part .pathName ∧ n.isScoped = false) ∨ y ∈ n.children ∨
      y ∈ n.outerAttributes := by
  cases c with
  | part q =>
      rcases Part.of_near (Option.mem_toList.mp h) with ⟨hy, rfl, hn⟩ | h
      · exact .inl ⟨hy, rfl, hn⟩
      · exact .inr (.inl h)
  | elementsInOrder | elementsInAnyOrder => exact .inr (.inl (Node.mem_elements h))
  | childrenInOrder => exact .inr (.inl (List.mem_of_mem_filter h))
  | attributes => exact .inr (.inr h)
  | tupleFields =>
      obtain ⟨f, hf, hy⟩ := List.mem_flatMap.mp h
      exact .inr (.inl (Node.mem_children_of_mem_nodes hf hy))
  | tokenGroups =>
      obtain ⟨g, hg, hy⟩ := List.mem_flatMap.mp h
      exact .inr (.inl (Node.mem_children_of_mem_tokens hg hy))
  | quotedName =>
      exact .inr (.inl (Node.mem_properChildren
        (List.mem_of_find?_eq_some (Option.mem_toList.mp h))))
  | kindAmong | marker | sameText | sameTokens | sameValue | genericParameter | segments
  | lastSegment => cases h

/-- A set of nodes that a comparison does not leave. -/
def Node.Stable (S : Node → Prop) : Prop :=
  ∀ n y, S n → ∀ c : Clause, y ∈ c.compared n → S y

/-- A set of nodes with all that is below them and in front of them. -/
structure Node.Closed (S : Node → Prop) : Prop where
  child {n y : Node} (hn : S n) (hy : y ∈ n.children) : S y
  front {n y : Node} (hn : S n) (hy : y ∈ n.outerAttributes) : S y

theorem Node.Closed.stable {S : Node → Prop} (h : Closed S) : Stable S := by
  intro n y hn c hy
  rcases c.compared_near hy with ⟨rfl, -⟩ | hy | hy
  · exact hn
  · exact h.child hn hy
  · exact h.front hn hy

theorem Source.nodes_closed (s : Source) : Node.Closed (· ∈ s.nodes) where
  child hn hy := Node.children_below hn hy
  front hn hy := by
    rcases Node.outerAttributes_below hn hy with h | h
    · exact h
    · cases h

theorem Source.root_mem_nodes (s : Source) : s.root ∈ s.nodes :=
  s.root.mem_below_self

namespace Node

/-- A node and the attributes in front of it, with all that is below them. -/
def reach (n : Node) : List Node :=
  (n :: n.outerAttributes).flatMap below

theorem mem_reach_self (n : Node) : n ∈ n.reach :=
  List.mem_flatMap.mpr ⟨n, List.mem_cons_self, n.mem_below_self⟩

theorem reach_closed (n : Node) : Closed (· ∈ n.reach) where
  child hy hc := by
    obtain ⟨t, ht, hy⟩ := List.mem_flatMap.mp hy
    exact List.mem_flatMap.mpr ⟨t, ht, children_below hy hc⟩
  front {y a} hy ha := by
    obtain ⟨t, ht, hy⟩ := List.mem_flatMap.mp hy
    rcases outerAttributes_below hy ha with h | h
    · exact List.mem_flatMap.mpr ⟨t, ht, h⟩
    · have hn : a ∈ n.outerAttributes := by
        rcases List.mem_cons.mp ht with rfl | ht
        · exact h
        · exact outerAttributes_trans ht h
      exact List.mem_flatMap.mpr ⟨a, List.mem_cons_of_mem n hn, a.mem_below_self⟩

end Node

end ShapeSearch
