import ShapeSearch.Proofs.Correspondence

namespace ShapeSearch

/-- A wildcard without a name is never bound. -/
def Wildcard.IsBound (w : Wildcard) (e : Captures) : Prop :=
  w.ofVariable.name ≠ [] → ∃ b, e.lookup w.ofVariable.name = some b

theorem Wildcard.StandsFor.isBound {w : Wildcard} {source : Text} {e : Captures} {skipped : Nat}
    {n : Node} (h : w.StandsFor source e skipped n) : w.IsBound e := by
  intro hname
  obtain ⟨t, -, -, hbound⟩ := h.bound
  obtain ⟨f, hf, -⟩ := hbound hname
  exact ⟨.single f, hf⟩

theorem Wildcard.StandsForRun.isBound {w : Wildcard} {source : Text} {e : Captures}
    {ns : List Node} (h : w.StandsForRun source e ns) : w.IsBound e := by
  intro hname
  obtain ⟨fs, start, stop, t, hf, -⟩ := h.bound hname
  exact ⟨.multiple fs start stop t, hf⟩

namespace Pattern

variable {p : Pattern} {source : Text} {e : Captures}

section Lists

variable {α : Type} [Listed α] {r : α → α → Prop} {patterns candidates : List α} {a : α}

/-- A member of a list is a wildcard for a run, or it has a partner among the candidates. -/
def Paired (p : Pattern) (e : Captures) (r : α → α → Prop) (candidates : List α) (a : α) : Prop :=
  (∃ x w, Listed.node? a = some x ∧ p.wildcard? x = some w ∧ w.IsBound e) ∨
    ∃ c ∈ candidates, r a c

theorem paired_of_runs {runs : List (List α)} (hruns : ∀ run ∈ runs, ∀ c ∈ run, c ∈ candidates)
    (h : List.Forall₂ (Element.Holds r fun w cs => w.StandsForRun source e (cs.map Listed.bound))
      (patterns.map p.element) runs)
    (ha : a ∈ patterns) : p.Paired e r candidates a := by
  rw [List.forall₂_map_left_iff] at h
  obtain ⟨run, hrun, hholds⟩ := Comparison.forall₂_exists_left h.flip a ha
  cases he : p.element a with
  | one a' =>
      rw [he, eq_of_element_eq_one he] at hholds
      obtain ⟨c, rfl, hc⟩ := hholds
      exact .inr ⟨c, hruns _ hrun c (List.mem_singleton_self c), hc⟩
  | run w =>
      rw [he] at hholds
      obtain ⟨x, hx, hw⟩ := wildcard_of_element_eq_run he
      have hstands : w.StandsForRun source e (run.map Listed.bound) := hholds
      exact .inl ⟨x, w, hx, hw, hstands.isBound⟩

theorem ListInOrder.paired (h : p.ListInOrder source e r patterns candidates) (ha : a ∈ patterns) :
    p.Paired e r candidates a := by
  obtain ⟨runs, rfl, hholds⟩ := h
  exact paired_of_runs (fun run hrun c hc => List.mem_flatten.mpr ⟨run, hrun, hc⟩) hholds ha

theorem ListInAnyOrder.paired (h : p.ListInAnyOrder source e r patterns candidates)
    (ha : a ∈ patterns) : p.Paired e r candidates a := by
  rcases h with hnil | ⟨runs, -, hsub, hholds⟩
  · rw [List.map_eq_nil_iff] at hnil
    rw [hnil] at ha
    cases ha
  · exact paired_of_runs (fun run hrun c hc => (hsub run hrun).subset hc) hholds ha

end Lists

variable {r : Node → Node → Prop} {a b x : Node} {c : Clause}

theorem Paired.of_node {ns : List Node} (h : p.Paired e r ns x) :
    (∃ w, p.wildcard? x = some w ∧ w.IsBound e) ∨ ∃ y ∈ ns, r x y := by
  rcases h with ⟨x', w, hx, hw, hbound⟩ | h
  · cases hx
    exact .inl ⟨w, hw, hbound⟩
  · exact .inr h

/-- Each node that a clause compares is a wildcard that has been bound, or fits a node that the
clause finds on the other side. The name behind a quote is compared as text. -/
theorem Demands.paired (h : p.Demands source e r a b c) (hx : x ∈ c.compared a) :
    (∃ w, p.wildcard? x = some w ∧ w.IsBound e) ∨ (∃ y ∈ c.compared b, r x y) ∨
      (c = .quotedName ∧ p.wildcard? x = none) := by
  cases c with
  | part q =>
      obtain ⟨y, hy, hxy⟩ := h x (Option.mem_toList.mp hx)
      exact .inr (.inl ⟨y, Option.mem_toList.mpr hy, hxy⟩)
  | elementsInOrder | childrenInOrder =>
      exact (ListInOrder.paired h hx).of_node.imp_right .inl
  | elementsInAnyOrder | attributes =>
      exact (ListInAnyOrder.paired h hx).of_node.imp_right .inl
  | tupleFields =>
      obtain ⟨f, hf, hx⟩ := List.mem_flatMap.mp hx
      rcases ListInOrder.paired h hf with ⟨x', w, hx', hw, hbound⟩ | ⟨g, hg, hattr, hvis, htype⟩
      · rw [nodes_of_node? f x' hx', List.mem_singleton] at hx
        exact .inl ⟨w, hx ▸ hw, hbound⟩
      · have hmem := TupleField.nodes_subset_compared hg
        simp only [TupleField.nodes, List.mem_append, List.mem_singleton, Option.mem_toList] at hx
        rcases hx with hx | hx | rfl
        · rcases (ListInAnyOrder.paired hattr hx).of_node with h | ⟨y, hy, hxy⟩
          · exact .inl h
          · exact .inr (.inl ⟨y, hmem (g.attributes_subset_nodes hy), hxy⟩)
        · obtain ⟨y, hy, hxy⟩ := hvis x hx
          have hy' : y ∈ g.visibility.toList := Option.mem_toList.mpr hy
          exact .inr (.inl ⟨y, hmem (g.visibility_subset_nodes hy'), hxy⟩)
        · exact .inr (.inl ⟨g.type, hmem g.type_mem_nodes, htype⟩)
  | tokenGroups =>
      obtain ⟨g, hg, hx⟩ := List.mem_flatMap.mp hx
      rcases ListInAnyOrder.paired h hg with ⟨x', w, hx', hw, hbound⟩ | ⟨g', hg', htokens⟩
      · rw [tokens_of_node? g x' hx', List.mem_singleton] at hx
        exact .inl ⟨w, hx ▸ hw, hbound⟩
      · rcases (ListInOrder.paired htokens hx).of_node with h | ⟨y, hy, hxy⟩
        · exact .inl h
        · exact .inr (.inl ⟨y, TokenGroup.tokens_subset_compared hg' hy, hxy⟩)
  | quotedName =>
      have hname : a.childOfKind? "identifier" = some x := Option.mem_toList.mp hx
      cases hw : p.wildcard? x with
      | none => exact .inr (.inr ⟨rfl, rfl⟩)
      | some w =>
          simp only [Demands, hname, Option.bind_some, hw] at h
          exact .inl ⟨w, rfl, h.isBound⟩
  | kindAmong | marker | sameText | sameTokens | sameValue | genericParameter | segments
  | lastSegment => cases hx

end Pattern

end ShapeSearch
