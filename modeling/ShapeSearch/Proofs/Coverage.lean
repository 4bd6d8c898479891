import ShapeSearch.Proofs.Descendants

namespace ShapeSearch

def Part.takes (q : Part) (x : Node) : Bool :=
  match q with
  | field name => x.label.field == some name
  | childOfKind kind => x.label.isProper && x.kind == kind
  | unfielded => x.label.isProper && x.label.field.isNone
  | value => x.label.isProper && x.kind != "label"
  | firstElement => x.label.isProper && !x.isAttributeItem
  | pathName => x.label.field == some "name"
  | pathQualifier => x.label.field == some "path"

namespace Node

/-- Nodes of which only the text, the value or the presence is compared. -/
def isVerbatim (n : Node) : Bool :=
  Literal.kinds.contains n.kind || n.kind == "visibility_modifier" || n.kind == "mutable_specifier"

def plainChildren (n : Node) : List Node :=
  n.properChildren.filter fun x => !x.isAttributeItem && !x.isVerbatim

/-- The places that the grammar has for the plain children of a node. The other kinds have lists of
children, or any children. -/
def slots (n : Node) : Option (List Part) :=
  match n.kind with
  | "struct_item" | "union_item" =>
    some [.field "name", .field "type_parameters", .childOfKind "where_clause", .field "body"]
  | "const_item" | "static_item" | "const_parameter" =>
    some [.field "name", .field "type", .field "value"]
  | "field_declaration" => some [.field "name", .field "type"]
  | "type_parameter" => some [.field "name", .field "bounds", .field "default_type"]
  | "lifetime_parameter" => some [.field "name", .field "bounds"]
  | "where_predicate" => some [.field "left", .field "bounds"]
  | "higher_ranked_trait_bound" => some [.field "type_parameters", .field "type"]
  | "reference_type" | "pointer_type" => some [.childOfKind "lifetime", .field "type"]
  | "lifetime" | "label" => some [.childOfKind "identifier"]
  | "continue_expression" => some [.childOfKind "label"]
  | "break_expression" => some [.childOfKind "label", .value]
  | "attribute_item" | "inner_attribute_item" => some [.childOfKind "attribute"]
  | "attribute" => some [.unfielded, .field "value", .field "arguments"]
  | "scoped_identifier" | "scoped_type_identifier" => some [.pathName, .pathQualifier]
  | "expression_statement" => some [.firstElement]
  | "call_expression" => some [.field "function", .field "arguments"]
  | "identifier" | "self" => some []
  | _ => none

/-- The children of a node are as the grammar has them: each takes a place, and no place is taken
twice. In a list of tuple fields each is a type. -/
def isShaped (n : Node) : Bool :=
  (n.slots.all fun qs => n.plainChildren.all (fun x => qs.any (·.takes x)) &&
    qs.all fun q => n.children.countP q.takes ≤ 1) &&
  (n.kind != "ordered_field_declaration_list" ||
    n.plainChildren.all (·.label.field == some "type"))

theorem mem_plainChildren_iff {n x : Node} : x ∈ n.plainChildren ↔
    x ∈ n.properChildren ∧ x.isAttributeItem = false ∧ x.isVerbatim = false := by
  simp [plainChildren]

theorem find?_eq_of_countP_le_one {ns : List Node} {f : Node → Bool} {x : Node} (hx : x ∈ ns)
    (hf : f x = true) (hone : ns.countP f ≤ 1) : ns.find? f = some x := by
  rw [List.countP_eq_length_filter] at hone
  rw [← List.head?_filter]
  have hmem : x ∈ ns.filter f := List.mem_filter.mpr ⟨hx, hf⟩
  match hns : ns.filter f with
  | [] => rw [hns] at hmem; cases hmem
  | [y] => rw [hns, List.mem_singleton] at hmem; rw [hmem]; rfl
  | y :: z :: rest =>
      rw [hns] at hone
      simp at hone

theorem find?_properChildren (n : Node) (f : Node → Bool) :
    n.properChildren.find? f = n.children.find? fun x => x.label.isProper && f x := by
  simp only [properChildren, List.find?_filter, Bool.decide_and, Bool.decide_eq_true]

theorem isScoped_of_slots {n : Node} {qs : List Part} (h : n.slots = some qs)
    (hq : .pathName ∈ qs ∨ .pathQualifier ∈ qs) : n.isScoped = true := by
  simp only [slots] at h
  split at h
  all_goals cases h
  all_goals simp_all [isScoped]

end Node

theorem Part.of_eq_find? {n : Node} {q : Part}
    (hq : q = .pathName ∨ q = .pathQualifier → n.isScoped = true) :
    q.of n = n.children.find? q.takes := by
  cases q with
  | field | unfielded => rfl
  | childOfKind | value => exact n.find?_properChildren _
  | firstElement =>
      simp only [of, Node.elements, List.head?_filter]
      exact n.find?_properChildren _
  | pathName =>
      simp only [of, Node.pathName?, hq (.inl rfl), if_true]
      rfl
  | pathQualifier =>
      simp only [of, Node.pathQualifier?, hq (.inr rfl), if_true]
      rfl

theorem exists_clause_of_slots {n : Node} {qs : List Part} (h : n.slots = some qs) {q : Part}
    (hq : q ∈ qs) : .part q ∈ strategy n n ∨
      (q = .childOfKind "identifier" ∧ .quotedName ∈ strategy n n) := by
  simp only [Node.slots] at h
  split at h
  all_goals cases h
  all_goals simp only [List.mem_cons, List.not_mem_nil, or_false] at hq
  all_goals simp_all [strategy]
  -- constants and type parameters do not ask in the order of their places
  all_goals rcases hq with rfl | rfl | rfl <;> simp

theorem strategy_of_slots_eq_none {n : Node} (h : n.slots = none) (hv : n.isVerbatim = false) :
    .elementsInOrder ∈ strategy n n ∨ .elementsInAnyOrder ∈ strategy n n ∨
      (n.kind = "ordered_field_declaration_list" ∧ .tupleFields ∈ strategy n n) ∨
      .tokenGroups ∈ strategy n n ∨ n.isLeaf = true ∨ .childrenInOrder ∈ strategy n n := by
  simp only [Node.isVerbatim, Bool.or_eq_false_iff, beq_eq_false_iff_ne] at hv
  obtain ⟨⟨hliteral, hvisibility⟩, -⟩ := hv
  simp only [strategy]
  split
  all_goals simp_all [Node.slots]
  by_cases htokens : n.kind = "token_tree" ∧ n.isWithinAttribute = true
  · simp [htokens]
  · by_cases hleaf : n.isLeaf = true <;> simp [htokens, hleaf]

section Lists

variable {ns : List Node} {y : Node}

theorem Node.mem_undelimited (hy : y ∈ ns) (hdelimiter : y.isDelimiter = false) :
    y ∈ undelimited ns := by
  simp only [undelimited]
  split
  next first second rest =>
    split
    next hends =>
      rw [Bool.and_eq_true] at hends
      rcases List.mem_cons.mp hy with rfl | hy
      · rw [hdelimiter] at hends
        exact absurd hends.1 Bool.false_ne_true
      · rw [← List.dropLast_append_getLast (List.cons_ne_nil second rest)] at hy
        rcases List.mem_append.mp hy with hy | hy
        · exact hy
        · rw [List.mem_singleton.mp hy, hends.2] at hdelimiter
          cases hdelimiter
    next => exact hy
  next => exact hy

theorem Node.exists_mem_splitAtCommas {group : List Node}
    (hy : y ∈ group ∨ (y ∈ ns ∧ y.isComma = false)) : ∃ g ∈ splitAtCommas group ns, y ∈ g := by
  induction ns generalizing group with
  | nil =>
      have hgroup : y ∈ group := hy.elim id fun h => nomatch h.1
      have hne : group.isEmpty = false := by
        simpa using List.ne_nil_of_mem hgroup
      simp only [splitAtCommas, hne]
      exact ⟨group, List.mem_singleton_self group, hgroup⟩
  | cons n ns ih =>
      simp only [splitAtCommas]
      split
      next hcomma =>
        rcases hy with hy | ⟨hy, hne⟩
        · exact ⟨group, List.mem_cons_self, hy⟩
        · rcases List.mem_cons.mp hy with rfl | hy
          · rw [hcomma] at hne
            cases hne
          · have hrest : y ∈ ([] : List Node) ∨ (y ∈ ns ∧ y.isComma = false) := .inr ⟨hy, hne⟩
            obtain ⟨g, hg, hyg⟩ := ih hrest
            exact ⟨g, List.mem_cons_of_mem _ hg, hyg⟩
      next =>
        apply ih
        rcases hy with hy | ⟨hy, hne⟩
        · exact .inl (List.mem_append_left _ hy)
        · rcases List.mem_cons.mp hy with rfl | hy
          · exact .inl (List.mem_append_right _ (List.mem_singleton_self y))
          · exact .inr ⟨hy, hne⟩

theorem TupleField.exists_type_of_gather {attributes : List Node} {visibility : Option Node}
    (hy : y ∈ ns) (hfield : y.label.field = some "type") :
    ∃ f ∈ gather attributes visibility ns, f.type = y := by
  induction ns generalizing attributes visibility with
  | nil => cases hy
  | cons n ns ih =>
      simp only [gather]
      split
      next =>
        rcases List.mem_cons.mp hy with rfl | hy
        · exact ⟨_, List.mem_cons_self, rfl⟩
        · obtain ⟨f, hf, htype⟩ := ih hy
          exact ⟨f, List.mem_cons_of_mem _ hf, htype⟩
      next hother =>
        have hrest : y ∈ ns := by
          rcases List.mem_cons.mp hy with rfl | hy
          · rw [hfield] at hother
            exact absurd rfl hother
          · exact hy
        split
        · exact ih hrest
        · split
          · exact ih hrest
          · exact ih hrest

end Lists

theorem Node.mem_tokenGroups {n x : Node} (hx : x ∈ n.properChildren) :
    x ∈ Clause.tokenGroups.compared n := by
  obtain ⟨hchild, hproper⟩ := List.mem_filter.mp hx
  rw [Label.isProper, Bool.and_eq_true, Bool.not_eq_true'] at hproper
  have hmem : x ∈ n.children.filter (!·.label.extra) :=
    List.mem_filter.mpr ⟨hchild, by simp [hproper.2]⟩
  have hdelimiter : x.isDelimiter = false := by simp [isDelimiter, hproper.1]
  have hcomma : x.isComma = false := by simp [isComma, hproper.1]
  obtain ⟨g, hg, hxg⟩ := exists_mem_splitAtCommas (.inr ⟨mem_undelimited hmem hdelimiter, hcomma⟩)
  exact TokenGroup.tokens_subset_compared (g := ⟨g, n⟩) (List.mem_map_of_mem hg) hxg

/-- The strategies leave out no plain child of a node whose children are as the grammar has them. -/
theorem exists_clause_of_plainChild {n x : Node} (hshape : n.isShaped = true)
    (hv : n.isVerbatim = false) (hx : x ∈ n.plainChildren) :
    ∃ c ∈ strategy n n, x ∈ c.compared n := by
  obtain ⟨hproper, hattribute, -⟩ := Node.mem_plainChildren_iff.mp hx
  have hchild := Node.mem_properChildren hproper
  simp only [Node.isShaped, Bool.and_eq_true, Bool.or_eq_true, bne_iff_ne, List.all_eq_true] at hshape
  obtain ⟨hslots, htyped⟩ := hshape
  cases hs : n.slots with
  | some qs =>
      simp only [hs, Option.all_some, Bool.and_eq_true, List.all_eq_true, List.any_eq_true,
        decide_eq_true_eq] at hslots
      obtain ⟨hplaced, hsingle⟩ := hslots
      obtain ⟨q, hq, htakes⟩ := hplaced x hx
      have hpart : q.of n = some x := by
        rw [Part.of_eq_find? fun hpath => Node.isScoped_of_slots hs ?_]
        · exact Node.find?_eq_of_countP_le_one hchild htakes (hsingle q hq)
        · rcases hpath with rfl | rfl
          · exact .inl hq
          · exact .inr hq
      rcases exists_clause_of_slots hs hq with h | ⟨rfl, h⟩
      · exact ⟨_, h, Option.mem_toList.mpr hpart⟩
      · exact ⟨_, h, Option.mem_toList.mpr hpart⟩
  | none =>
      have helement : x ∈ n.elements := by
        exact List.mem_filter.mpr ⟨hproper, by simp [hattribute]⟩
      rcases strategy_of_slots_eq_none hs hv with h | h | ⟨hkind, h⟩ | h | h | h
      · exact ⟨_, h, helement⟩
      · exact ⟨_, h, helement⟩
      · have hfield := (htyped.resolve_left (not_not.mpr hkind)) x hx
        obtain ⟨f, hf, rfl⟩ := TupleField.exists_type_of_gather hchild (by simpa using hfield)
        exact ⟨_, h, TupleField.nodes_subset_compared hf f.type_mem_nodes⟩
      · exact ⟨_, h, Node.mem_tokenGroups hproper⟩
      · rw [Node.isLeaf, List.isEmpty_iff] at h
        rw [Node.children, h] at hchild
        cases hchild
      · refine ⟨_, h, List.mem_filter.mpr ⟨hchild, ?_⟩⟩
        have hlabel := (List.mem_filter.mp hproper).2
        rw [Label.isProper, Bool.and_eq_true] at hlabel
        simp [hlabel.1, hlabel.2]

theorem compared_of_name {n x : Node} (hquoted : n.isQuoted = true)
    (hx : n.childOfKind? "identifier" = some x) {c : Clause} (hc : c ∈ strategy x x) :
    c.compared x = [] := by
  have hkind : x.kind = "identifier" := by simpa using List.find?_some hx
  have hparent : x.parentKind? = some n.kind := by
    rw [Node.parentKind?, Node.above_of_mem_row (Node.mem_properChildren
      (List.mem_of_find?_eq_some hx)), List.head?_cons]
  have hpath : x.isPathExpression = false := by
    simp only [Node.isQuoted, Bool.or_eq_true, beq_iff_eq] at hquoted
    rcases hquoted with h | h <;> simp [Node.isPathExpression, hparent, h, Node.namingParents]
  simp only [strategy, hkind, hpath, Bool.false_eq_true, if_false, List.mem_cons,
    List.not_mem_nil, or_false] at hc
  rcases hc with rfl | rfl <;> rfl

end ShapeSearch
