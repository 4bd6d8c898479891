import ShapeSearch.Proofs.Preorder

namespace ShapeSearch

namespace Tree

mutual

def withoutExtras : Tree → Tree
  | node l ts => node l (withoutExtrasAll ts)

def withoutExtrasAll : List Tree → List Tree
  | [] => []
  | t :: ts =>
    if t.label.extra then withoutExtrasAll ts else withoutExtras t :: withoutExtrasAll ts

end

theorem label_withoutExtras (t : Tree) : t.withoutExtras.label = t.label := by
  cases t; rfl

theorem children_withoutExtras (t : Tree) :
    t.withoutExtras.children = withoutExtrasAll t.children := by
  cases t; rfl

theorem tokenTextAll_eq (source : Text) (ts : List Tree) :
    tokenTextAll source ts = (ts.filter (!·.label.extra)).flatMap (tokenText source) := by
  induction ts with
  | nil => rfl
  | cons t ts ih => cases h : t.label.extra <;> simp [tokenTextAll, h, ih]

theorem tokenText_eq (source : Text) (t : Tree) (h : t.children ≠ []) :
    t.tokenText source = (t.children.filter (!·.label.extra)).flatMap (tokenText source) := by
  obtain ⟨l, _ | ⟨t, ts⟩⟩ := t
  · exact absurd rfl h
  · exact tokenTextAll_eq source (t :: ts)

theorem lastSegmentOfFunction?_eq (ts : List Tree) :
    lastSegmentOfFunction? ts =
      (ts.find? (·.label.field == some "function")).map lastSegment := by
  induction ts with
  | nil => rfl
  | cons t ts ih =>
      by_cases h : (t.label.field == some "function") = true <;>
        simp [lastSegmentOfFunction?, h, ih]

theorem lastSegment_eq (t : Tree) :
    t.lastSegment =
      if t.label.kind == "scoped_identifier" || t.label.kind == "scoped_type_identifier" then
        (t.childAt? "name").getD t
      else if t.label.kind == "generic_function" then
        ((t.childAt? "function").map lastSegment).getD t
      else t := by
  cases t
  simp only [lastSegment, lastSegmentOfFunction?_eq]
  rfl

end Tree

namespace Node

def withoutExtras (n : Node) : Node :=
  ⟨n.tree.withoutExtras, Tree.withoutExtrasAll n.before, Tree.withoutExtrasAll n.after, n.above⟩

theorem face_withoutExtras : Face withoutExtras :=
  ⟨fun n => n.tree.label_withoutExtras, fun _ => rfl⟩

theorem row_withoutExtras (above : List String) (before ts : List Tree) :
    row above (Tree.withoutExtrasAll before) (Tree.withoutExtrasAll ts) =
      ((row above before ts).filter (!·.label.extra)).map withoutExtras := by
  induction ts generalizing before with
  | nil => rfl
  | cons t ts ih =>
      have ih' := ih (t :: before)
      cases h : t.label.extra <;> simp only [Tree.withoutExtrasAll, h, if_true, if_false,
        Bool.false_eq_true] at ih' ⊢ <;> simp [row, label, h, ih', withoutExtras]

theorem rowBack_withoutExtras (above : List String) (after ts : List Tree) :
    rowBack above (Tree.withoutExtrasAll after) (Tree.withoutExtrasAll ts) =
      ((rowBack above after ts).filter (!·.label.extra)).map withoutExtras := by
  induction ts generalizing after with
  | nil => rfl
  | cons t ts ih =>
      have ih' := ih (t :: after)
      cases h : t.label.extra <;> simp only [Tree.withoutExtrasAll, h, if_true, if_false,
        Bool.false_eq_true] at ih' ⊢ <;> simp [rowBack, label, h, ih', withoutExtras]

theorem children_withoutExtras (n : Node) :
    n.withoutExtras.children = (n.children.filter (!·.label.extra)).map withoutExtras := by
  have h := row_withoutExtras (n.kind :: n.above) [] n.tree.children
  rw [children, face_withoutExtras.kind]
  rw [← n.tree.children_withoutExtras] at h
  exact h

theorem later_withoutExtras {n : Node} (h : n.label.extra = false) :
    n.withoutExtras.later = (n.later.filter (!·.label.extra)).map withoutExtras := by
  have hrow := row_withoutExtras n.above (n.tree :: n.before) n.after
  rw [Tree.withoutExtrasAll, if_neg (by simpa [label] using h)] at hrow
  exact hrow

theorem earlier_withoutExtras {n : Node} (h : n.label.extra = false) :
    n.withoutExtras.earlier = (n.earlier.filter (!·.label.extra)).map withoutExtras := by
  have hrow := rowBack_withoutExtras n.above (n.tree :: n.after) n.before
  rw [Tree.withoutExtrasAll, if_neg (by simpa [label] using h)] at hrow
  exact hrow

/-- A comment says no more than that it is one. -/
def isComment (n : Node) : Bool :=
  n.label.named && n.label.field.isNone && ["line_comment", "block_comment"].contains n.kind

section Readers

variable {n : Node} {ns : List Node} {P : Node → Bool}

theorem filter_withoutExtras (hP : ∀ c, P (withoutExtras c) = P c)
    (hextra : ∀ c ∈ ns, P c = true → c.label.extra = false) :
    ((ns.filter (!·.label.extra)).map withoutExtras).filter P = (ns.filter P).map withoutExtras := by
  rw [List.filter_map, List.filter_filter]
  congr 1
  apply List.filter_congr
  intro c hc
  simp only [Function.comp_apply, hP]
  cases h : P c with
  | false => rfl
  | true => simp [hextra c hc h]

theorem find?_withoutExtras (hP : ∀ c, P (withoutExtras c) = P c)
    (hextra : ∀ c ∈ ns, P c = true → c.label.extra = false) :
    ((ns.filter (!·.label.extra)).map withoutExtras).find? P = (ns.find? P).map withoutExtras := by
  rw [← List.head?_filter, ← List.head?_filter, filter_withoutExtras hP hextra, List.head?_map]

theorem any_withoutExtras (hP : ∀ c, P (withoutExtras c) = P c)
    (hextra : ∀ c ∈ ns, P c = true → c.label.extra = false) :
    ((ns.filter (!·.label.extra)).map withoutExtras).any P = ns.any P := by
  rw [Bool.eq_iff_iff, List.any_eq_true, List.any_eq_true, ← List.find?_isSome,
    ← List.find?_isSome, find?_withoutExtras hP hextra, Option.isSome_map]

theorem isProper_withoutExtras (c : Node) : c.withoutExtras.label.isProper = c.label.isProper := by
  rw [face_withoutExtras.label]

theorem extra_of_isProper {c : Node} (h : c.label.isProper = true) : c.label.extra = false := by
  simp only [Label.isProper, Bool.and_eq_true, Bool.not_eq_true'] at h
  exact h.2

theorem properChildren_withoutExtras (n : Node) :
    n.withoutExtras.properChildren = n.properChildren.map withoutExtras := by
  rw [properChildren, children_withoutExtras]
  exact filter_withoutExtras isProper_withoutExtras fun c _ => extra_of_isProper

theorem elements_withoutExtras (n : Node) :
    n.withoutExtras.elements = n.elements.map withoutExtras := by
  rw [elements, properChildren_withoutExtras, List.filter_map, elements]
  congr 1
  apply List.filter_congr
  intro c _
  rw [Function.comp_apply, face_withoutExtras.isAttributeItem]

theorem significantChildren_withoutExtras (n : Node) :
    n.withoutExtras.significantChildren = n.significantChildren.map withoutExtras := by
  rw [significantChildren, children_withoutExtras]
  refine filter_withoutExtras (fun c => ?_) fun c _ h => ?_
  · rw [face_withoutExtras.label, face_withoutExtras.kind]
  · simp only [Bool.and_eq_true, Bool.not_eq_true'] at h
    exact h.1

theorem find?_properChildren_withoutExtras (n : Node) (hP : ∀ c, P (withoutExtras c) = P c) :
    n.withoutExtras.properChildren.find? P = (n.properChildren.find? P).map withoutExtras := by
  rw [properChildren_withoutExtras, List.find?_map]
  congr 2
  exact funext hP

theorem undelimited_map {f : Node → Node} (hf : Guise f) (ns : List Node) :
    undelimited (ns.map f) = (undelimited ns).map f := by
  match ns with
  | [] | [_] => rfl
  | first :: second :: rest =>
      have hlast : (f second :: rest.map f).getLast (by simp) =
          f ((second :: rest).getLast (by simp)) :=
        List.getLast_map (f := f) (l := second :: rest) (List.cons_ne_nil _ _)
      simp only [undelimited, List.map_cons, hlast, hf.isDelimiter]
      split
      · rw [← List.map_cons, List.map_dropLast]
      · rfl

theorem splitAtCommas_map {f : Node → Node} (hf : Guise f) (group ns : List Node) :
    splitAtCommas (group.map f) (ns.map f) = (splitAtCommas group ns).map (·.map f) := by
  induction ns generalizing group with
  | nil =>
      simp only [List.map_nil, splitAtCommas, List.isEmpty_map]
      split <;> rfl
  | cons n ns ih =>
      simp only [List.map_cons, splitAtCommas, hf.isComma]
      split
      · have ih' := ih []
        simpa using ih'
      · have ih' := ih (group ++ [n])
        simpa using ih'

theorem tokenGroups_withoutExtras (n : Node) :
    n.withoutExtras.tokenGroups = n.tokenGroups.map (TokenGroup.map withoutExtras) := by
  have htokens : n.withoutExtras.children.filter (!·.label.extra) =
      (n.children.filter (!·.label.extra)).map withoutExtras := by
    rw [children_withoutExtras]
    refine filter_withoutExtras (fun c => ?_) fun c _ h => by simpa using h
    rw [face_withoutExtras.label]
  have hsplit := splitAtCommas_map face_withoutExtras.guise []
    (undelimited (n.children.filter (!·.label.extra)))
  simp only [tokenGroups, htokens, undelimited_map face_withoutExtras.guise]
  rw [List.map_nil] at hsplit
  rw [hsplit, List.map_map, List.map_map]
  rfl

end Readers

section Comments

variable {n : Node}

theorem label_of_isComment (h : n.isComment = true) :
    n.label.field = none ∧ (n.kind = "line_comment" ∨ n.kind = "block_comment") := by
  simp only [isComment, Bool.and_eq_true, Option.isNone_iff_eq_none, List.contains_eq_mem,
    List.mem_cons, List.not_mem_nil, or_false, decide_eq_true_eq] at h
  exact ⟨h.1.2, h.2⟩

theorem gather_map {f : Node → Node} (hf : Guise f) (attributes : List Node)
    (visibility : Option Node) (ns : List Node) :
    TupleField.gather (attributes.map f) (visibility.map f) (ns.map f) =
      (TupleField.gather attributes visibility ns).map (TupleField.map f) := by
  induction ns generalizing attributes visibility with
  | nil => rfl
  | cons n ns ih =>
      simp only [List.map_cons, TupleField.gather, hf.field, hf.kind, hf.isAttributeItem]
      split
      · rw [List.map_cons, ← ih [] none]
        rfl
      · split
        · rw [← ih, List.map_append]
          rfl
        · split
          · exact ih attributes (some n)
          · exact ih attributes visibility

theorem gather_filter {ns : List Node}
    (hns : ∀ c ∈ ns, c.label.extra = true → c.isComment = true) (attributes : List Node)
    (visibility : Option Node) :
    TupleField.gather attributes visibility (ns.filter (!·.label.extra)) =
      TupleField.gather attributes visibility ns := by
  induction ns generalizing attributes visibility with
  | nil => rfl
  | cons n ns ih =>
      have ih' := ih fun c hc => hns c (List.mem_cons_of_mem n hc)
      cases hextra : n.label.extra with
      | false => simp [hextra, TupleField.gather, ih']
      | true =>
          obtain ⟨hfield, hkind⟩ := label_of_isComment (hns n List.mem_cons_self hextra)
          have hattribute : n.isAttributeItem = false := by
            rcases hkind with h | h <;> simp [isAttributeItem, h]
          have hvisibility : (n.kind == "visibility_modifier") = false := by
            rcases hkind with h | h <;> simp [h]
          simp [hextra, TupleField.gather, hfield, hattribute, hvisibility, ih']

/-- Extras among the children of a node are comments. -/
def CommentsOnly (n : Node) : Prop :=
  ∀ c ∈ n.children, c.label.extra = true → c.isComment = true

variable (hc : n.CommentsOnly)

include hc

theorem extra_eq_false_of_field {c : Node} (hmem : c ∈ n.children) {field : String}
    (h : c.label.field = some field) : c.label.extra = false := by
  refine Bool.eq_false_iff.mpr fun hextra => ?_
  rw [(label_of_isComment (hc c hmem hextra)).1] at h
  cases h

theorem extra_eq_false_of_kind {c : Node} (hmem : c ∈ n.children)
    (h : c.kind ≠ "line_comment" ∧ c.kind ≠ "block_comment") : c.label.extra = false := by
  refine Bool.eq_false_iff.mpr fun hextra => ?_
  rcases (label_of_isComment (hc c hmem hextra)).2 with hkind | hkind
  · exact h.1 hkind
  · exact h.2 hkind

theorem childAt?_withoutExtras (field : String) :
    n.withoutExtras.childAt? field = (n.childAt? field).map withoutExtras := by
  rw [childAt?, children_withoutExtras]
  refine find?_withoutExtras (fun c => ?_) fun c hmem h => ?_
  · rw [face_withoutExtras.label]
  · exact extra_eq_false_of_field hc hmem (by simpa using h)

theorem hasChildOfKind_withoutExtras {kind : String} (h : kind ∈ Clause.markerKinds) :
    n.withoutExtras.hasChildOfKind kind = n.hasChildOfKind kind := by
  have hkind : kind ≠ "line_comment" ∧ kind ≠ "block_comment" := by
    simp only [Clause.markerKinds, List.mem_cons, List.not_mem_nil, or_false] at h
    rcases h with rfl | rfl | rfl | rfl <;> decide
  rw [hasChildOfKind, children_withoutExtras]
  refine any_withoutExtras (fun c => ?_) fun c hmem h => ?_
  · rw [face_withoutExtras.kind]
  · exact extra_eq_false_of_kind hc hmem (by rwa [beq_iff_eq.mp h])

theorem part_withoutExtras (q : Part) : q.of n.withoutExtras = (q.of n).map withoutExtras := by
  cases q with
  | field name => exact childAt?_withoutExtras hc name
  | childOfKind kind =>
      refine find?_properChildren_withoutExtras n fun c => ?_
      rw [face_withoutExtras.kind]
  | unfielded =>
      rw [Part.of, unfieldedChild?, children_withoutExtras]
      refine find?_withoutExtras (fun c => ?_) fun c _ h => ?_
      · rw [face_withoutExtras.label]
      · exact extra_of_isProper (Bool.and_eq_true_iff.mp h).1
  | value =>
      refine find?_properChildren_withoutExtras n fun c => ?_
      rw [face_withoutExtras.kind]
  | firstElement =>
      simp only [Part.of, elements_withoutExtras, List.head?_map]
  | pathName =>
      simp only [Part.of, pathName?, face_withoutExtras.isScoped]
      split
      · exact childAt?_withoutExtras hc "name"
      · rfl
  | pathQualifier =>
      simp only [Part.of, pathQualifier?, face_withoutExtras.isScoped]
      split
      · exact childAt?_withoutExtras hc "path"
      · rfl

theorem tupleFields_withoutExtras :
    n.withoutExtras.tupleFields = n.tupleFields.map (TupleField.map withoutExtras) := by
  have hmap := gather_map face_withoutExtras.guise [] none (n.children.filter (!·.label.extra))
  rw [gather_filter hc] at hmap
  rw [tupleFields, children_withoutExtras]
  exact hmap

theorem extra_of_mem_nodes {t : TupleField} (ht : t ∈ n.tupleFields) {y : Node}
    (hy : y ∈ t.nodes) : y.label.extra = false := by
  rw [tupleFields, ← gather_filter hc] at ht
  rcases TupleField.mem_of_gather ht hy with h | h | h
  · cases h
  · cases h
  · simpa using (List.mem_filter.mp h).2

theorem extra_of_part {q : Part} {y : Node} (hn : n.label.extra = false) (h : q.of n = some y) :
    y.label.extra = false := by
  have hproper {y : Node} (h : y ∈ n.properChildren) : y.label.extra = false :=
    extra_of_isProper (List.mem_filter.mp h).2
  have hfield {field : String} (h : n.childAt? field = some y) : y.label.extra = false :=
    extra_eq_false_of_field hc (List.mem_of_find?_eq_some h) (by simpa using List.find?_some h)
  cases q with
  | field name => exact hfield h
  | childOfKind | value => exact hproper (List.mem_of_find?_eq_some h)
  | unfielded =>
      have hy := List.find?_some h
      exact extra_of_isProper (Bool.and_eq_true_iff.mp hy).1
  | firstElement => exact hproper (List.mem_of_mem_filter (List.mem_of_head? h))
  | pathName =>
      simp only [Part.of, pathName?] at h
      split at h
      · exact hfield h
      · exact Option.some.inj h ▸ hn
  | pathQualifier =>
      simp only [Part.of, pathQualifier?] at h
      split at h
      · exact hfield h
      · cases h

theorem extra_of_compared (hn : n.label.extra = false)
    (hfront : ∀ c ∈ n.earlier, c.label.extra = true → c.isComment = true) {c : Clause} {y : Node}
    (h : y ∈ c.compared n) : y.label.extra = false := by
  cases c with
  | part q => exact extra_of_part hc hn (Option.mem_toList.mp h)
  | elementsInOrder | elementsInAnyOrder =>
      exact extra_of_isProper (List.mem_filter.mp (List.mem_of_mem_filter h)).2
  | childrenInOrder =>
      have hy := (List.mem_filter.mp h).2
      simp only [Bool.and_eq_true, Bool.not_eq_true'] at hy
      exact hy.1
  | attributes =>
      refine Bool.eq_false_iff.mpr fun hextra => ?_
      have hcomment := hfront y (mem_earlier_of_mem_outerAttributes h) hextra
      have hattribute := (List.mem_filter.mp (List.mem_reverse.mp h)).2
      rcases (label_of_isComment hcomment).2 with hkind | hkind <;>
        simp [isAttributeItem, hkind] at hattribute
  | tupleFields =>
      obtain ⟨t, ht, hy⟩ := List.mem_flatMap.mp h
      exact extra_of_mem_nodes hc ht hy
  | tokenGroups =>
      obtain ⟨t, ht, hy⟩ := List.mem_flatMap.mp h
      obtain ⟨tokens, htokens, rfl⟩ := List.mem_map.mp ht
      rcases mem_of_splitAtCommas htokens hy with h | h
      · cases h
      · simpa using (List.mem_filter.mp (mem_of_undelimited h)).2
  | quotedName =>
      have hy := List.mem_of_find?_eq_some (Option.mem_toList.mp h)
      exact extra_of_isProper (List.mem_filter.mp hy).2
  | kindAmong | marker | sameText | sameTokens | sameValue | genericParameter | segments
  | lastSegment => cases h

end Comments

theorem children_map_tree (n : Node) : n.children.map (·.tree) = n.tree.children :=
  map_tree_row _ _ _

theorem isLeaf_eq (n : Node) : n.isLeaf = n.children.isEmpty := by
  rw [isLeaf, ← children_map_tree, List.isEmpty_map]

/-- Something hangs from a node besides extras, unless nothing does. -/
def HasContent (n : Node) : Prop :=
  n.isLeaf = true ∨ ∃ c ∈ n.children, c.label.extra = false

instance (n : Node) : Decidable n.HasContent :=
  inferInstanceAs (Decidable (_ ∨ ∃ c ∈ n.children, _ = _))

theorem HasContent.isLeaf_withoutExtras {n : Node} (h : n.HasContent) :
    n.withoutExtras.isLeaf = n.isLeaf := by
  rw [isLeaf_eq, children_withoutExtras, List.isEmpty_map]
  rcases h with h | ⟨c, hc, hextra⟩
  · rw [h]
    rw [isLeaf_eq, List.isEmpty_iff] at h
    rw [h]
    rfl
  · have hmem : c ∈ n.children.filter (!·.label.extra) := List.mem_filter.mpr ⟨hc, by simp [hextra]⟩
    rw [isLeaf_eq, List.isEmpty_eq_false_iff.mpr (List.ne_nil_of_mem hc),
      List.isEmpty_eq_false_iff.mpr (List.ne_nil_of_mem hmem)]

theorem tokenText_eq {n : Node} (h : n.children ≠ []) (source : Text) :
    n.tree.tokenText source =
      (n.children.filter (!·.label.extra)).flatMap fun c => c.tree.tokenText source := by
  have hne : n.tree.children ≠ [] := by
    rw [← children_map_tree]
    simpa using h
  rw [Tree.tokenText_eq source _ hne, ← children_map_tree, List.filter_map, List.flatMap_map]
  rfl

theorem tokenText_of_isLeaf {n : Node} (h : n.isLeaf = true) (source : Text) :
    n.tree.tokenText source = n.text source := by
  obtain ⟨⟨l, ts⟩, before, after, above⟩ := n
  obtain rfl : ts = [] := List.isEmpty_iff.mp h
  rfl

theorem tokenText_withoutExtras {n : Node} (h : ∀ y ∈ n.below, y.HasContent) (source : Text) :
    n.withoutExtras.tree.tokenText source = n.tree.tokenText source := by
  induction n using childInduct with
  | step n ih =>
      have hleaf := (h n n.mem_below_self).isLeaf_withoutExtras
      cases hn : n.isLeaf with
      | true =>
          rw [hn] at hleaf
          rw [tokenText_of_isLeaf hn, tokenText_of_isLeaf hleaf, face_withoutExtras.text]
      | false =>
          rw [hn, isLeaf_eq, List.isEmpty_eq_false_iff] at hleaf
          rw [isLeaf_eq, List.isEmpty_eq_false_iff] at hn
          rw [tokenText_eq hn, tokenText_eq hleaf, children_withoutExtras, List.filter_map,
            List.filter_filter, List.flatMap_map]
          simp only [Function.comp_def, face_withoutExtras.label, Bool.and_self]
          apply List.flatMap_congr
          intro c hc
          have hmem : c ∈ n.children := List.mem_of_mem_filter hc
          exact ih c hmem fun y hy => h y (below_trans (children_below n.mem_below_self hmem) hy)

theorem childAt?_tree (n : Node) (field : String) :
    n.tree.childAt? field = (n.childAt? field).map (·.tree) := by
  rw [Tree.childAt?, ← children_map_tree, List.find?_map]
  rfl

theorem lastSegment_withoutExtras {n : Node} (h : ∀ y ∈ n.below, y.CommentsOnly) :
    n.withoutExtras.tree.lastSegment = n.tree.lastSegment.withoutExtras := by
  induction n using childInduct with
  | step n ih =>
      have hchild (field : String) : n.withoutExtras.tree.childAt? field =
          (n.tree.childAt? field).map Tree.withoutExtras := by
        rw [childAt?_tree, childAt?_tree, childAt?_withoutExtras (h n n.mem_below_self)]
        simp only [Option.map_map]
        rfl
      rw [Tree.lastSegment_eq, Tree.lastSegment_eq n.tree, hchild, hchild]
      have hlabel : n.withoutExtras.tree.label = n.tree.label := n.tree.label_withoutExtras
      rw [hlabel]
      split
      · cases n.tree.childAt? "name" <;> rfl
      · split
        · rw [childAt?_tree]
          cases hc : n.childAt? "function" with
          | none => rfl
          | some c =>
              have hmem : c ∈ n.children := List.mem_of_find?_eq_some hc
              exact ih c hmem fun y hy =>
                h y (below_trans (children_below n.mem_below_self hmem) hy)
        · rfl

theorem attributes_withoutExtras {ns : List Node}
    (hns : ∀ c ∈ ns, c.label.extra = true → c.isComment = true) :
    (((((ns.filter (!·.label.extra)).map withoutExtras).filter (·.label.named)).takeWhile
        fun c => c.isAttributeItem || c.label.extra).filter (·.isAttributeItem)) =
      (((ns.filter (·.label.named)).takeWhile fun c => c.isAttributeItem || c.label.extra).filter
        (·.isAttributeItem)).map withoutExtras := by
  induction ns with
  | nil => rfl
  | cons c ns ih =>
      have ih' := ih fun d hd => hns d (List.mem_cons_of_mem c hd)
      cases hextra : c.label.extra with
      | true =>
          have hcomment := hns c List.mem_cons_self hextra
          have hattribute : c.isAttributeItem = false := by
            rcases (label_of_isComment hcomment).2 with h | h <;> simp [isAttributeItem, h]
          have hnamed : c.label.named = true := by
            simp only [isComment, Bool.and_eq_true] at hcomment
            exact hcomment.1.1
          simp [hextra, hnamed, hattribute, ih']
      | false =>
          cases hnamed : c.label.named with
          | false => simp [hextra, hnamed, face_withoutExtras.label, ih']
          | true =>
              cases hattribute : c.isAttributeItem with
              | false =>
                  simp [hextra, hnamed, face_withoutExtras.label, face_withoutExtras.isAttributeItem,
                    hattribute]
              | true =>
                  simp [hextra, hnamed, face_withoutExtras.label, face_withoutExtras.isAttributeItem,
                    hattribute, ih']

section Siblings

variable {n : Node} (hn : n.label.extra = false)

include hn

theorem outerAttributes_withoutExtras
    (h : ∀ c ∈ n.earlier, c.label.extra = true → c.isComment = true) :
    n.withoutExtras.outerAttributes = n.outerAttributes.map withoutExtras := by
  rw [outerAttributes, earlier_withoutExtras hn, attributes_withoutExtras h, ← List.map_reverse]
  rfl

theorem nextItem?_withoutExtras :
    n.withoutExtras.nextItem? = n.nextItem?.map withoutExtras := by
  rw [nextItem?, later_withoutExtras hn]
  refine find?_withoutExtras (fun c => ?_) fun c _ h => ?_
  · rw [face_withoutExtras.label, face_withoutExtras.isAttributeItem]
  · exact extra_of_isProper (Bool.and_eq_true_iff.mp h).1

theorem decoratesSibling_withoutExtras :
    n.withoutExtras.decoratesSibling = n.decoratesSibling := by
  rw [decoratesSibling, later_withoutExtras hn]
  exact any_withoutExtras isProper_withoutExtras fun c _ => extra_of_isProper

end Siblings

theorem items_withoutExtras (n : Node) : n.withoutExtras.items = n.items.map withoutExtras := by
  rw [items, properChildren_withoutExtras, List.filter_map, items]
  congr 1
  apply List.filter_congr
  intro c hc
  have hextra := extra_of_isProper (List.mem_filter.mp hc).2
  rw [Function.comp_apply, face_withoutExtras.isAttributeItem, decoratesSibling_withoutExtras hextra]

theorem preorder_withoutExtras (n : Node) :
    n.withoutExtras.preorder Label.isProper = (n.preorder Label.isProper).map withoutExtras := by
  induction n using childInduct with
  | step n ih =>
      rw [preorder_eq, preorder_eq, List.map_cons, List.map_flatMap]
      have hchildren : n.withoutExtras.children.filter (·.label.isProper) =
          n.properChildren.map withoutExtras := n.properChildren_withoutExtras
      rw [hchildren, List.flatMap_map]
      congr 1
      exact List.flatMap_congr fun c hc => ih c (mem_properChildren hc)

end Node

namespace Source

def withoutExtras (s : Source) : Source :=
  ⟨s.text, s.tree.withoutExtras⟩

theorem root_withoutExtras (s : Source) : s.withoutExtras.root = s.root.withoutExtras :=
  rfl

/-- Extras are comments, and no node holds nothing but extras. -/
structure ExtrasAreComments (s : Source) : Prop where
  comment {n : Node} (hn : n ∈ s.nodes) (h : n.label.extra = true) : n.isComment = true
  content {n : Node} (hn : n ∈ s.nodes) : n.HasContent

instance (s : Source) : Decidable s.ExtrasAreComments :=
  decidable_of_iff
    ((∀ n ∈ s.nodes, n.label.extra = true → n.isComment = true) ∧ ∀ n ∈ s.nodes, n.HasContent)
    ⟨fun h => ⟨h.1 _, h.2 _⟩, fun h => ⟨fun _ => h.comment, fun _ => h.content⟩⟩

theorem earlier_mem_nodes {s : Source} {n c : Node} (hn : n ∈ s.nodes) (hc : c ∈ n.earlier) :
    c ∈ s.nodes := by
  rcases Node.exists_parent_of_mem_below hn with rfl | ⟨z, hz, hnz⟩
  · cases hc
  · exact Node.children_below hz (Node.earlier_of_mem_children hnz hc)

/-- The nodes that a comparison comes to. -/
def Significant (s : Source) (n : Node) : Prop :=
  n ∈ s.nodes ∧ n.label.extra = false

namespace ExtrasAreComments

variable {s : Source} (hs : s.ExtrasAreComments)

include hs

theorem commentsOnly {n : Node} (hn : n ∈ s.nodes) : n.CommentsOnly :=
  fun _ hc => hs.comment (Node.children_below hn hc)

theorem kept {n : Node} (hn : s.Significant n) : Node.Kept Node.withoutExtras n where
  isLeaf := (hs.content hn.1).isLeaf_withoutExtras
  tokenText := Node.tokenText_withoutExtras fun y hy => hs.content (Node.below_trans hn.1 hy)
  lastSegment := by
    rw [Node.lastSegment_withoutExtras fun y hy => hs.commentsOnly (Node.below_trans hn.1 hy),
      Tree.label_withoutExtras]
  marker := Node.hasChildOfKind_withoutExtras (hs.commentsOnly hn.1)
  part := Node.part_withoutExtras (hs.commentsOnly hn.1)
  elements := n.elements_withoutExtras
  significantChildren := n.significantChildren_withoutExtras
  outerAttributes := Node.outerAttributes_withoutExtras hn.2 fun c hc =>
    hs.comment (earlier_mem_nodes hn.1 hc)
  tupleFields := Node.tupleFields_withoutExtras (hs.commentsOnly hn.1)
  tokenGroups := n.tokenGroups_withoutExtras

theorem stable : Node.Stable s.Significant := fun n y hn _ hy =>
  ⟨s.nodes_closed.stable n y hn.1 _ hy,
    Node.extra_of_compared (hs.commentsOnly hn.1) hn.2
      (fun _ hc => hs.comment (earlier_mem_nodes hn.1 hc)) hy⟩

end ExtrasAreComments

end Source

end ShapeSearch
