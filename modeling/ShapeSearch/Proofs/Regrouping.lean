import Mathlib.Data.List.DropRight
import ShapeSearch.Proofs.Extras

namespace ShapeSearch.Node

def attributesAtEnd (above : List String) (after before : List Tree) : List Node :=
  (((rowBack above after before).filter (·.label.named)).takeWhile fun s =>
    s.isAttributeItem || s.label.extra).filter (·.isAttributeItem) |>.reverse

theorem outerAttributes_eq (n : Node) :
    n.outerAttributes = attributesAtEnd n.above (n.tree :: n.after) n.before :=
  rfl

section AttributesAtEnd

variable {above : List String} {after before : List Tree} {t : Tree}

theorem attributesAtEnd_cons (h : t.label.isProper = true) :
    attributesAtEnd above after (t :: before) =
      if isAttributeItem ⟨t, before, after, above⟩ then
        attributesAtEnd above (t :: after) before ++ [⟨t, before, after, above⟩]
      else [] := by
  obtain ⟨hnamed, hextra⟩ := Bool.and_eq_true_iff.mp h
  rw [Bool.not_eq_true'] at hextra
  simp only [attributesAtEnd, rowBack, label, List.filter_cons, hnamed, if_true,
    List.takeWhile_cons, hextra, Bool.or_false]
  split
  next hattribute => simp only [List.filter_cons, hattribute, if_true, List.reverse_cons]
  next => rfl

theorem attributesAtEnd_skip (h : t.label.isProper = false)
    (hextra : t.label.extra = true → isAttributeItem ⟨t, before, after, above⟩ = false) :
    attributesAtEnd above after (t :: before) = attributesAtEnd above (t :: after) before := by
  cases hnamed : t.label.named with
  | false => simp only [attributesAtEnd, rowBack, label, List.filter_cons, hnamed,
      Bool.false_eq_true, if_false]
  | true =>
      have hcomment : t.label.extra = true := by
        simpa [Label.isProper, hnamed] using h
      simp only [attributesAtEnd, rowBack, label, List.filter_cons, hnamed, if_true,
        List.takeWhile_cons, hcomment, Bool.or_true, hextra hcomment, Bool.false_eq_true, if_false]

end AttributesAtEnd

theorem decoratesSibling_eq (n : Node) : n.decoratesSibling = n.after.any (·.label.isProper) := by
  have hany : n.later.any (·.label.isProper) = (n.later.map (·.tree)).any (·.label.isProper) := by
    rw [List.any_map]
    rfl
  rw [decoratesSibling, hany, later, map_tree_row]

theorem flatMap_items_row (above : List String) (before ts : List Tree)
    (h : ∀ c ∈ row above before ts, c.label.extra = true → c.isAttributeItem = false) :
    (((row above before ts).filter (·.label.isProper)).filter fun c =>
        !(c.isAttributeItem && c.decoratesSibling)).flatMap (fun c => c.outerAttributes ++ [c]) =
      (if ts.any (·.label.isProper) then attributesAtEnd above ts before else []) ++
        (row above before ts).filter (·.label.isProper) := by
  induction ts generalizing before with
  | nil => rfl
  | cons t ts ih =>
      have hrest := ih (t :: before) fun c hc => h c (List.mem_cons_of_mem _ hc)
      have hself := h ⟨t, before, ts, above⟩ List.mem_cons_self
      have hfilter : (row above before (t :: ts)).filter (·.label.isProper) =
          if t.label.isProper then
            ⟨t, before, ts, above⟩ :: (row above (t :: before) ts).filter (·.label.isProper)
          else (row above (t :: before) ts).filter (·.label.isProper) := List.filter_cons
      rw [hfilter, List.any_cons]
      cases hproper : t.label.isProper with
      | false =>
          rw [if_neg Bool.false_ne_true, hrest, Bool.false_or, attributesAtEnd_skip hproper hself]
      | true =>
          rw [attributesAtEnd_cons hproper] at hrest
          rw [if_pos rfl, Bool.true_or, if_pos rfl, List.filter_cons, decoratesSibling_eq]
          cases hattribute : isAttributeItem ⟨t, before, ts, above⟩ with
          | false =>
              -- the walk back from a later item ends here
              rw [hattribute, if_neg Bool.false_ne_true, ite_self, List.nil_append] at hrest
              rw [Bool.false_and, Bool.not_false, if_pos rfl, List.flatMap_cons, hrest,
                List.append_assoc, List.singleton_append, outerAttributes_eq]
          | true =>
              rw [hattribute, if_pos rfl] at hrest
              cases hlater : ts.any (·.label.isProper) with
              | true =>
                  rw [hlater, if_pos rfl, List.append_assoc] at hrest
                  exact hrest
              | false =>
                  rw [hlater, if_neg Bool.false_ne_true, List.nil_append] at hrest
                  rw [Bool.and_false, Bool.not_false, if_pos rfl, List.flatMap_cons, hrest,
                    List.append_assoc, List.singleton_append, outerAttributes_eq]

theorem nodup_row (above : List String) (before ts : List Tree) : (row above before ts).Nodup := by
  induction ts generalizing before with
  | nil => exact List.nodup_nil
  | cons t ts ih =>
      refine List.nodup_cons.mpr ⟨fun hmem => ?_, ih (t :: before)⟩
      obtain ⟨us, -, hbefore, -⟩ := mem_row_iff.mp hmem
      have hlength := congrArg List.length hbefore
      simp only [List.length_append, List.length_cons] at hlength
      omega

theorem nodup_children (n : Node) : n.children.Nodup :=
  nodup_row _ _ _

/-- Each item behind the attributes in front of it: together they are the named children that are no
comments, in source order, each once. -/
theorem items_with_attributes (n : Node)
    (h : ∀ c ∈ n.children, c.label.extra = true → c.isAttributeItem = false) :
    (n.items.flatMap fun c => c.outerAttributes ++ [c]) = n.properChildren ∧
      n.properChildren.Nodup := by
  have hrow := flatMap_items_row (n.kind :: n.above) [] n.tree.children h
  have hnone : attributesAtEnd (n.kind :: n.above) n.tree.children [] = [] := rfl
  rw [hnone, ite_self, List.nil_append] at hrow
  exact ⟨hrow, n.nodup_children.filter _⟩

/-- The file `#[a] /*b*/ #[c] struct S; #[d] #[e]`. -/
def decorated : Node where
  tree := .named "source_file" none 0 35 [decoration 0, .comment 5 10, decoration 11,
    .named "struct_item" none 16 25 [.token "struct" 16 22,
      .named "type_identifier" (some "name") 23 24 [], .token ";" 24 25],
    decoration 26, decoration 31]
  before := []
  after := []
  above := []
where
  decoration (start : Nat) : Tree :=
    .named "attribute_item" none start (start + 4) [.token "#" start (start + 1),
      .token "[" (start + 1) (start + 2),
      .named "attribute" none (start + 2) (start + 3)
        [.named "identifier" none (start + 2) (start + 3) []],
      .token "]" (start + 3) (start + 4)]

/-- Of the attributes at the end, the last is the item. -/
theorem items_with_attributes_of_decorated :
    (∀ c ∈ decorated.children, c.label.extra = true → c.isAttributeItem = false) ∧
      decorated.items.map (fun c => (c.kind, c.outerAttributes.map (·.start))) =
        [("struct_item", [0, 11]), ("attribute_item", [26])] ∧
      (decorated.items.flatMap fun c => c.outerAttributes ++ [c]) = decorated.properChildren ∧
        decorated.properChildren.Nodup := by
  have h : ∀ c ∈ decorated.children, c.label.extra = true → c.isAttributeItem = false := by decide
  exact ⟨h, by decide, items_with_attributes decorated h⟩

section Commas

variable {ns : List Node}

theorem flatten_splitAtCommas (group ns : List Node) :
    (splitAtCommas group ns).flatten = group ++ ns.filter (!·.isComma) := by
  induction ns generalizing group with
  | nil =>
      rw [splitAtCommas]
      split
      next hempty => rw [List.isEmpty_iff.mp hempty]; rfl
      next => rw [List.flatten_singleton, List.filter_nil, List.append_nil]
  | cons n ns ih =>
      rw [splitAtCommas, List.filter_cons]
      cases hcomma : n.isComma with
      | true =>
          rw [if_pos rfl, List.flatten_cons, ih, List.nil_append]
          rfl
      | false =>
          rw [if_neg Bool.false_ne_true, ih, List.append_assoc]
          rfl

theorem length_splitAtCommas (group ns : List Node) :
    (splitAtCommas group ns).length = ns.countP (·.isComma) +
      if ns.getLast?.elim (!group.isEmpty) (!·.isComma) then 1 else 0 := by
  induction ns generalizing group with
  | nil =>
      rw [splitAtCommas, List.countP_nil]
      cases group <;> rfl
  | cons n ns ih =>
      rw [splitAtCommas, List.countP_cons, List.getLast?_cons]
      cases hcomma : n.isComma with
      | true =>
          rw [if_pos rfl, List.length_cons, ih, if_pos rfl, Nat.add_right_comm]
          cases hlast : ns.getLast? <;> simp [hcomma]
      | false =>
          rw [if_neg Bool.false_ne_true, ih, if_neg Bool.false_ne_true, Nat.add_zero]
          cases hlast : ns.getLast? <;> simp [hcomma]

theorem splitAtCommas_concat {c : Node} (hc : c.isComma = true) (group : List Node)
    (h : ns.getLast?.elim (!group.isEmpty) (!·.isComma) = true) :
    splitAtCommas group (ns ++ [c]) = splitAtCommas group ns := by
  induction ns generalizing group with
  | nil =>
      have hgroup : group.isEmpty = false := by simpa using h
      simp [splitAtCommas, hc, hgroup]
  | cons n ns ih =>
      rw [List.getLast?_cons] at h
      rw [List.cons_append, splitAtCommas, splitAtCommas]
      cases hn : n.isComma with
      | true =>
          rw [if_pos rfl, if_pos rfl, ih []]
          cases hlast : ns.getLast? <;> simp_all
      | false =>
          rw [if_neg Bool.false_ne_true, if_neg Bool.false_ne_true, ih]
          cases hlast : ns.getLast? <;> simp_all

end Commas

/-- A node as if there were nothing around it. -/
def uprooted (n : Node) : Node :=
  ⟨n.tree, [], [], []⟩

theorem guise_uprooted : Guise uprooted where
  kind _ := rfl
  named _ := rfl
  extra _ := rfl
  field _ := rfl

theorem trees_splitAtCommas {ns ms : List Node} (h : ns.map (·.tree) = ms.map (·.tree)) :
    (splitAtCommas [] ns).map (·.map (·.tree)) = (splitAtCommas [] ms).map (·.map (·.tree)) := by
  have huprooted : ns.map uprooted = ms.map uprooted := by
    have hmap := congrArg (List.map fun t => (⟨t, [], [], []⟩ : Node)) h
    rwa [List.map_map, List.map_map] at hmap
  have hsplit (xs : List Node) : (splitAtCommas [] xs).map (·.map (·.tree)) =
      (splitAtCommas [] (xs.map uprooted)).map (·.map (·.tree)) := by
    have hxs := splitAtCommas_map guise_uprooted [] xs
    rw [List.map_nil] at hxs
    rw [hxs, List.map_map]
    refine List.map_congr_left fun g _ => ?_
    rw [Function.comp_apply, List.map_map]
    rfl
  rw [hsplit ns, hsplit ms, huprooted]

/-- What a token tree holds besides comments: all between its delimiters, or all there is where one of
them is missing. -/
inductive Holds (n : Node) (inner : List Node) : Prop
  | delimited {first last : Node} (hfirst : first.isDelimiter = true)
      (hlast : last.isDelimiter = true)
      (h : n.children.filter (!·.label.extra) = first :: (inner ++ [last]))
  | bare (h : n.children.filter (!·.label.extra) = inner)
      (hbare : ∀ first mid last, inner = first :: (mid ++ [last]) →
        first.isDelimiter = true → last.isDelimiter = false)

theorem undelimited_concat (first last : Node) (mid : List Node) :
    undelimited (first :: (mid ++ [last])) =
      if first.isDelimiter && last.isDelimiter then mid else first :: (mid ++ [last]) := by
  cases mid with
  | nil => rfl
  | cons second rest =>
      have hlast : (second :: (rest ++ [last])).getLast (by simp) = last := by simp
      have hmid : (second :: (rest ++ [last])).dropLast = second :: rest := by
        rw [← List.cons_append, List.dropLast_concat]
      rw [List.cons_append, undelimited, hlast, hmid]

theorem undelimited_of_bare {ns : List Node} (h : ∀ first mid last, ns = first :: (mid ++ [last]) →
    first.isDelimiter = true → last.isDelimiter = false) : undelimited ns = ns := by
  cases ns with
  | nil => rfl
  | cons first rest =>
      rcases List.eq_nil_or_concat rest with rfl | ⟨mid, last, rfl⟩
      · rfl
      · rw [List.concat_eq_append] at h ⊢
        rw [undelimited_concat]
        cases hfirst : first.isDelimiter with
        | true => rw [h first mid last rfl hfirst]; rfl
        | false => rfl

theorem holds_iff {n : Node} {inner : List Node} :
    n.Holds inner ↔ undelimited (n.children.filter (!·.label.extra)) = inner := by
  constructor
  · rintro (⟨hfirst, hlast, h⟩ | ⟨h, hbare⟩)
    · rw [h, undelimited_concat, hfirst, hlast]
      rfl
    · rw [h, undelimited_of_bare hbare]
  · rintro rfl
    by_cases hends : ∃ first mid last, n.children.filter (!·.label.extra) = first :: (mid ++ [last]) ∧
        first.isDelimiter = true ∧ last.isDelimiter = true
    · obtain ⟨first, mid, last, h, hfirst, hlast⟩ := hends
      rw [h, undelimited_concat, hfirst, hlast]
      exact .delimited hfirst hlast h
    · have hbare : ∀ first mid last, n.children.filter (!·.label.extra) = first :: (mid ++ [last]) →
          first.isDelimiter = true → last.isDelimiter = false := by
        intro first mid last h hfirst
        rw [← Bool.not_eq_true]
        exact fun hlast => hends ⟨first, mid, last, h, hfirst, hlast⟩
      rw [undelimited_of_bare hbare]
      exact .bare rfl hbare

section Fields

variable {n : Node} {front rest : List Node} {t : Node}

def isTyped (n : Node) : Bool :=
  n.label.field == some "type"

def isVisibility (n : Node) : Bool :=
  n.kind == "visibility_modifier"

def isFieldPart (n : Node) : Bool :=
  n.isTyped || n.isAttributeItem || n.isVisibility

theorem isVisibility_of_isAttributeItem (h : n.isAttributeItem = true) : n.isVisibility = false := by
  simp only [isAttributeItem, beq_iff_eq] at h
  simp [isVisibility, h]

/-- A list without types, or what stands in front of its first type, that type, and the rest. -/
theorem fieldInduct {motive : List Node → Prop}
    (untyped : ∀ ns, (∀ c ∈ ns, c.isTyped = false) → motive ns)
    (field : ∀ front t rest, (∀ c ∈ front, c.isTyped = false) → t.isTyped = true → motive rest →
      motive (front ++ t :: rest)) (ns : List Node) : motive ns := by
  suffices h : ∀ front, (∀ c ∈ front, c.isTyped = false) → motive (front ++ ns) from h [] (by simp)
  induction ns with
  | nil =>
      intro front hfront
      rw [List.append_nil]
      exact untyped front hfront
  | cons c ns ih =>
      intro front hfront
      cases hc : c.isTyped with
      | true => exact field front c ns hfront hc (ih [] (by simp))
      | false =>
          have hmore : ∀ d ∈ front ++ [c], d.isTyped = false := by
            simpa [or_imp, forall_and, hc] using hfront
          simpa using ih (front ++ [c]) hmore

/-- What stands in front of a type, behind the type before it. -/
def LeadsIn (ns front : List Node) : Prop :=
  ∃ before t after, ns = before ++ t :: after ∧ t.isTyped = true ∧
    front = before.rtakeWhile (!·.isTyped)

theorem leadsIn_self (hfront : ∀ c ∈ front, c.isTyped = false) (ht : t.isTyped = true) :
    LeadsIn (front ++ t :: rest) front := by
  refine ⟨front, t, rest, rfl, ht, (List.rtakeWhile_eq_self_iff.mpr fun c hc => ?_).symm⟩
  rw [hfront c hc]
  rfl

theorem LeadsIn.behind {ns : List Node} (ht : t.isTyped = true) (h : LeadsIn rest ns) :
    LeadsIn (front ++ t :: rest) ns := by
  obtain ⟨before, u, after, rfl, hu, rfl⟩ := h
  refine ⟨front ++ t :: before, u, after, by simp, hu, ?_⟩
  induction before using List.reverseRecOn with
  | nil =>
      rw [List.rtakeWhile_concat_neg]
      · rfl
      · simp [ht]
  | append_singleton before c ih =>
      rw [List.rtakeWhile_concat, ← List.cons_append, ← List.append_assoc, List.rtakeWhile_concat, ih]

theorem rdropWhile_field (ht : t.isTyped = true) :
    (front ++ t :: rest).rdropWhile (!·.isTyped) = front ++ t :: rest.rdropWhile (!·.isTyped) := by
  induction rest using List.reverseRecOn with
  | nil =>
      rw [List.rdropWhile_concat_neg]
      · rfl
      · simp [ht]
  | append_singleton rest c ih =>
      rw [List.rdropWhile_concat, ← List.cons_append, ← List.append_assoc, List.rdropWhile_concat, ih]
      split
      · rfl
      · rw [List.append_assoc, List.cons_append]

theorem forall_leadsIn_iff {ns : List Node} {P : List Node → Prop} :
    (∀ front, LeadsIn ns front → P front) ↔ ∀ i, (h : i < ns.length) → ns[i].isTyped = true →
      P ((ns.take i).rtakeWhile (!·.isTyped)) := by
  constructor
  · intro hP i hi ht
    refine hP _ ⟨ns.take i, ns[i], ns.drop (i + 1), ?_, ht, rfl⟩
    rw [← List.drop_eq_getElem_cons hi, List.take_append_drop]
  · rintro hP front ⟨before, t, after, rfl, ht, rfl⟩
    have hat := hP before.length (by simp) (by simpa using ht)
    rwa [List.take_left'] at hat
    rfl

theorem filter_isFieldPart_eq (hfront : ∀ c ∈ front, c.isTyped = false)
    (horder : front.Pairwise fun a b => a.isVisibility = true → b.isAttributeItem = false) :
    front.filter (·.isFieldPart) =
      front.filter (·.isAttributeItem) ++ front.filter (·.isVisibility) := by
  induction front with
  | nil => rfl
  | cons c front ih =>
      obtain ⟨hc, hfront⟩ := List.forall_mem_cons.mp hfront
      obtain ⟨hbehind, horder⟩ := List.pairwise_cons.mp horder
      have hrest := ih hfront horder
      rw [List.filter_cons, List.filter_cons, List.filter_cons, hrest, isFieldPart, hc]
      cases hattribute : c.isAttributeItem with
      | true => simp [isVisibility_of_isAttributeItem hattribute]
      | false =>
          cases hvisibility : c.isVisibility with
          | true =>
              have hnone : front.filter (·.isAttributeItem) = [] :=
                List.filter_eq_nil_iff.mpr fun b hb => by simp [hbehind b hb hvisibility]
              simp [hnone]
          | false => simp

theorem filter_isFieldPart_perm (hfront : ∀ c ∈ front, c.isTyped = false) :
    (front.filter (·.isAttributeItem) ++ front.filter (·.isVisibility)).Perm
      (front.filter (·.isFieldPart)) := by
  have hperm := List.filter_append_perm (·.isAttributeItem) (front.filter (·.isFieldPart))
  rw [List.filter_filter, List.filter_filter] at hperm
  have hattributes : front.filter (fun c => c.isAttributeItem && c.isFieldPart) =
      front.filter (·.isAttributeItem) :=
    List.filter_congr fun c _ => by cases h : c.isAttributeItem <;> simp [isFieldPart, h]
  have hvisibilities : front.filter (fun c => !c.isAttributeItem && c.isFieldPart) =
      front.filter (·.isVisibility) := by
    refine List.filter_congr fun c hc => ?_
    cases h : c.isAttributeItem with
    | true => simp [isVisibility_of_isAttributeItem h]
    | false => simp [isFieldPart, h, hfront c hc]
  rwa [hattributes, hvisibilities] at hperm

end Fields

end ShapeSearch.Node

namespace ShapeSearch.TupleField

open Node

variable {front rest : List Node} {t : Node}

theorem gather_cons (attributes : List Node) (visibility : Option Node) (n : Node) (ns : List Node) :
    gather attributes visibility (n :: ns) =
      if n.isTyped then ⟨attributes, visibility, n⟩ :: gather [] none ns
      else if n.isAttributeItem then gather (attributes ++ [n]) visibility ns
      else if n.isVisibility then gather attributes (some n) ns
      else gather attributes visibility ns :=
  rfl

theorem gather_untyped {ns : List Node} (h : ∀ c ∈ ns, c.isTyped = false) (attributes : List Node)
    (visibility : Option Node) : gather attributes visibility ns = [] := by
  induction ns generalizing attributes visibility with
  | nil => rfl
  | cons n ns ih =>
      obtain ⟨hn, hns⟩ := List.forall_mem_cons.mp h
      rw [gather_cons, hn, if_neg Bool.false_ne_true]
      split
      · exact ih hns _ _
      · split
        · exact ih hns _ _
        · exact ih hns _ _

theorem gather_field (hfront : ∀ c ∈ front, c.isTyped = false) (ht : t.isTyped = true)
    (attributes : List Node) (visibility : Option Node) :
    gather attributes visibility (front ++ t :: rest) =
      ⟨attributes ++ front.filter (·.isAttributeItem),
        (front.filter (·.isVisibility)).getLast?.or visibility, t⟩ :: gather [] none rest := by
  induction front generalizing attributes visibility with
  | nil =>
      rw [List.nil_append, gather_cons, if_pos ht, List.filter_nil, List.append_nil]
      rfl
  | cons n front ih =>
      obtain ⟨hn, hfront⟩ := List.forall_mem_cons.mp hfront
      rw [List.cons_append, gather_cons, hn, if_neg Bool.false_ne_true, List.filter_cons,
        List.filter_cons]
      cases hattribute : n.isAttributeItem with
      | true =>
          rw [if_pos rfl, ih hfront, isVisibility_of_isAttributeItem hattribute, if_pos rfl,
            if_neg Bool.false_ne_true, List.append_assoc]
          rfl
      | false =>
          rw [if_neg Bool.false_ne_true, if_neg Bool.false_ne_true]
          cases hvisibility : n.isVisibility with
          | true =>
              rw [if_pos rfl, ih hfront, if_pos rfl, List.getLast?_cons]
              cases (front.filter (·.isVisibility)).getLast? <;> rfl
          | false => rw [if_neg Bool.false_ne_true, ih hfront, if_neg Bool.false_ne_true]

theorem map_type_gather (ns : List Node) :
    (gather [] none ns).map (·.type) = ns.filter (·.isTyped) := by
  induction ns using fieldInduct with
  | untyped ns h =>
      rw [gather_untyped h, List.filter_eq_nil_iff.mpr (by simpa using h)]
      rfl
  | field front t rest hfront ht ih =>
      have hnone : front.filter (·.isTyped) = [] :=
        List.filter_eq_nil_iff.mpr (by simpa using hfront)
      rw [gather_field hfront ht, List.map_cons, ih, List.filter_append, hnone,
        List.filter_cons_of_pos (by exact ht)]
      rfl

theorem toList_getLast? {ns : List Node} (h : ns.length ≤ 1) : ns.getLast?.toList = ns := by
  match ns, h with
  | [], _ | [_], _ => rfl

theorem flatMap_nodes_field (hfront : ∀ c ∈ front, c.isTyped = false) (ht : t.isTyped = true)
    (hsingle : front.countP (·.isVisibility) ≤ 1) :
    (gather [] none (front ++ t :: rest)).flatMap nodes =
      (front.filter (·.isAttributeItem) ++ front.filter (·.isVisibility)) ++
        t :: (gather [] none rest).flatMap nodes := by
  rw [List.countP_eq_length_filter] at hsingle
  rw [gather_field hfront ht, List.flatMap_cons, nodes, Option.or_none, toList_getLast? hsingle,
    List.nil_append]
  simp only [List.append_assoc, List.cons_append, List.nil_append]

theorem filter_isFieldPart_field (ht : t.isTyped = true) :
    ((front ++ t :: rest).rdropWhile (!·.isTyped)).filter (·.isFieldPart) =
      front.filter (·.isFieldPart) ++
        t :: (rest.rdropWhile (!·.isTyped)).filter (·.isFieldPart) := by
  have hpart : t.isFieldPart = true := by simp [isFieldPart, ht]
  rw [rdropWhile_field ht, List.filter_append, List.filter_cons_of_pos (by exact hpart)]

theorem flatMap_nodes_untyped {ns : List Node} (h : ∀ c ∈ ns, c.isTyped = false) :
    (gather [] none ns).flatMap nodes =
      (ns.rdropWhile (!·.isTyped)).filter (·.isFieldPart) := by
  have hnone : ns.rdropWhile (!·.isTyped) = [] := by
    rw [List.rdropWhile_eq_nil_iff]
    intro c hc
    rw [h c hc]
    rfl
  rw [gather_untyped h, hnone]
  rfl

theorem flatMap_nodes_perm (ns : List Node)
    (hsingle : ∀ front, LeadsIn ns front → front.countP (·.isVisibility) ≤ 1) :
    ((gather [] none ns).flatMap nodes).Perm
      ((ns.rdropWhile (!·.isTyped)).filter (·.isFieldPart)) := by
  induction ns using fieldInduct with
  | untyped ns h => rw [flatMap_nodes_untyped h]
  | field front t rest hfront ht ih =>
      have hrest := ih fun ns hns => hsingle ns (hns.behind ht)
      rw [flatMap_nodes_field hfront ht (hsingle front (leadsIn_self hfront ht)),
        filter_isFieldPart_field ht]
      exact (filter_isFieldPart_perm hfront).append (hrest.cons t)

theorem flatMap_nodes_eq (ns : List Node)
    (hsingle : ∀ front, LeadsIn ns front → front.countP (·.isVisibility) ≤ 1)
    (horder : ∀ front, LeadsIn ns front →
      front.Pairwise fun a b => a.isVisibility = true → b.isAttributeItem = false) :
    (gather [] none ns).flatMap nodes =
      (ns.rdropWhile (!·.isTyped)).filter (·.isFieldPart) := by
  induction ns using fieldInduct with
  | untyped ns h => exact flatMap_nodes_untyped h
  | field front t rest hfront ht ih =>
      have hself : LeadsIn (front ++ t :: rest) front := leadsIn_self hfront ht
      have hrest := ih (fun ns hns => hsingle ns (hns.behind ht))
        fun ns hns => horder ns (hns.behind ht)
      rw [flatMap_nodes_field hfront ht (hsingle front hself), filter_isFieldPart_field ht,
        filter_isFieldPart_eq hfront (horder front hself), hrest]

end ShapeSearch.TupleField

namespace ShapeSearch.Node

/-- The groups of a token tree hold what it holds besides commas, in order, each once. Each comma ends
a group, and what stands behind the last comma is a group if there is something, so that a comma
behind the last token makes no difference. A list of fields has one field for each type, in order.
Where no more than one visibility stands in front of a type, the fields hold all attributes,
visibilities and types up to the last type, each once, and in order where the attributes stand in
front of the visibility. -/
theorem regrouping_loses_nothing :
    (∀ n : Node, n.children.Nodup) ∧
    (∀ n : Node, ∃ inner, n.Holds inner ∧
      n.tokenGroups.flatMap (·.tokens) = inner.filter (!·.isComma) ∧
      n.tokenGroups.length =
        inner.countP (·.isComma) + if inner.getLast?.all (·.isComma) then 0 else 1) ∧
    (∀ (n n' last comma : Node) (inner inner' : List Node), n.Holds inner → n'.Holds inner' →
      inner.getLast? = some last → last.isComma = false → comma.isComma = true →
      inner'.map (·.tree) = inner.map (·.tree) ++ [comma.tree] →
      n'.tokenGroups.map (·.tokens.map (·.tree)) = n.tokenGroups.map (·.tokens.map (·.tree))) ∧
    ∀ n : Node,
      n.tupleFields.map (·.type) = n.children.filter (·.isTyped) ∧
      ((∀ front, LeadsIn n.children front → front.countP (·.isVisibility) ≤ 1) →
        (n.tupleFields.flatMap TupleField.nodes).Perm
          ((n.children.rdropWhile (!·.isTyped)).filter (·.isFieldPart)) ∧
        ((∀ front, LeadsIn n.children front →
            front.Pairwise fun a b => a.isVisibility = true → b.isAttributeItem = false) →
          n.tupleFields.flatMap TupleField.nodes =
            (n.children.rdropWhile (!·.isTyped)).filter (·.isFieldPart))) := by
  refine ⟨nodup_children, fun n => ?_, ?_, fun n => ⟨TupleField.map_type_gather _, fun hsingle => ?_⟩⟩
  · refine ⟨_, holds_iff.mpr rfl, ?_, ?_⟩
    · rw [tokenGroups, List.flatMap_map]
      exact List.flatMap_id'.trans (flatten_splitAtCommas [] _)
    · rw [tokenGroups, List.length_map, length_splitAtCommas]
      generalize undelimited (n.children.filter (!·.label.extra)) = inner
      cases hlast : inner.getLast? with
      | none => rfl
      | some last => cases hcomma : last.isComma <;> simp [hcomma]
  · intro n n' last comma inner inner' hn hn' hlast htoken hcomma htrees
    have hgroups (m : Node) : m.tokenGroups.map (·.tokens.map (·.tree)) =
        (splitAtCommas [] (undelimited (m.children.filter (!·.label.extra)))).map
          (·.map (·.tree)) := by
      rw [tokenGroups, List.map_map]
      rfl
    have htrees' : inner'.map (·.tree) = (inner ++ [comma]).map (·.tree) := by
      rw [htrees, List.map_append]
      rfl
    rw [hgroups, hgroups, holds_iff.mp hn, holds_iff.mp hn', trees_splitAtCommas htrees',
      splitAtCommas_concat hcomma]
    simp [hlast, htoken]
  · exact ⟨TupleField.flatMap_nodes_perm _ hsingle, TupleField.flatMap_nodes_eq _ hsingle⟩

/-- The token trees `(a, b = 1)` and `(a, b = 1,)`. -/
def arguments (trailing : Bool) : Node where
  tree := .named "token_tree" none 0 (if trailing then 11 else 10)
    (.token "(" 0 1 :: item "identifier" 1 2 :: .token "," 2 3 :: item "identifier" 4 5 ::
      .token "=" 6 7 :: item "integer_literal" 8 9 ::
      if trailing then [.token "," 9 10, .token ")" 10 11] else [.token ")" 9 10])
  before := []
  after := []
  above := []
where
  item (kind : String) (start stop : Nat) : Tree :=
    .named kind none start stop []

/-- The fields `(#[x] pub A, B)`. -/
def decoratedFields : Node where
  tree := .named "ordered_field_declaration_list" none 0 15 [.token "(" 0 1,
    .named "attribute_item" none 1 5 [.token "#" 1 2, .token "[" 2 3,
      .named "attribute" none 3 4 [.named "identifier" none 3 4 []], .token "]" 4 5],
    .named "visibility_modifier" none 6 9 [.token "pub" 6 9],
    .named "type_identifier" (some "type") 10 11 [], .token "," 11 12,
    .named "type_identifier" (some "type") 13 14 [], .token ")" 14 15]
  before := []
  after := []
  above := []

theorem regrouping_loses_nothing_of_arguments :
    ((arguments true).tokenGroups.map (·.tokens.map (·.tree)) =
        (arguments false).tokenGroups.map (·.tokens.map (·.tree)) ∧
      (arguments false).tokenGroups.map (·.tokens.length) = [1, 3]) ∧
    (∀ front, LeadsIn decoratedFields.children front → front.countP (·.isVisibility) ≤ 1) ∧
    (∀ front, LeadsIn decoratedFields.children front →
      front.Pairwise fun a b => a.isVisibility = true → b.isAttributeItem = false) ∧
    decoratedFields.tupleFields.flatMap TupleField.nodes =
      (decoratedFields.children.rdropWhile (!·.isTyped)).filter (·.isFieldPart) := by
  obtain ⟨-, -, hcommas, hfields⟩ := regrouping_loses_nothing
  have hsingle : ∀ front, LeadsIn decoratedFields.children front →
      front.countP (·.isVisibility) ≤ 1 := forall_leadsIn_iff.mpr (by decide)
  have horder : ∀ front, LeadsIn decoratedFields.children front →
      front.Pairwise fun a b => a.isVisibility = true → b.isAttributeItem = false :=
    forall_leadsIn_iff.mpr (by decide)
  refine ⟨⟨?_, by decide⟩, hsingle, horder, ((hfields decoratedFields).2 hsingle).2 horder⟩
  exact hcommas (arguments false) (arguments true) _ _ _ _ (holds_iff.mpr rfl) (holds_iff.mpr rfl)
    rfl rfl rfl rfl

end ShapeSearch.Node
