import ShapeSearch.Proofs.Soundness

namespace ShapeSearch

def Node.attributedKinds : List String :=
  ["struct_item", "union_item", "const_item", "static_item", "field_declaration",
    "continue_expression", "break_expression", "expression_statement"]

def Node.asksForAttributes (a b : Node) : Bool :=
  Node.attributedKinds.contains a.kind
    || (a.kind == "type_parameter" && b.kind == "type_parameter")
    || (["identifier", "self"].contains a.kind && a.isPathExpression)

theorem attributes_mem_strategy_iff {a b : Node} :
    .attributes ∈ strategy a b ↔ a.asksForAttributes b = true := by
  simp only [strategy, Node.asksForAttributes, Node.attributedKinds]
  split
  all_goals
    repeat' split
    all_goals simp_all

theorem Template.variableFor?_eq_none {t : Template} {text : Text} (h : text.head? = some '#') :
    t.variableFor? text = none := by
  cases text with
  | nil => cases h
  | cons c text =>
      rw [List.head?_cons, Option.some.injEq] at h
      subst h
      rfl

namespace Comparison

variable {P W C σ : Type} {k : Comparison P W C σ} {f : P → P}

theorem pairUp_map (hf : ∀ p, k.one (f p) = k.one p) (offset : Nat) (ws : List W) (ps : List P)
    (cs : List C) : k.pairUp offset ws (ps.map f) cs = k.pairUp offset ws ps cs := by
  induction ps generalizing cs with
  | nil => rfl
  | cons p ps ih => simp only [List.map_cons, pairUp, hf, ih]

theorem anyOrder_map (hf : ∀ p, k.one (f p) = k.one p) (offset : Nat) (es : List (Element P W))
    (cs : List C) : k.anyOrder offset (es.map (.map f)) cs = k.anyOrder offset es cs := by
  simp only [anyOrder, List.isEmpty_map, Element.runs_map, Element.ones_map, pairUp_map hf]

end Comparison

namespace Pattern

open Attempt

variable {p : Pattern} {source : Text} {e : Captures}

/-- The grammar begins every attribute with its mark. -/
def AttributesMarked (p : Pattern) : Prop :=
  ∀ r ∈ p.roots, ∀ x ∈ r.outerAttributes, (x.text p.parsed.text).head? = some '#'

theorem element_of_marked {x : Node} (h : (x.text p.parsed.text).head? = some '#') :
    p.element x = .one x := by
  have hw : (Listed.node? x).bind p.wildcard? = none := by
    simp [Listed.node?, wildcard?, Template.variableFor?_eq_none h]
  rw [element, hw]

theorem exists_perm_of_ask {room : Nat} {r n : Node}
    (hmarked : ∀ x ∈ r.outerAttributes, (x.text p.parsed.text).head? = some '#')
    (hne : r.outerAttributes ≠ [])
    (h : (p.ask source (p.compare source room) r n .attributes).Accepts e) :
    ∃ partners, partners.Perm n.outerAttributes ∧
      List.Forall₂ (fun x y => (p.compare source room x y).Accepts e) r.outerAttributes partners := by
  have hlist := matchInAnyOrder_sound (p.compare_grows source room) h
  have hones : r.outerAttributes.map p.element = r.outerAttributes.map .one :=
    List.map_congr_left fun x hx => element_of_marked (hmarked x hx)
  simp only [ListInAnyOrder] at hlist
  rw [hones] at hlist
  exact hlist.exists_perm hne

theorem exists_perm_outerAttributes {room : Nat} {r n : Node} (hw : p.wildcard? r = none)
    (hasks : r.asksForAttributes n = true)
    (hmarked : ∀ x ∈ r.outerAttributes, (x.text p.parsed.text).head? = some '#')
    (hne : r.outerAttributes ≠ []) (h : (p.compare source (room + 1) r n).Accepts e) :
    ∃ partners, partners.Perm n.outerAttributes ∧
      List.Forall₂ (fun x y => (p.compare source room x y).Accepts e) r.outerAttributes partners :=
  exists_perm_of_ask hmarked hne (accepts_ask hw h (attributes_mem_strategy_iff.mpr hasks))

theorem ask_tokenGroups_before (r n : Node) (bs : List Tree) (cmp : Node → Node → Attempt Captures) :
    p.ask source cmp { r with before := bs } n .tokenGroups = p.ask source cmp r n .tokenGroups := by
  -- a group remembers the token tree around it, but is compared by its tokens alone
  let f : TokenGroup → TokenGroup := fun g => { g with tree := { r with before := bs } }
  have hgroups : Node.tokenGroups { r with before := bs } = r.tokenGroups.map f := by
    simp only [Node.tokenGroups, List.map_map]
    rfl
  have helement (g : TokenGroup) : p.element (f g) = (p.element g).map f := by
    have hnode : Listed.node? (f g) = Listed.node? g := rfl
    simp only [element]
    rw [hnode]
    cases (Listed.node? g).bind p.wildcard? with
    | none => rfl
    | some w => cases hq : w.quantifier.isSingle <;> simp [hq, Element.map]
  simp only [ask, matchInAnyOrder, hgroups, List.map_map]
  have hes : r.tokenGroups.map (p.element ∘ f) = (r.tokenGroups.map p.element).map (.map f) := by
    rw [List.map_map]
    exact List.map_congr_left fun g _ => helement g
  rw [hes]
  have hone (g : TokenGroup) : p.matchTokenGroup source cmp (f g) = p.matchTokenGroup source cmp g :=
    rfl
  exact Comparison.anyOrder_map hone _ _ _

theorem ask_before {r n : Node} {c : Clause} (bs : List Tree) (cmp : Node → Node → Attempt Captures)
    (hc : c ≠ .attributes) (hname : c = .part .pathName → r.isScoped = true) :
    p.ask source cmp { r with before := bs } n c = p.ask source cmp r n c := by
  cases c with
  | attributes => exact absurd rfl hc
  | part q =>
      cases q with
      | pathName =>
          have hscoped := hname rfl
          have h : Node.pathName? { r with before := bs } = r.pathName? := by
            have hscoped' : Node.isScoped { r with before := bs } = true := hscoped
            simp only [Node.pathName?, hscoped, hscoped']
            rfl
          simp only [ask, Part.of, h]
      | field | childOfKind | unfielded | value | firstElement | pathQualifier => rfl
  | tokenGroups => exact ask_tokenGroups_before r n bs cmp
  | _ => rfl

theorem compare_before {r n : Node}
    (h : ¬(p.wildcard? r = none ∧ r.asksForAttributes n = true)) (bs : List Tree) (room : Nat) :
    p.compare source room { r with before := bs } n = p.compare source room r n := by
  have hwildcard : p.wildcard? { r with before := bs } = p.wildcard? r := rfl
  cases room with
  | zero => rfl
  | succ room =>
      cases hw : p.wildcard? r with
      | some w => simp only [compare, hwildcard, hw]
      | none =>
          have hstrategy : strategy { r with before := bs } n = strategy r n := rfl
          simp only [compare, hwildcard, hw, hstrategy]
          congr 1
          apply List.map_congr_left
          intro c hc
          apply ask_before
          · rintro rfl
            exact h ⟨hw, attributes_mem_strategy_iff.mp hc⟩
          · rintro rfl
            exact isScoped_of_pathName_mem hc

/-- A root asks for its attributes, and then all of them find partners, or nothing that stands before
it makes a difference. -/
theorem root_attributes {a : Node} {m : Match} {i : Nat} {r n : Node}
    (h : p.matchAt? source a = some m) (hmarked : p.AttributesMarked) (hr : p.roots[i]? = some r)
    (hn : m.nodes[i]? = some n) :
    (p.wildcard? r = none ∧ r.asksForAttributes n = true → r.outerAttributes ≠ [] →
      ∃ partners, partners.Perm n.outerAttributes ∧
        List.Forall₂
          (fun x y => (p.compare source (p.config.maxDepth - 1) x y).Accepts m.captures)
          r.outerAttributes partners) ∧
    (¬(p.wildcard? r = none ∧ r.asksForAttributes n = true) → ∀ bs,
      p.compare source p.config.maxDepth { r with before := bs } n =
        p.compare source p.config.maxDepth r n) := by
  refine ⟨fun ⟨hw, hasks⟩ hne => ?_, fun hnot bs => compare_before hnot bs _⟩
  obtain ⟨hi, rfl⟩ := List.getElem?_eq_some_iff.mp hr
  obtain ⟨hj, rfl⟩ := List.getElem?_eq_some_iff.mp hn
  have haccepts := (accepts_of_matchAt? h).get hi hj
  simp only [List.get_eq_getElem] at haccepts
  have hroot := hmarked p.roots[i] (List.getElem_mem hi)
  cases hdepth : p.config.maxDepth with
  | zero =>
      rw [hdepth] at haccepts
      simp only [compare, hw] at haccepts
      exact absurd haccepts.test (by simp)
  | succ room =>
      rw [hdepth] at haccepts
      exact exists_perm_outerAttributes hw hasks hroot hne haccepts

def declaration (kind keyword field : String) (start : Nat) : Tree :=
  .node ⟨kind, true, false, false, false, start, name + 2, none⟩
    [.node ⟨keyword, false, false, false, false, start, name - 1, none⟩ [],
      .node ⟨"identifier", true, false, false, false, name, name + 1, some field⟩ [],
      .node ⟨";", false, false, false, false, name + 1, name + 2, none⟩ []]
where
  name := start + keyword.length + 1

def attributeItem : Tree :=
  .node ⟨"attribute_item", true, false, false, false, 0, 4, none⟩
    [.node ⟨"#", false, false, false, false, 0, 1, none⟩ [],
      .node ⟨"[", false, false, false, false, 1, 2, none⟩ [],
      .node ⟨"attribute", true, false, false, false, 2, 3, none⟩
        [.node ⟨"identifier", true, false, false, false, 2, 3, none⟩ []],
      .node ⟨"]", false, false, false, false, 3, 4, none⟩ []]

def declarations (kind keyword field : String) : Grammar := fun t =>
  .node ⟨"source_file", true, false, false, false, 0, t.bytes, none⟩
    (if t.head? = some '#' then [attributeItem, declaration kind keyword field 5]
      else [declaration kind keyword field 0])

instance (p : Pattern) : Decidable p.AttributesMarked :=
  inferInstanceAs (Decidable (∀ r ∈ p.roots, ∀ x ∈ r.outerAttributes, _ = _))

def structures : Source :=
  .ofText (declarations "struct_item" "struct" "name") "#[a] struct b;".toList

theorem root_attributes_of_struct : ∃ p a m r n,
    compile (declarations "struct_item" "struct" "name") .default "#[a] struct b;".toList = .ok p ∧
    p.matchAt? structures.text a = some m ∧ p.AttributesMarked ∧ p.roots[0]? = some r ∧
    m.nodes[0]? = some n ∧ p.wildcard? r = none ∧ r.asksForAttributes n = true ∧
    r.outerAttributes ≠ [] ∧
    ∃ partners, partners.Perm n.outerAttributes ∧
      List.Forall₂
        (fun x y =>
          (p.compare structures.text (p.config.maxDepth - 1) x y).Accepts m.captures)
        r.outerAttributes partners := by
  have h : ((compile (declarations "struct_item" "struct" "name") .default
      "#[a] struct b;".toList).toOption.bind fun p =>
      structures.root.items.head?.bind fun a => (p.matchAt? structures.text a).bind fun m =>
        p.roots[0]?.bind fun r => m.nodes[0]?.map fun n =>
          decide p.AttributesMarked && (p.wildcard? r).isNone && r.asksForAttributes n &&
            !r.outerAttributes.isEmpty) = some true := by
    decide +kernel
  simp only [Option.bind_eq_some_iff, Option.map_eq_some_iff, Bool.and_eq_true, decide_eq_true_eq,
    Option.isNone_iff_eq_none, Bool.not_eq_true', List.isEmpty_eq_false_iff] at h
  obtain ⟨p, hp, a, -, m, hm, r, hr, n, hn, ⟨⟨hmarked, hw⟩, hasks⟩, hne⟩ := h
  exact ⟨p, a, m, r, n, ok_of_toOption hp, hm, hmarked, hr, hn, hw, hasks, hne,
    (root_attributes hm hmarked hr hn).1 ⟨hw, hasks⟩ hne⟩

def imports : Source :=
  .ofText (declarations "use_declaration" "use" "argument") "use b;".toList

theorem root_attributes_ignored_of_use : ∃ p a m r n,
    compile (declarations "use_declaration" "use" "argument") .default "#[a] use b;".toList = .ok p ∧
    p.matchAt? imports.text a = some m ∧ p.roots[0]? = some r ∧ m.nodes[0]? = some n ∧
    r.outerAttributes ≠ [] ∧
    ¬∃ partners, partners.Perm n.outerAttributes ∧
      List.Forall₂
        (fun x y => (p.compare imports.text (p.config.maxDepth - 1) x y).Accepts m.captures)
        r.outerAttributes partners := by
  have h : ((compile (declarations "use_declaration" "use" "argument") .default
      "#[a] use b;".toList).toOption.bind fun p =>
      imports.root.items.head?.bind fun a => (p.matchAt? imports.text a).bind fun m =>
        p.roots[0]?.bind fun r => m.nodes[0]?.map fun n =>
          r.outerAttributes.length == 1 && n.outerAttributes.length == 0) = some true := by
    decide +kernel
  simp only [Option.bind_eq_some_iff, Option.map_eq_some_iff, Bool.and_eq_true, beq_iff_eq] at h
  obtain ⟨p, hp, a, -, m, hm, r, hr, n, hn, hone, hnone⟩ := h
  refine ⟨p, a, m, r, n, ok_of_toOption hp, hm, hr, hn, List.ne_nil_of_length_eq_add_one hone, ?_⟩
  rintro ⟨partners, hperm, hpairs⟩
  have hlength := hpairs.length_eq
  rw [hperm.length_eq] at hlength
  omega

end Pattern

end ShapeSearch
