import ShapeSearch.Proofs.Depth

namespace ShapeSearch

namespace Attempt

variable {σ : Type}

@[simp] theorem andThen_succeed (b : Attempt σ) : andThen succeed b = b := rfl

@[simp] theorem firstOf_succeed (as : List (Attempt σ)) : firstOf (succeed :: as) = succeed := rfl

@[simp] theorem test_true : (test true : Attempt σ) = succeed := rfl

theorem all_eq_succeed {as : List (Attempt σ)} (h : ∀ a ∈ as, a = succeed) : all as = succeed := by
  induction as with
  | nil => rfl
  | cons a as ih =>
      rw [all, h a List.mem_cons_self, andThen_succeed]
      exact ih fun b hb => h b (List.mem_cons_of_mem a hb)

end Attempt

namespace Comparison

variable {P W σ : Type} {k : Comparison P W P σ} {ps : List P}

theorem inOrder_self (h : ∀ p ∈ ps, k.one p p = .succeed) (fallback : Nat) :
    k.inOrder fallback (ps.map .one) ps = .succeed := by
  induction ps with
  | nil => rfl
  | cons p ps ih =>
      have ih' := ih fun q hq => h q (List.mem_cons_of_mem p hq)
      simp only [List.map_cons, inOrder, h p List.mem_cons_self, ih', Attempt.andThen_succeed,
        Attempt.firstOf_succeed]

theorem anyOrder_self (h : ∀ p ∈ ps, k.one p p = .succeed) (offset : Nat) :
    k.anyOrder offset (ps.map .one) ps = .succeed := by
  funext s
  refine anyOrder_unchanged (List.forall₂_same.mpr fun p hp => ?_) offset
  rw [h p hp]
  rfl

end Comparison

namespace Literal

/-- A real that is not a number differs from itself. -/
def isNumber : Literal → Bool
  | real x => x == x
  | _ => true

theorem agrees_self {l : Literal} (h : l.isNumber = true) : l.agrees l = true := by
  cases l with
  | real x => exact h
  | unknown => rfl
  | boolean | integer | character | string => exact beq_self_eq_true _

end Literal

/-- What a clause takes for granted of the node by whose kind it is asked, if that node is to answer
it. -/
def Clause.Apt (a : Node) : Clause → Prop
  | .kindAmong kinds => kinds.contains a.kind = true
  | .segments => a.isScoped = true
  | .lastSegment => a.isPath = true ∧ a.tree.lastSegment = a.tree
  | .genericParameter => False
  | _ => True

theorem Tree.lastSegment_of_kind {t : Tree}
    (h : t.label.kind = "identifier" ∨ t.label.kind = "self") : t.lastSegment = t := by
  obtain ⟨l, ts⟩ := t
  rw [label] at h
  rcases h with h | h <;> simp [lastSegment, h]

theorem Clause.apt_of_mem_strategy {a : Node} {c : Clause} (h : c ∈ strategy a a) : c.Apt a := by
  have hlast (hkind : a.kind = "identifier" ∨ a.kind = "self") :
      a.isPath = true ∧ a.tree.lastSegment = a.tree := by
    refine ⟨?_, Tree.lastSegment_of_kind hkind⟩
    rcases hkind with hkind | hkind <;> simp [Node.isPath, hkind]
  simp only [strategy] at h
  split at h
  all_goals
    repeat' split at h
    all_goals
      simp only [List.mem_cons, List.not_mem_nil, or_false] at h
      rcases h with rfl | rfl | rfl | rfl | rfl | rfl | rfl | rfl
      all_goals simp_all [Clause.Apt, Node.isScoped]

namespace Pattern

open Attempt

variable {p : Pattern}

section Lists

variable {α : Type} [Listed α] {one : α → α → Attempt Captures} {as : List α}
  (hno : ∀ x, p.wildcard? x = none) (hone : ∀ a ∈ as, one a a = .succeed)

include hno

theorem map_element_of_none (as : List α) : as.map p.element = as.map .one := by
  refine List.map_congr_left fun a _ => ?_
  have hw : (Listed.node? a).bind p.wildcard? = none := by
    cases Listed.node? a with
    | none => rfl
    | some x => exact hno x
  rw [element, hw]

include hone

theorem matchInOrder_self (source : Text) (parent : Node) :
    p.matchInOrder source one as as parent = .succeed := by
  rw [matchInOrder, map_element_of_none hno]
  exact Comparison.inOrder_self hone _

theorem matchInAnyOrder_self (source : Text) (parent : Node) :
    p.matchInAnyOrder source one as as parent = .succeed := by
  rw [matchInAnyOrder, map_element_of_none hno]
  exact Comparison.anyOrder_self hone _

end Lists

theorem matchOptional_self {cmp : Node → Node → Attempt Captures} {a : Option Node}
    (h : ∀ x ∈ a.toList, cmp x x = .succeed) : matchOptional cmp a a = .succeed := by
  cases a with
  | none => rfl
  | some x => exact h x (by simp)

theorem ask_self {cmp : Node → Node → Attempt Captures} {a : Node} {c : Clause}
    (hno : ∀ x, p.wildcard? x = none) (hc : c ∈ strategy a a)
    (hnumber : (Literal.read a.kind (a.text p.parsed.text)).isNumber = true)
    (hcmp : ∀ x ∈ c.opened a, cmp x x = .succeed) :
    p.ask p.parsed.text cmp a a c = .succeed := by
  have hapt := Clause.apt_of_mem_strategy hc
  cases c with
  | kindAmong kinds => simp only [ask, show kinds.contains a.kind = true from hapt, test_true]
  | marker | sameText | sameTokens => simp only [ask, beq_self_eq_true, test_true]
  | sameValue => simp only [ask, Literal.agrees_self hnumber, test_true]
  | genericParameter => exact hapt.elim
  | segments => simp only [ask, show a.isScoped = true from hapt, Bool.true_or, test_true]
  | lastSegment =>
      have htext : a.text p.parsed.text = a.tree.lastSegment.label.text p.parsed.text := by
        rw [hapt.2]
        rfl
      simp only [ask, hapt.1, htext, beq_self_eq_true, Bool.and_self, test_true]
  | part q => exact matchOptional_self hcmp
  | elementsInOrder | childrenInOrder => exact matchInOrder_self hno hcmp _ _
  | elementsInAnyOrder | attributes => exact matchInAnyOrder_self hno hcmp _ _
  | tupleFields =>
      refine matchInOrder_self hno (fun f hf => ?_) _ _
      have hnode {x : Node} (hx : x ∈ f.nodes) : cmp x x = .succeed :=
        hcmp x (TupleField.nodes_subset_compared hf hx)
      refine all_eq_succeed ?_
      simp only [List.forall_mem_cons, List.not_mem_nil, false_imp_iff, implies_true, and_true]
      exact ⟨matchInAnyOrder_self hno (fun x hx => hnode (f.attributes_subset_nodes hx)) _ _,
        matchOptional_self fun x hx => hnode (f.visibility_subset_nodes hx),
        hnode f.type_mem_nodes⟩
  | tokenGroups =>
      refine matchInAnyOrder_self hno (fun g hg => ?_) _ _
      have htokens : ∀ x ∈ g.tokens, cmp x x = .succeed := fun x hx =>
        hcmp x (TokenGroup.tokens_subset_compared hg hx)
      exact matchInOrder_self hno htokens _ _
  | quotedName =>
      have hname : (a.childOfKind? "identifier").bind p.wildcard? = none := by
        cases a.childOfKind? "identifier" with
        | none => rfl
        | some x => exact hno x
      simp only [ask, matchQuotedName, hname, beq_self_eq_true, test_true]

/-- With room for all its levels, a node without wildcards compares with itself. -/
theorem compare_self {S : Node → Prop} (hno : ∀ x, p.wildcard? x = none) (hS : Node.Stable S)
    (hnumber : ∀ x, S x → (Literal.read x.kind (x.text p.parsed.text)).isNumber = true) {room : Nat}
    {a : Node} (ha : S a) (hroom : p.structuralAt room a = []) :
    p.compare p.parsed.text room a a = .succeed := by
  induction room generalizing a with
  | zero => simp [structuralAt, hno] at hroom
  | succ room ih =>
      simp only [structuralAt_succ (hno a), List.flatMap_eq_nil_iff] at hroom
      simp only [compare, hno]
      refine all_eq_succeed fun x hx => ?_
      obtain ⟨c, hc, rfl⟩ := List.mem_map.mp hx
      refine ask_self hno hc (hnumber a ha) fun x hx => ?_
      exact ih (hS a x ha c (Clause.compared_of_opened hx).1) (hroom c hc x hx)

theorem wildcard?_of_declared_nil (h : p.template.declared = []) (x : Node) :
    p.wildcard? x = none := by
  simp [wildcard?, Template.variableFor?, h]

end Pattern

namespace Node

theorem isChain_filter_row (q : Node → Bool) (above : List String) (before ts : List Tree) :
    ((row above before ts).filter q).IsChain fun a b => a.later.find? q = some b := by
  induction ts generalizing before with
  | nil => exact List.isChain_nil
  | cons t ts ih =>
      rw [row, List.filter_cons]
      split
      · rw [List.isChain_cons]
        refine ⟨fun b hb => ?_, ih (t :: before)⟩
        rw [List.head?_filter] at hb
        exact hb
      · exact ih (t :: before)

theorem items_eq_filter {n : Node} (h : ∀ c ∈ n.items, c.isAttributeItem = false) :
    n.items = n.children.filter fun c => c.label.isProper && !c.isAttributeItem := by
  rw [items, properChildren, List.filter_filter]
  refine List.filter_congr fun c hc => ?_
  cases hattribute : c.isAttributeItem with
  | false => simp
  | true =>
      have hdecorates : c.label.isProper = true → c.decoratesSibling = true := by
        intro hproper
        refine Decidable.byContradiction fun hnot => ?_
        have hitem : c ∈ n.items := by
          simp only [items, properChildren, List.mem_filter]
          exact ⟨⟨hc, hproper⟩, by simp [hnot]⟩
        rw [h c hitem] at hattribute
        cases hattribute
      cases hproper : c.label.isProper with
      | false => simp
      | true => simp [hdecorates hproper]

theorem consecutive_items {n : Node} (h : ∀ c ∈ n.items, c.isAttributeItem = false) :
    Pattern.Consecutive n.items := by
  rw [items_eq_filter h]
  exact isChain_filter_row _ _ _ _

theorem mem_preorder_self (keep : Label → Bool) (n : Node) : n ∈ n.preorder keep := by
  rw [preorder_eq]
  exact List.mem_cons_self

theorem child_mem_preorder {keep : Label → Bool} {n y c : Node} (hy : y ∈ n.preorder keep)
    (hc : c ∈ y.children) (hkeep : keep c.label = true) : c ∈ n.preorder keep := by
  induction n using childInduct with
  | step n ih =>
      rw [preorder_eq, List.mem_cons, List.mem_flatMap] at hy ⊢
      right
      rcases hy with rfl | ⟨d, hd, hy⟩
      · exact ⟨c, List.mem_filter.mpr ⟨hc, hkeep⟩, c.mem_preorder_self keep⟩
      · exact ⟨d, hd, ih d (List.mem_of_mem_filter hd) hy⟩

theorem item_mem_preorder {n y c : Node} (hy : y ∈ n.preorder Label.isProper) (hc : c ∈ y.items) :
    c ∈ n.preorder Label.isProper := by
  obtain ⟨hc, hproper⟩ := List.mem_filter.mp (List.mem_of_mem_filter hc)
  exact child_mem_preorder hy hc hproper

end Node

/-- The grammar makes the body of a function a node of its own, which a search enters. -/
def Source.BodiesProper (s : Source) : Prop :=
  ∀ f ∈ s.root.items, f.kind = "function_item" →
    ∀ body ∈ f.childAt? "body", body.label.isProper = true

instance (s : Source) : Decidable s.BodiesProper :=
  inferInstanceAs (Decidable (∀ f ∈ s.root.items, _ = _ → ∀ body ∈ f.childAt? "body", _ = _))

namespace Pattern

variable {p : Pattern}

theorem follow_self {cmp : Node → Node → Attempt Captures} {roots : List Node}
    (hcmp : ∀ r ∈ roots, cmp r r = .succeed) (hchain : Consecutive roots) {next : Option Node}
    (hnext : ∀ r, roots.head? = some r → next = some r) (s : Captures) :
    follow cmp roots next s = some ⟨roots, s⟩ := by
  induction roots generalizing next with
  | nil => rfl
  | cons r roots ih =>
      rw [Consecutive, List.isChain_cons] at hchain
      rw [hnext r rfl, follow_cons_eq_some, hcmp r List.mem_cons_self]
      refine ⟨rfl, ⟨roots, s⟩, ?_, rfl⟩
      exact ih (fun x hx => hcmp x (List.mem_cons_of_mem r hx)) hchain.2 hchain.1

theorem consecutive_roots (h : ∀ r ∈ p.roots, r.isAttributeItem = false) :
    Consecutive p.roots := by
  rw [roots_eq] at h ⊢
  cases hhost : p.host? with
  | none => exact List.isChain_nil
  | some host =>
      rw [hhost] at h
      exact Node.consecutive_items h

theorem host_mem_preorder (hbodies : p.parsed.BodiesProper) {host : Node}
    (h : p.host? = some host) : host ∈ p.parsed.root.preorder Label.isProper := by
  have hroot := p.parsed.root.mem_preorder_self Label.isProper
  cases hwrapped : p.wrapped with
  | false => exact host_of_plain hwrapped h ▸ hroot
  | true =>
      obtain ⟨f, -, hf, hkind, hbody⟩ := exists_function_of_host hwrapped h
      exact Node.child_mem_preorder (Node.item_mem_preorder hroot hf)
        (List.mem_of_find?_eq_some hbody) (hbodies f hf hkind host hbody)

theorem roots_mem_preorder (hbodies : p.parsed.BodiesProper) :
    ∀ r ∈ p.roots, r ∈ p.parsed.root.preorder Label.isProper := by
  intro r hr
  obtain ⟨host, hhost, hr⟩ := exists_host_of_mem_roots hr
  exact Node.item_mem_preorder (host_mem_preorder hbodies hhost) hr

theorem matchAt?_self {r : Node} (hno : ∀ x, p.wildcard? x = none)
    (hroots : ∀ r ∈ p.roots, r.isAttributeItem = false)
    (hnumber : ∀ n ∈ p.parsed.nodes,
      (Literal.read n.kind (n.text p.parsed.text)).isNumber = true)
    (hdepth : p.depth ≤ p.config.maxDepth) (hr : p.roots.head? = some r) :
    p.matchAt? p.parsed.text r = some ⟨p.roots, []⟩ := by
  have hlevel := depth_le_iff.mp hdepth
  rw [structuralLevel, List.flatMap_eq_nil_iff] at hlevel
  have hcompare : ∀ x ∈ p.roots,
      p.compare p.parsed.text p.config.maxDepth x x = .succeed := fun x hx =>
    compare_self hno p.parsed.nodes_closed.stable hnumber (p.roots_subset x hx) (hlevel x hx)
  have hmem := List.mem_of_head? hr
  have hproper := isProper_of_mem_roots hmem
  rw [Label.isProper, Bool.and_eq_true, Bool.not_eq_true'] at hproper
  rw [matchAt?, hroots r hmem, hproper.2, Bool.or_self, if_neg Bool.false_ne_true]
  exact follow_self hcompare (consecutive_roots hroots) (fun x hx => hr.symm.trans hx) []

/-- A template without variables matches itself, root by root, and binds nothing. -/
theorem self_match {grammar : Grammar} {config : Config} {t : Text}
    (hp : compile grammar config t = .ok p) (hvariables : p.template.declared = [])
    (hroots : ∀ r ∈ p.roots, r.isAttributeItem = false)
    (hnumber : ∀ n ∈ p.parsed.nodes,
      (Literal.read n.kind (n.text p.parsed.text)).isNumber = true)
    (hdepth : p.parsed.tree.size ≤ config.maxDepth) :
    ∃ r, p.roots.head? = some r ∧ p.matchAt? p.parsed.text r = some ⟨p.roots, []⟩ ∧
      (p.parsed.BodiesProper → ∃ m, p.findFirst? p.parsed = some m) := by
  obtain ⟨-, -, hne, -, hconfig⟩ := compile_eq_ok_iff.mp hp
  obtain ⟨r, hr⟩ := Option.isSome_iff_exists.mp (List.isSome_head?.mpr hne)
  have hroom : p.depth ≤ p.config.maxDepth := by
    rw [hconfig]
    exact p.depth_le_size.trans hdepth
  have hmatch := matchAt?_self (wildcard?_of_declared_nil hvariables) hroots hnumber hroom hr
  refine ⟨r, hr, hmatch, fun hbodies => ?_⟩
  have hfound : (⟨p.roots, []⟩ : Match) ∈ p.allMatches p.parsed :=
    List.mem_filterMap.mpr ⟨r, roots_mem_preorder hbodies r (List.mem_of_head? hr), hmatch⟩
  rw [findFirst?_eq_head?]
  exact Option.isSome_iff_exists.mp (List.isSome_head?.mpr (List.ne_nil_of_mem hfound))

/-- The tree of the function that a template becomes the body of, where the body holds some trees. -/
def wrapperTree (stop : Nat) (statements : List Tree) : Tree :=
  .named "function_item" none 0 stop [.token "fn" 0 2, .named "identifier" (some "name") 3 19 [],
    .named "parameters" (some "parameters") 19 21 [.token "(" 19 20, .token ")" 20 21],
    .named "block" (some "body") 22 stop
      (.token "\x7b" 22 23 :: statements ++ [.token "\x7d" (stop - 1) stop])]

/-- The tree of `a;`. -/
def nameStatement (start : Nat) : Tree :=
  .named "expression_statement" none start (start + 2)
    [.named "identifier" none start (start + 1) [], .token ";" (start + 1) (start + 2)]

/-- The tree of a text that is no file. -/
def faultyTree (t : Text) : Tree :=
  .named "source_file" none 0 t.bytes [.node ⟨"ERROR", true, false, true, false, 0, t.bytes, none⟩ []]

/-- The trees of `a; b` and of the function around it. -/
def statementsGrammar : Grammar := fun t =>
  if t.head? = some 'f' then
    .named "source_file" none 0 t.bytes [wrapperTree t.bytes [nameStatement 24, nameStatement 27]]
  else faultyTree t

theorem self_match_of_statements : ∃ p r, compile statementsGrammar .default "a; b".toList = .ok p ∧
    p.template.declared = [] ∧ (∀ r ∈ p.roots, r.isAttributeItem = false) ∧
    (∀ n ∈ p.parsed.nodes, (Literal.read n.kind (n.text p.parsed.text)).isNumber = true) ∧
    p.parsed.tree.size ≤ Config.default.maxDepth ∧ p.parsed.BodiesProper ∧ p.roots.length = 2 ∧
    p.roots.head? = some r ∧ p.matchAt? p.parsed.text r = some ⟨p.roots, []⟩ ∧
    ∃ m, p.findFirst? p.parsed = some m := by
  have h : ((compile statementsGrammar .default "a; b".toList).toOption.map fun p =>
      decide (p.template.declared = []) && p.roots.all (!·.isAttributeItem) &&
        (p.parsed.nodes.all fun n =>
          (Literal.read n.kind (n.text p.parsed.text)).isNumber) &&
        decide (p.parsed.tree.size ≤ Config.default.maxDepth) && decide p.parsed.BodiesProper &&
        p.roots.length == 2) = some true := by
    decide +kernel
  simp only [Option.map_eq_some_iff, Bool.and_eq_true, decide_eq_true_eq, List.all_eq_true,
    Bool.not_eq_true', beq_iff_eq] at h
  obtain ⟨p, hp, ⟨⟨⟨⟨hvariables, hroots⟩, hnumber⟩, hdepth⟩, hbodies⟩, hlength⟩ := h
  have hp := ok_of_toOption hp
  obtain ⟨r, hr, hmatch, hfirst⟩ := self_match hp hvariables hroots hnumber hdepth
  exact ⟨p, r, hp, hvariables, hroots, hnumber, hdepth, hbodies, hlength, hr, hmatch,
    hfirst hbodies⟩

end Pattern

end ShapeSearch
