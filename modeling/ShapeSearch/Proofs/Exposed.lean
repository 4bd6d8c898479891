import ShapeSearch.Proofs.Coverage
import ShapeSearch.Proofs.Depth

namespace ShapeSearch

namespace Pattern

variable {p : Pattern} {s : Source} {source : Text} {e : Captures} {n x : Node} {m : Match}

theorem ComesTo.mem_nodes (hx : p.ComesTo x) : x ∈ p.parsed.nodes := by
  induction hx with
  | root hr => exact p.roots_subset _ hr
  | step _ _ _ hx ih =>
      exact p.parsed.nodes_closed.stable _ _ ih _ (Clause.compared_of_opened hx).1

theorem structuralAt_step {level : Nat} {a y : Node} {c : Clause} (hx : x ∈ p.structuralAt level a)
    (hc : c ∈ strategy x x) (hy : y ∈ c.opened x) (hwy : p.wildcard? y = none) :
    y ∈ p.structuralAt (level + 1) a := by
  induction level generalizing a with
  | zero =>
      obtain ⟨hw, rfl⟩ := mem_structuralAt_zero_iff.mp hx
      exact mem_structuralAt_succ_iff.mpr ⟨hw, c, hc, y, hy, mem_structuralAt_zero_iff.mpr ⟨hwy, rfl⟩⟩
  | succ level ih =>
      obtain ⟨hw, c', hc', z, hz, hx⟩ := mem_structuralAt_succ_iff.mp hx
      exact mem_structuralAt_succ_iff.mpr ⟨hw, c', hc', z, hz, ih hx⟩

theorem ComesTo.mem_structuralNodes (hx : p.ComesTo x) (hw : p.wildcard? x = none) :
    x ∈ p.structuralNodes := by
  rw [mem_structuralNodes_iff]
  induction hx with
  | root hr => exact ⟨0, List.mem_flatMap.mpr ⟨_, hr, mem_structuralAt_zero_iff.mpr ⟨hw, rfl⟩⟩⟩
  | step _ hwa hc hx ih =>
      obtain ⟨level, ha⟩ := ih hwa
      obtain ⟨r, hr, ha⟩ := List.mem_flatMap.mp ha
      exact ⟨level + 1, List.mem_flatMap.mpr ⟨r, hr, structuralAt_step ha hc hx hw⟩⟩

theorem isBound_of_accepts {room : Nat} {b : Node} {w : Wildcard} (hw : p.wildcard? x = some w)
    (h : (p.compare source room x b).Accepts e) : w.IsBound e := by
  rw [compare_of_wildcard hw] at h
  exact (Wildcard.bindOne_sound h).isBound

/-- A wildcard is bound, and anything else fits a node of the source. -/
def Met (p : Pattern) (s : Source) (e : Captures) (x : Node) : Prop :=
  (∃ w, p.wildcard? x = some w ∧ w.IsBound e) ∨
    ∃ room, ∃ y ∈ s.nodes, (p.compare s.text room x y).Accepts e

theorem Met.isBound (h : p.Met s e x) {w : Wildcard} (hw : p.wildcard? x = some w) :
    w.IsBound e := by
  rcases h with ⟨w', hw', hbound⟩ | ⟨room, y, -, h⟩
  · rw [hw, Option.some.injEq] at hw'
    exact hw' ▸ hbound
  · exact isBound_of_accepts hw h

theorem Met.step {a : Node} {c : Clause} (h : p.Met s e a) (hw : p.wildcard? a = none)
    (hapart : ∀ y ∈ s.nodes, p.ApartFrom s.text a y) (hc : c ∈ strategy a a)
    (hx : x ∈ c.compared a) :
    p.Met s e x ∨ (c = .quotedName ∧ p.wildcard? x = none) := by
  rcases h with ⟨w, hwa, -⟩ | ⟨room, b, hb, h⟩
  · rw [hw] at hwa
    cases hwa
  · cases room with
    | zero => exact absurd h (not_accepts_zero hw)
    | succ room =>
        rcases (demands_of_accepts hw (hapart b hb) h hc).paired hx with hbound | ⟨y, hy, hxy⟩ | hname
        · exact .inl (.inl hbound)
        · exact .inl (.inr ⟨room, y, s.nodes_closed.stable b y hb c hy, hxy⟩)
        · exact .inr hname

theorem ComesTo.met (hapart : p.ParametersApart s) (hn : n ∈ s.nodes)
    (h : p.matchAt? s.text n = some m) (hx : p.ComesTo x) : p.Met s m.captures x := by
  induction hx with
  | root hr => exact .inr ⟨_, exists_accepts_of_mem_roots hn h hr⟩
  | step ha hw hc hx ih =>
      obtain ⟨hcompared, hquoted⟩ := Clause.compared_of_opened hx
      exact (ih.step hw (hapart _ (ha.mem_structuralNodes hw)) hc hcompared).resolve_right
        fun h => hquoted h.1

/-- The nodes of a pattern that are not a part of a comment, nor of a node that is compared as a
whole. Attributes are among them where a strategy compares them. -/
inductive Exposed (p : Pattern) : Node → Prop
  | root {r : Node} (hr : r ∈ p.roots) (hv : r.isVerbatim = false) : Exposed p r
  | child {a x : Node} (ha : Exposed p a) (hw : p.wildcard? a = none) (hx : x ∈ a.plainChildren) :
    Exposed p x
  | decoration {a x : Node} {c : Clause} (ha : Exposed p a) (hw : p.wildcard? a = none)
      (hc : c ∈ strategy a a) (hx : x ∈ c.compared a) (hattribute : x.isAttributeItem = true) :
    Exposed p x

theorem Exposed.isVerbatim (hx : p.Exposed x) : x.isVerbatim = false := by
  cases hx with
  | root _ hv => exact hv
  | child _ _ hx => exact (Node.mem_plainChildren_iff.mp hx).2.2
  | decoration _ _ _ _ hattribute =>
      have hkind : x.kind = "attribute_item" := by simpa [Node.isAttributeItem] using hattribute
      simp [Node.isVerbatim, hkind, Literal.kinds]

/-- A node that a match comes to, or the name behind the quote of one. -/
inductive Seen (p : Pattern) (x : Node) : Prop
  | node (hx : p.ComesTo x)
  | name {a : Node} (ha : p.ComesTo a) (hw : p.wildcard? a = none)
      (hc : .quotedName ∈ strategy a a) (hx : x ∈ Clause.quotedName.compared a)

theorem Seen.mem_nodes (hx : p.Seen x) : x ∈ p.parsed.nodes := by
  cases hx with
  | node hx => exact hx.mem_nodes
  | name ha _ _ hx => exact p.parsed.nodes_closed.stable _ _ ha.mem_nodes _ hx

theorem Seen.step {a : Node} {c : Clause} (ha : p.Seen a) (hw : p.wildcard? a = none)
    (hc : c ∈ strategy a a) (hx : x ∈ c.compared a) : p.Seen x := by
  cases ha with
  | node ha =>
      by_cases hquoted : c = .quotedName
      · subst hquoted
        exact .name ha hw hc hx
      · exact .node (.step ha hw hc (Clause.opened_of_compared hquoted hx))
  | name ha' _ hc' ha =>
      obtain ⟨hquoted, -⟩ := strategy_of_quotedName_mem hc'
      rw [compared_of_name hquoted (Option.mem_toList.mp ha) hc] at hx
      cases hx

theorem Exposed.seen (hshape : ∀ a ∈ p.parsed.nodes, a.isShaped = true) (hx : p.Exposed x) :
    p.Seen x := by
  induction hx with
  | root hr => exact .node (.root hr)
  | child ha hw hx ih =>
      obtain ⟨c, hc, hx⟩ := exists_clause_of_plainChild (hshape _ ih.mem_nodes) ha.isVerbatim hx
      exact ih.step hw hc hx
  | decoration _ hw hc hx _ ih => exact ih.step hw hc hx

theorem Seen.isBound (hapart : p.ParametersApart s) (hn : n ∈ s.nodes)
    (h : p.matchAt? s.text n = some m) (hx : p.Seen x) {w : Wildcard}
    (hw : p.wildcard? x = some w) : w.IsBound m.captures := by
  cases hx with
  | node hx => exact (hx.met hapart hn h).isBound hw
  | name ha hwa hc hx =>
      have hmet := (ha.met hapart hn h).step hwa (hapart _ (ha.mem_structuralNodes hwa)) hc hx
      rcases hmet with hmet | ⟨-, hnone⟩
      · exact hmet.isBound hw
      · rw [hw] at hnone
        cases hnone

/-- A variable has a place that a comment does not hide, nor a node that is compared as a whole. -/
def Exposes (p : Pattern) (v : Variable) : Prop :=
  ∃ x w, p.Exposed x ∧ p.wildcard? x = some w ∧ w.ofVariable = v

/-- Every match binds the named variables that the template exposes. -/
theorem exposed_bound (hshape : ∀ a ∈ p.parsed.nodes, a.isShaped = true)
    (hapart : p.ParametersApart s) (h : p.Reports s m) {v : Variable} (hv : v.isAnonymous = false)
    (hexposed : p.Exposes v) : ∃ b, m.captures.lookup v.name = some b := by
  obtain ⟨n, hn, hm⟩ := h.exists_matchAt?
  obtain ⟨x, w, hx, hw, rfl⟩ := hexposed
  exact (hx.seen hshape).isBound hapart hn hm hw (by simpa [Variable.isAnonymous] using hv)

theorem exposed_bound_of_parameters : ∃ p m v b,
    compile parameterGrammar .default "struct b<T, '_rest:*>;".toList = .ok p ∧
      (∀ a ∈ p.parsed.nodes, a.isShaped = true) ∧ p.ParametersApart parameterSource ∧
      p.Reports parameterSource m ∧ v ∈ p.template.declared ∧ v.isAnonymous = false ∧
      p.Exposes v ∧ m.captures.lookup v.name = some b := by
  have h : ((compile parameterGrammar .default "struct b<T, '_rest:*>;".toList).toOption.bind
      fun p => (p.findFirst? parameterSource).bind fun _ => p.template.declared.head?.map fun v =>
        p.parsed.nodes.all Node.isShaped && decide (p.ParametersApart parameterSource) &&
          !v.isAnonymous && p.roots.any fun r =>
            !r.isVerbatim && (p.wildcard? r).isNone && r.plainChildren.any fun a =>
              (p.wildcard? a).isNone && a.plainChildren.any fun x =>
                (p.wildcard? x).any (·.ofVariable == v)) = some true := by
    decide +kernel
  simp only [Option.bind_eq_some_iff, Option.map_eq_some_iff, Bool.and_eq_true, List.all_eq_true,
    List.any_eq_true, Option.any_eq_true, Bool.not_eq_true', decide_eq_true_eq, beq_iff_eq,
    Option.isNone_iff_eq_none] at h
  obtain ⟨p, hp, m, hm, v, hv, ⟨⟨hshape, hapart⟩, hnamed⟩, r, hr, ⟨hverbatim, hwr⟩, a, ha, hwa, x,
    hx, w, hw, hwv⟩ := h
  have hexposed : p.Exposes v := ⟨x, w, .child (.child (.root hr hverbatim) hwr ha) hwa hx, hw, hwv⟩
  obtain ⟨b, hb⟩ := exposed_bound hshape hapart (.first hm) hnamed hexposed
  exact ⟨p, m, v, b, ok_of_toOption hp, hshape, hapart, .first hm, List.mem_of_head? hv, hnamed,
    hexposed, hb⟩

/-- The tree of `f();`, with a comment between the parentheses where the text is longer. -/
def emptyCall (last : Nat) : Tree :=
  .named "source_file" none 0 last [.named "expression_statement" none 0 last [
    .named "call_expression" none 0 (last - 1) [.named "identifier" (some "function") 0 1 [],
      .named "arguments" (some "arguments") 1 (last - 1) ([.token "(" 1 2] ++
        (if last ≤ 4 then [] else [.comment 2 (last - 2)]) ++ [.token ")" (last - 2) (last - 1)])],
    .token ";" (last - 1) last]]

def emptyCallGrammar : Grammar := fun t => emptyCall t.bytes

/-- A name that stands in a comment alone is declared, but no match binds it. -/
theorem comment_unbound : ∃ p m v,
    compile emptyCallGrammar .default "f(/*'_x*/);".toList = .ok p ∧
      p.findAll (.ofText emptyCallGrammar "f();".toList) = [m] ∧ v ∈ p.template.declared ∧
      v.isAnonymous = false ∧ v.name = "x".toList ∧ m.captures.lookup v.name = none := by
  have h : ((compile emptyCallGrammar .default "f(/*'_x*/);".toList).toOption.bind fun p =>
      (p.findAll (.ofText emptyCallGrammar "f();".toList)).head?.bind fun m =>
        p.template.declared.head?.map fun v =>
          (p.findAll (.ofText emptyCallGrammar "f();".toList)).tail.isEmpty && !v.isAnonymous &&
            v.name == "x".toList && (m.captures.lookup v.name).isNone) = some true := by
    decide +kernel
  simp only [Option.bind_eq_some_iff, Option.map_eq_some_iff, Bool.and_eq_true, Bool.not_eq_true',
    beq_iff_eq, Option.isNone_iff_eq_none, List.isEmpty_iff] at h
  obtain ⟨p, hp, m, hm, v, hv, ⟨⟨hsingle, hnamed⟩, hname⟩, hnone⟩ := h
  have hfound : p.findAll (.ofText emptyCallGrammar "f();".toList) = [m] := by
    rw [List.eq_cons_of_mem_head? hm, hsingle]
  exact ⟨p, m, v, ok_of_toOption hp, hfound, List.mem_of_head? hv, hnamed, hname, hnone⟩

end Pattern

end ShapeSearch
