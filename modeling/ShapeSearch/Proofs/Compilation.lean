import ShapeSearch.Proofs.Descendants
import ShapeSearch.Proofs.Outcomes
import ShapeSearch.Pattern

namespace ShapeSearch

namespace Variable

variable {v w : Variable} {o : Occurrence}

theorem withConstraint_eq_ok_iff : merge.withConstraint o v = .ok w ↔
    (∀ c d, v.constraint = some c → o.constraint = some d → c.sameAs d = true) ∧
      w = { v with constraint := v.constraint.or o.constraint } := by
  obtain ⟨name, quantifier, _ | c⟩ := v
  · simp [merge.withConstraint, eq_comm (a := w)]
  · cases hd : o.constraint with
    | none => simp [merge.withConstraint, hd, eq_comm (a := w)]
    | some d => by_cases h : c.sameAs d = true <;> simp [merge.withConstraint, hd, h, eq_comm (a := w)]

theorem merge_eq_ok_iff : v.merge o = .ok w ↔
    (∀ q q', v.explicitQuantifier = some q → o.quantifier = some q' → q = q') ∧
      (∀ c d, v.constraint = some c → o.constraint = some d → c.sameAs d = true) ∧
        w = ⟨v.name, v.explicitQuantifier.or o.quantifier, v.constraint.or o.constraint⟩ := by
  obtain ⟨name, _ | q, constraint⟩ := v
  · simp [merge, withConstraint_eq_ok_iff]
  · cases hq' : o.quantifier with
    | none => simp [merge, hq', withConstraint_eq_ok_iff]
    | some q' => by_cases h : q = q' <;> simp [merge, hq', h, withConstraint_eq_ok_iff]

end Variable

namespace Template

def Distinct (t : Template) : Prop :=
  (t.declared.map (·.name)).Pairwise fun a b => a ≠ [] → a ≠ b

theorem Distinct.named? {t : Template} (h : t.Distinct) {v : Variable} (hv : v ∈ t.declared)
    (hname : v.name ≠ []) : t.named? v.name = some v := by
  obtain ⟨before, after, hsplit⟩ := List.append_of_mem hv
  rw [Distinct, hsplit, List.map_append, List.map_cons, List.pairwise_append] at h
  have hnamed : (!v.isAnonymous && v.name == v.name) = true := by
    simpa [Variable.isAnonymous] using hname
  refine List.find?_eq_some_iff_append.mpr ⟨hnamed, before, after, hsplit, fun u hu => ?_⟩
  have hne := h.2.2 u.name (List.mem_map_of_mem hu) v.name List.mem_cons_self
  by_cases hu : u.name = []
  · simp [Variable.isAnonymous, hu]
  · simp [hne hu]

theorem merge_name {v w : Variable} {o : Occurrence} (h : v.merge o = .ok w) : w.name = v.name := by
  obtain ⟨-, -, rfl⟩ := Variable.merge_eq_ok_iff.mp h
  rfl

theorem map_name_set {t : Template} {i : Fin t.declared.length} {v : Variable} {o : Occurrence}
    (h : (t.declared.get i).merge o = .ok v) :
    (t.declared.set i v).map (·.name) = t.declared.map (·.name) := by
  have hi : i < (t.declared.map (·.name)).length := by simp
  have hget := List.set_getElem_self hi
  rw [List.getElem_map] at hget
  rw [List.map_set, merge_name h]
  exact hget

theorem Distinct.addOccurrence {t u : Template} {o : Occurrence} (h : t.Distinct)
    (hu : t.addOccurrence o = .ok u) : u.Distinct := by
  simp only [Template.addOccurrence] at hu
  split at hu
  next hnone =>
    cases hu
    rw [List.findFinIdx?_eq_none_iff] at hnone
    simp only [Distinct, addPlace, List.map_append, List.pairwise_append]
    refine ⟨h, List.pairwise_singleton _ _, ?_⟩
    intro a ha b hb hne
    obtain ⟨v, hv, rfl⟩ := List.mem_map.mp ha
    obtain rfl : b = o.name := List.mem_singleton.mp hb
    have hv' := hnone v hv
    simpa [Variable.isAnonymous, hne] using hv'
  next i _ =>
    obtain ⟨v, hm, rfl⟩ := map_eq_ok_iff.mp hu
    simp only [Distinct, addPlace, map_name_set hm]
    exact h

theorem Distinct.addSegments {t u : Template} {segments : List Segment} (h : t.Distinct)
    (hu : t.addSegments segments = .ok u) : u.Distinct := by
  induction segments generalizing t with
  | nil => exact Except.ok.inj hu ▸ h
  | cons segment segments ih =>
      simp only [Template.addSegments] at hu
      cases segment with
      | text text => exact ih (t := t.addText text) h hu
      | wildcard o =>
          simp only [addSegment] at hu
          split at hu
          · cases hu
          next next hnext => exact ih (h.addOccurrence hnext) hu

theorem distinct_of_read {ignoreCase : Bool} {text : Text} {t : Template}
    (h : read ignoreCase text = .ok t) : t.Distinct := by
  obtain ⟨segments, -, h⟩ := bind_eq_ok_iff.mp h
  exact Distinct.addSegments (t := empty) .nil (mapError_eq_ok_iff.mp h)

end Template

namespace Pattern

variable {grammar : Grammar} {config : Config} {t : Text} {p : Pattern}

theorem compile_eq_ok_iff : compile grammar config t = .ok p ↔
    Template.read (!config.caseSensitive) t = .ok p.template ∧
      parse grammar p.template.normalised = .ok (p.parsed, p.wrapped) ∧ p.roots ≠ [] ∧
        p.written = t ∧ p.config = config := by
  simp only [compile]
  constructor
  · intro h
    obtain ⟨template, ht, h⟩ := bind_eq_ok_iff.mp h
    obtain ⟨⟨parsed, wrapped⟩, hr, h⟩ := bind_eq_ok_iff.mp h
    simp only at h
    split at h
    · cases h
    next hroots =>
      cases h
      exact ⟨ht, hr, by simpa using hroots, rfl, rfl⟩
  · obtain ⟨written, template, parsed, wrapped, config'⟩ := p
    rintro ⟨ht, hr, hroots, rfl, rfl⟩
    simp only at ht hr
    have hroots' : List.isEmpty (roots ⟨written, template, parsed, wrapped, config'⟩) = false := by
      simpa using hroots
    simp [ht, hr, bind, Except.bind, hroots']
    rfl

theorem parse_of_compile (h : compile grammar config t = .ok p) :
    parse grammar p.template.normalised = .ok (p.parsed, p.wrapped) ∧ p.config = config := by
  obtain ⟨-, hparse, -, -, hconfig⟩ := compile_eq_ok_iff.mp h
  exact ⟨hparse, hconfig⟩

theorem config_of_compile (h : compile grammar config t = .ok p) : p.config = config :=
  (parse_of_compile h).2

theorem compile_config (grammar : Grammar) {config config' : Config}
    (h : config'.caseSensitive = config.caseSensitive) (t : Text) :
    compile grammar config' t =
      (compile grammar config t).map fun p => { p with config := config' } := by
  simp only [compile, h]
  cases Template.read (!config.caseSensitive) t with
  | error e => rfl
  | ok template =>
      cases hp : parse grammar template.normalised with
      | error e => simp [hp, bind, Except.bind, Except.map]
      | ok r =>
          have hroots : (Pattern.mk t template r.1 r.2 config').roots =
              (Pattern.mk t template r.1 r.2 config).roots := rfl
          simp only [hp, bind, Except.bind, hroots]
          split
          · rfl
          · rfl

theorem compile_update (grammar : Grammar) {f : Config → Config}
    (hf : ∀ config, (f config).caseSensitive = config.caseSensitive) (config : Config) (t : Text) :
    compile grammar (f config) t =
      (compile grammar config t).map fun p => { p with config := f p.config } := by
  rw [compile_config grammar (hf config)]
  cases h : compile grammar config t with
  | error e => rfl
  | ok p => simp only [Except.map, config_of_compile h]

theorem parse_eq_ok_iff {s : Source} {wrapped : Bool} : parse grammar t = .ok (s, wrapped) ↔
    (wrapped = false ∧ s = .ofText grammar t ∧ s.tree.hasFault = false) ∨
      (wrapped = true ∧ (grammar t).hasFault = true ∧ s = .ofText grammar (wrap t) ∧
        s.faults = []) := by
  have htree : (Source.ofText grammar t).tree = grammar t := rfl
  simp only [parse, htree]
  cases hfault : (grammar t).hasFault with
  | false =>
      simp only [Bool.false_eq_true, if_false, Except.ok.injEq, Prod.mk.injEq]
      constructor
      · rintro ⟨rfl, rfl⟩
        exact .inl ⟨rfl, rfl, hfault⟩
      · rintro (⟨rfl, rfl, -⟩ | ⟨-, h, -⟩)
        · exact ⟨rfl, rfl⟩
        · cases h
  | true =>
      simp only [if_true]
      cases hinner : (Source.ofText grammar (wrap t)).faults with
      | nil =>
          simp only [Except.ok.injEq, Prod.mk.injEq]
          constructor
          · rintro ⟨rfl, rfl⟩
            exact .inr ⟨rfl, trivial, rfl, hinner⟩
          · rintro (⟨-, rfl, h⟩ | ⟨rfl, -, rfl, -⟩)
            · rw [htree, hfault] at h
              cases h
            · exact ⟨rfl, rfl⟩
      | cons fault faults =>
          simp only [reduceCtorEq, false_iff, not_or, not_and]
          constructor
          · rintro rfl rfl h
            rw [htree, hfault] at h
            cases h
          · rintro rfl - rfl h
            rw [hinner] at h
            cases h

theorem wrap_eq (t : Text) : ∃ front statement : Text,
    wrap t = front ++ statement ++ [' ', '\x7d'] ∧ t.trimEnd.length ≤ statement.length := by
  refine ⟨_, _, rfl, ?_⟩
  split
  · exact Nat.le_refl _
  · split
    · exact Nat.le_refl _
    · rw [List.length_append]
      exact Nat.le_add_right _ _

theorem trimEnd_wrap (t : Text) : (wrap t).trimEnd = wrap t := by
  obtain ⟨front, statement, h, -⟩ := wrap_eq t
  have hbrace : Text.isBlank '\x7d' = false := by decide
  rw [h, Text.trimEnd]
  simp [hbrace]

theorem wrap_ne (t : Text) : wrap t ≠ t := by
  intro h
  obtain ⟨front, statement, hwrap, hlength⟩ := wrap_eq t
  have htrimmed := trimEnd_wrap t
  rw [h] at htrimmed
  rw [htrimmed] at hlength
  have hsize := congrArg List.length (h.symm.trans hwrap)
  simp only [List.length_append, List.length_cons] at hsize
  omega

/-- The node whose items are the roots: the whole file, or the body of its first function. -/
def host? (p : Pattern) : Option Node :=
  if p.wrapped then
    (p.parsed.root.items.find? (·.kind == "function_item")).bind (·.childAt? "body")
  else some p.parsed.root

theorem roots_eq (p : Pattern) : p.roots = p.host?.elim [] Node.items := by
  simp only [roots, topLevel, host?]
  split <;> rfl

theorem exists_host_of_mem_roots {r : Node} (hr : r ∈ p.roots) :
    ∃ host, p.host? = some host ∧ r ∈ host.items := by
  rw [roots_eq] at hr
  cases hhost : p.host? with
  | none =>
      rw [hhost] at hr
      cases hr
  | some host =>
      rw [hhost] at hr
      exact ⟨host, rfl, hr⟩

theorem exists_function_of_host {host : Node} (hwrapped : p.wrapped = true)
    (h : p.host? = some host) : ∃ f, p.parsed.root.items.find? (·.kind == "function_item") = some f ∧
      f ∈ p.parsed.root.items ∧ f.kind = "function_item" ∧ f.childAt? "body" = some host := by
  rw [host?, if_pos hwrapped] at h
  obtain ⟨f, hf, hbody⟩ := Option.bind_eq_some_iff.mp h
  exact ⟨f, hf, List.mem_of_find?_eq_some hf, by simpa using List.find?_some hf, hbody⟩

theorem host_of_plain {host : Node} (hwrapped : p.wrapped = false) (h : p.host? = some host) :
    host = p.parsed.root := by
  rw [host?, hwrapped, if_neg Bool.false_ne_true, Option.some.injEq] at h
  exact h.symm

theorem host_mem_nodes {host : Node} (h : p.host? = some host) : host ∈ p.parsed.nodes := by
  have hroot := p.parsed.root_mem_nodes
  cases hwrapped : p.wrapped with
  | false => exact host_of_plain hwrapped h ▸ hroot
  | true =>
      obtain ⟨f, -, hf, -, hbody⟩ := exists_function_of_host hwrapped h
      have hfunction := Node.children_below hroot (Node.mem_properChildren (List.mem_of_mem_filter hf))
      exact Node.children_below hfunction (List.mem_of_find?_eq_some hbody)

theorem exists_items_of_mem_roots {r : Node} (hr : r ∈ p.roots) :
    ∃ n ∈ p.parsed.nodes, r ∈ n.items := by
  obtain ⟨host, hhost, hr⟩ := exists_host_of_mem_roots hr
  exact ⟨host, host_mem_nodes hhost, hr⟩

theorem isProper_of_mem_roots {r : Node} (hr : r ∈ p.roots) : r.label.isProper = true := by
  obtain ⟨n, -, hr⟩ := exists_items_of_mem_roots hr
  exact (List.mem_filter.mp (List.mem_of_mem_filter hr)).2

theorem roots_subset (p : Pattern) : ∀ r ∈ p.roots, r ∈ p.parsed.nodes := by
  intro r hr
  obtain ⟨n, hn, hr⟩ := exists_items_of_mem_roots hr
  exact Node.children_below hn (Node.mem_properChildren (List.mem_of_mem_filter hr))

theorem distinct_of_compile (h : compile grammar config t = .ok p) : p.template.Distinct :=
  Template.distinct_of_read (compile_eq_ok_iff.mp h).1

end Pattern

end ShapeSearch
