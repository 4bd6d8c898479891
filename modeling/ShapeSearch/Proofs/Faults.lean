import ShapeSearch.Proofs.Compilation

namespace ShapeSearch

namespace Tree

mutual

theorem faultyLabels_eq_nil_iff : ∀ t : Tree, t.faultyLabels = [] ↔ t.hasFault = false
  | node l ts => by
    have hall := faultyLabelsAll_eq_nil_iff ts
    simp only [faultyLabels, hasFault, Bool.or_eq_false_iff]
    cases l.isFault with
    | true => simp
    | false =>
        cases hts : anyHasFault ts with
        | true => simpa [hts] using hall
        | false => simp

theorem faultyLabelsAll_eq_nil_iff :
    ∀ ts : List Tree, faultyLabelsAll ts = [] ↔ anyHasFault ts = false
  | [] => by simp [faultyLabelsAll, anyHasFault]
  | t :: ts => by
    simp only [faultyLabelsAll, anyHasFault, List.append_eq_nil_iff, Bool.or_eq_false_iff,
      faultyLabels_eq_nil_iff t, faultyLabelsAll_eq_nil_iff ts]

end

/-- What the tree says about the node at the end of a path. A path counts the children at each
level. -/
def labelAt? (t : Tree) : List Nat → Option Label
  | [] => some t.label
  | i :: path => t.children[i]?.bind (labelAt? · path)

/-- At the end of a path stands a faulty node, and no node above it is faulty. -/
structure TopFault (t : Tree) (path : List Nat) (l : Label) : Prop where
  label : t.labelAt? path = some l
  fault : l.isFault = true
  above {before : List Nat} {k : Label} (hbefore : before <+: path) (hne : before ≠ path)
    (hk : t.labelAt? before = some k) : k.isFault = false

theorem topFault_nil_iff {t : Tree} {l : Label} :
    t.TopFault [] l ↔ t.label = l ∧ l.isFault = true := by
  constructor
  · intro h
    exact ⟨Option.some.inj h.label, h.fault⟩
  · rintro ⟨rfl, hfault⟩
    exact ⟨rfl, hfault, fun hbefore hne => absurd (List.prefix_nil.mp hbefore) hne⟩

theorem topFault_cons_iff {t : Tree} {i : Nat} {path : List Nat} {l : Label} :
    t.TopFault (i :: path) l ↔
      t.label.isFault = false ∧ ∃ u, t.children[i]? = some u ∧ u.TopFault path l := by
  constructor
  · intro h
    obtain ⟨u, hu, hl⟩ := Option.bind_eq_some_iff.mp h.label
    refine ⟨h.above (List.nil_prefix) (List.cons_ne_nil i path).symm rfl, u, hu, hl, h.fault, ?_⟩
    intro before k hbefore hne hk
    have hstep : i :: before <+: i :: path := List.cons_prefix_cons.mpr ⟨rfl, hbefore⟩
    refine h.above hstep ?_ ?_
    · simpa using hne
    · rw [labelAt?, hu]
      exact hk
  · rintro ⟨hroot, u, hu, h⟩
    refine ⟨?_, h.fault, ?_⟩
    · rw [labelAt?, hu]
      exact h.label
    · intro before k hbefore hne hk
      cases before with
      | nil => exact Option.some.inj hk ▸ hroot
      | cons j before =>
          obtain ⟨rfl, hrest⟩ := List.cons_prefix_cons.mp hbefore
          rw [labelAt?, hu] at hk
          exact h.above hrest (fun heq => hne (heq ▸ rfl)) hk

mutual

def placedFaults : Tree → List (List Nat × Label)
  | node l ts => if l.isFault then [([], l)] else placedFaultsAll 0 ts

def placedFaultsAll (i : Nat) : List Tree → List (List Nat × Label)
  | [] => []
  | t :: ts => (placedFaults t).map (fun x => (i :: x.1, x.2)) ++ placedFaultsAll (i + 1) ts

end

theorem mem_placedFaultsAll_iff {i : Nat} {ts : List Tree} {path : List Nat} {l : Label} :
    (path, l) ∈ placedFaultsAll i ts ↔
      ∃ j t rest, path = (i + j) :: rest ∧ ts[j]? = some t ∧ (rest, l) ∈ t.placedFaults := by
  induction ts generalizing i with
  | nil => simp [placedFaultsAll]
  | cons t ts ih =>
      rw [placedFaultsAll, List.mem_append, ih]
      constructor
      · rintro (h | ⟨j, u, rest, rfl, hu, hrest⟩)
        · obtain ⟨⟨rest, k⟩, hx, heq⟩ := List.mem_map.mp h
          cases heq
          exact ⟨0, t, rest, rfl, rfl, hx⟩
        · exact ⟨j + 1, u, rest, by rw [Nat.add_right_comm, Nat.add_assoc], hu, hrest⟩
      · rintro ⟨j, u, rest, rfl, hu, hrest⟩
        cases j with
        | zero =>
            cases hu
            exact .inl (List.mem_map.mpr ⟨(rest, l), hrest, rfl⟩)
        | succ j =>
            exact .inr ⟨j, u, rest, by rw [Nat.add_right_comm, Nat.add_assoc], hu, hrest⟩

theorem mem_placedFaults_iff {t : Tree} {path : List Nat} {l : Label} :
    (path, l) ∈ t.placedFaults ↔ t.TopFault path l := by
  induction path generalizing t with
  | nil =>
      obtain ⟨k, ts⟩ := t
      rw [topFault_nil_iff, placedFaults]
      split
      next hk =>
        rw [List.mem_singleton, Prod.mk.injEq]
        constructor
        · rintro ⟨-, rfl⟩
          exact ⟨rfl, hk⟩
        · rintro ⟨rfl, -⟩
          exact ⟨rfl, rfl⟩
      next hk =>
        rw [mem_placedFaultsAll_iff]
        constructor
        · rintro ⟨j, u, rest, hpath, -⟩
          cases hpath
        · rintro ⟨rfl, hfault⟩
          exact absurd hfault hk
  | cons i path ih =>
      obtain ⟨k, ts⟩ := t
      rw [topFault_cons_iff, placedFaults]
      split
      next hk =>
        simp only [List.mem_singleton, Prod.mk.injEq, reduceCtorEq, false_and, false_iff, not_and]
        intro hroot
        exact absurd (hroot.symm.trans hk) Bool.false_ne_true
      next hk =>
        rw [mem_placedFaultsAll_iff]
        constructor
        · rintro ⟨j, u, rest, hpath, hu, hrest⟩
          rw [Nat.zero_add, List.cons.injEq] at hpath
          obtain ⟨rfl, rfl⟩ := hpath
          exact ⟨Bool.eq_false_iff.mpr hk, u, hu, ih.mp hrest⟩
        · rintro ⟨-, u, hu, htop⟩
          exact ⟨i, u, path, by rw [Nat.zero_add], hu, ih.mpr htop⟩

mutual

theorem placedFaults_sorted : ∀ t : Tree, (t.placedFaults.map Prod.fst).Pairwise (· < ·)
  | node l ts => by
    rw [placedFaults]
    split
    · exact List.pairwise_singleton _ _
    · exact placedFaultsAll_sorted 0 ts

theorem placedFaultsAll_sorted (i : Nat) :
    ∀ ts : List Tree, ((placedFaultsAll i ts).map Prod.fst).Pairwise (· < ·)
  | [] => List.Pairwise.nil
  | t :: ts => by
    rw [placedFaultsAll, List.map_append, List.pairwise_append]
    refine ⟨?_, placedFaultsAll_sorted (i + 1) ts, ?_⟩
    · rw [List.map_map]
      have hsorted := placedFaults_sorted t
      rw [List.pairwise_map] at hsorted ⊢
      exact hsorted.imp fun h => List.cons_lt_cons_self.mpr h
    · intro a ha b hb
      obtain ⟨x, hx, rfl⟩ := List.mem_map.mp ha
      obtain ⟨y, -, rfl⟩ := List.mem_map.mp hx
      obtain ⟨⟨path, k⟩, hpath, rfl⟩ := List.mem_map.mp hb
      obtain ⟨j, u, rest, rfl, -⟩ := mem_placedFaultsAll_iff.mp hpath
      exact List.Lex.rel (by omega)

end

mutual

theorem hasFault_iff : ∀ t : Tree,
    t.hasFault = true ↔ ∃ path l, t.labelAt? path = some l ∧ l.isFault = true
  | node l ts => by
    rw [hasFault, Bool.or_eq_true, anyHasFault_iff ts]
    constructor
    · rintro (hl | ⟨i, t, hi, path, k, hk, hfault⟩)
      · exact ⟨[], l, rfl, hl⟩
      · exact ⟨i :: path, k, Option.bind_eq_some_iff.mpr ⟨t, hi, hk⟩, hfault⟩
    · rintro ⟨path, k, hk, hfault⟩
      cases path with
      | nil =>
          cases hk
          exact .inl hfault
      | cons i path =>
          obtain ⟨t, hi, hk⟩ := Option.bind_eq_some_iff.mp hk
          exact .inr ⟨i, t, hi, path, k, hk, hfault⟩

theorem anyHasFault_iff : ∀ ts : List Tree, anyHasFault ts = true ↔
    ∃ (i : Nat) (t : Tree), ts[i]? = some t ∧
      ∃ path l, t.labelAt? path = some l ∧ l.isFault = true
  | [] => by simp [anyHasFault]
  | t :: ts => by
    rw [anyHasFault, Bool.or_eq_true, hasFault_iff t, anyHasFault_iff ts]
    constructor
    · rintro (h | ⟨i, u, hi, h⟩)
      · exact ⟨0, t, rfl, h⟩
      · exact ⟨i + 1, u, hi, h⟩
    · rintro ⟨i, u, hi, h⟩
      cases i with
      | zero =>
          cases hi
          exact .inl h
      | succ i => exact .inr ⟨i, u, hi, h⟩

end

mutual

theorem map_snd_placedFaults : ∀ t : Tree, t.placedFaults.map Prod.snd = t.faultyLabels
  | node l ts => by
    have hall := map_snd_placedFaultsAll 0 ts
    rw [placedFaults, faultyLabels]
    split
    · rfl
    · rw [hall]
      split
      · rfl
      next hnone => exact (faultyLabelsAll_eq_nil_iff ts).mpr (Bool.eq_false_iff.mpr hnone)

theorem map_snd_placedFaultsAll (i : Nat) :
    ∀ ts : List Tree, (placedFaultsAll i ts).map Prod.snd = faultyLabelsAll ts
  | [] => rfl
  | t :: ts => by
    rw [placedFaultsAll, faultyLabelsAll, List.map_append, List.map_map,
      ← map_snd_placedFaults t, ← map_snd_placedFaultsAll (i + 1) ts]
    rfl

end

end Tree

namespace Source

theorem faults_eq_nil_iff (s : Source) : s.faults = [] ↔ s.tree.hasFault = false := by
  rw [faults, List.map_eq_nil_iff, Tree.faultyLabels_eq_nil_iff]

/-- The faults of a source in the order of a walk, each by the path to its node. -/
theorem faults_eq (s : Source) :
    s.faults = s.tree.placedFaults.map fun x => Fault.ofLabel s.text x.2 := by
  rw [faults, ← Tree.map_snd_placedFaults, List.map_map]
  rfl

theorem bytes_faults (s : Source) : s.faults.map (fun f => (f.start, f.stop)) =
    s.tree.placedFaults.map fun x => (x.2.start, x.2.stop) := by
  rw [faults_eq, List.map_map]
  rfl

end Source

namespace Pattern

variable {grammar : Grammar} {config : Config} {t : Text}

theorem topLevel_wrapped_ne_nil_iff {s : Source} : topLevel s true ≠ [] ↔
    ∃ f body, s.root.items.find? (·.kind == "function_item") = some f ∧
      f.childAt? "body" = some body ∧ body.items ≠ [] := by
  simp only [topLevel, if_true]
  cases hf : s.root.items.find? (·.kind == "function_item") with
  | none => simp
  | some f =>
      cases hbody : f.childAt? "body" with
      | none => simp [hbody]
      | some body => simp [hbody]

def ReadsPlain (grammar : Grammar) (text : Text) : Prop :=
  (Source.ofText grammar text).tree.hasFault = false ∧ (Source.ofText grammar text).root.items ≠ []

/-- The template is no file, and as the body of a function it has at least one item. -/
def ReadsWrapped (grammar : Grammar) (text : Text) : Prop :=
  (Source.ofText grammar text).tree.hasFault = true ∧
    (Source.ofText grammar (wrap text)).tree.hasFault = false ∧
      ∃ f body,
        (Source.ofText grammar (wrap text)).root.items.find? (·.kind == "function_item") = some f ∧
          f.childAt? "body" = some body ∧ body.items ≠ []

theorem exists_roots_iff {text : Text} :
    (∃ s wrapped, parse grammar text = .ok (s, wrapped) ∧ topLevel s wrapped ≠ []) ↔
      ReadsPlain grammar text ∨ ReadsWrapped grammar text := by
  constructor
  · rintro ⟨s, wrapped, hparse, htop⟩
    obtain ⟨rfl, rfl, hclean⟩ | ⟨rfl, hfault, rfl, hclean⟩ := parse_eq_ok_iff.mp hparse
    · exact .inl ⟨hclean, htop⟩
    · exact .inr ⟨hfault, (Source.faults_eq_nil_iff _).mp hclean, topLevel_wrapped_ne_nil_iff.mp htop⟩
  · rintro (⟨hclean, hitems⟩ | ⟨hfault, hclean, hbody⟩)
    · exact ⟨_, false, parse_eq_ok_iff.mpr (.inl ⟨rfl, rfl, hclean⟩), hitems⟩
    · exact ⟨_, true, parse_eq_ok_iff.mpr (.inr ⟨rfl, hfault, rfl,
        (Source.faults_eq_nil_iff _).mpr hclean⟩), topLevel_wrapped_ne_nil_iff.mpr hbody⟩

theorem exists_compile_iff : (∃ p, compile grammar config t = .ok p) ↔
    ∃ template, Template.read (!config.caseSensitive) t = .ok template ∧
      (ReadsPlain grammar template.normalised ∨ ReadsWrapped grammar template.normalised) := by
  constructor
  · rintro ⟨p, hp⟩
    obtain ⟨hread, hparse, hroots, -⟩ := compile_eq_ok_iff.mp hp
    exact ⟨p.template, hread, exists_roots_iff.mp ⟨_, _, hparse, hroots⟩⟩
  · rintro ⟨template, hread, hreads⟩
    obtain ⟨s, wrapped, hparse, hroots⟩ := exists_roots_iff.mpr hreads
    exact ⟨⟨t, template, s, wrapped, config⟩,
      compile_eq_ok_iff.mpr ⟨hread, hparse, hroots, rfl, rfl⟩⟩

theorem hasFault_of_compile {p : Pattern} (h : compile grammar config t = .ok p) :
    p.parsed.tree.hasFault = false := by
  obtain ⟨-, -, hclean⟩ | ⟨-, -, -, hclean⟩ := parse_eq_ok_iff.mp (parse_of_compile h).1
  · exact hclean
  · exact (Source.faults_eq_nil_iff _).mp hclean

/-- The faults of a source are its topmost faulty nodes, each listed once and parents first with the
bytes that it covers, and there are some if the tree has any. A template that can be scanned compiles
as long as one of its two readings has none and holds an item, so the tree of a pattern has no faulty
node. -/
theorem faults_decide_compilation (grammar : Grammar) (config : Config) (t : Text) :
    (∀ s : Source, ∃ found : List (List Nat × Label),
      s.faults = found.map (fun x => Fault.ofLabel s.text x.2) ∧
        s.faults.map (fun f => (f.start, f.stop)) = found.map (fun x => (x.2.start, x.2.stop)) ∧
        (∀ path l, (path, l) ∈ found ↔ s.tree.TopFault path l) ∧
          (found.map Prod.fst).Pairwise (· < ·) ∧
            (s.faults ≠ [] ↔ s.tree.hasFault = true) ∧
              (s.tree.hasFault = true ↔
                ∃ path l, s.tree.labelAt? path = some l ∧ l.isFault = true)) ∧
      ((∃ p, compile grammar config t = .ok p) ↔
        ∃ template, Template.read (!config.caseSensitive) t = .ok template ∧
          (ReadsPlain grammar template.normalised ∨ ReadsWrapped grammar template.normalised)) ∧
        ∀ p, compile grammar config t = .ok p →
          ∀ path l, p.parsed.tree.labelAt? path = some l → l.isFault = false := by
  refine ⟨fun s => ?_, exists_compile_iff, fun p hp path l hl => ?_⟩
  · refine ⟨s.tree.placedFaults, s.faults_eq, s.bytes_faults, fun path l => Tree.mem_placedFaults_iff,
      Tree.placedFaults_sorted s.tree, ?_, Tree.hasFault_iff s.tree⟩
    rw [ne_eq, s.faults_eq_nil_iff, Bool.not_eq_false]
  · rw [← Bool.not_eq_true]
    intro hfault
    have hsome := (Tree.hasFault_iff p.parsed.tree).mpr ⟨path, l, hl, hfault⟩
    rw [hasFault_of_compile hp] at hsome
    exact Bool.false_ne_true hsome

end Pattern

end ShapeSearch
