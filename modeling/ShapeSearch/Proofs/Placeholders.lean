import ShapeSearch.Proofs.Erasure
import ShapeSearch.Proofs.Naming

namespace ShapeSearch

theorem count_flatMap_le_one {α β : Type} [BEq β] [LawfulBEq β] {f : α → List β} {b : β}
    {xs : List α} (hxs : xs.Nodup) (hf : ∀ x ∈ xs, (f x).count b ≤ 1)
    (hunique : ∀ x ∈ xs, ∀ y ∈ xs, b ∈ f x → b ∈ f y → x = y) : (xs.flatMap f).count b ≤ 1 := by
  induction xs with
  | nil => simp
  | cons x xs ih =>
      rw [List.nodup_cons] at hxs
      rw [List.flatMap_cons, List.count_append]
      by_cases hx : b ∈ f x
      · have hrest : b ∉ xs.flatMap f := by
          intro hb
          obtain ⟨y, hy, hby⟩ := List.mem_flatMap.mp hb
          have hxy := hunique x List.mem_cons_self y (List.mem_cons_of_mem x hy) hx hby
          exact hxs.1 (hxy ▸ hy)
        rw [List.count_eq_zero.mpr hrest]
        exact hf x List.mem_cons_self
      · rw [List.count_eq_zero.mpr hx, Nat.zero_add]
        refine ih hxs.2 (fun y hy => hf y (List.mem_cons_of_mem x hy)) fun y hy z hz => ?_
        exact hunique y (List.mem_cons_of_mem x hy) z (List.mem_cons_of_mem x hz)

theorem index_unique_of_count_flatMap {α β : Type} [BEq β] [LawfulBEq β] {f : α → List β} {b : β}
    {xs : List α} (hxs : (xs.flatMap f).count b ≤ 1) {j k : Nat} {x y : α} (hx : xs[j]? = some x)
    (hy : xs[k]? = some y) (hbx : b ∈ f x) (hby : b ∈ f y) : j = k := by
  have hpos {ys : List α} {i : Nat} {z : α} (hz : ys[i]? = some z) (hbz : b ∈ f z) :
      0 < (ys.flatMap f).count b :=
    List.count_pos_iff.mpr (List.mem_flatMap.mpr ⟨z, List.mem_of_getElem? hz, hbz⟩)
  induction xs generalizing j k with
  | nil => cases hx
  | cons a xs ih =>
      rw [List.flatMap_cons, List.count_append] at hxs
      have hhead (h : b ∈ f a) : 0 < (f a).count b := List.count_pos_iff.mpr h
      cases j with
      | zero =>
          cases k with
          | zero => rfl
          | succ k =>
              obtain rfl : a = x := by simpa using hx
              have hrest := hpos (by simpa using hy : xs[k]? = some y) hby
              have hfirst := hhead hbx
              omega
      | succ j =>
          cases k with
          | zero =>
              obtain rfl : a = y := by simpa using hy
              have hrest := hpos (by simpa using hx : xs[j]? = some x) hbx
              have hfirst := hhead hby
              omega
          | succ k =>
              have hjk := ih (by omega) (by simpa using hx) (by simpa using hy)
              rw [hjk]

namespace Template

variable {t u : Template}

/-- What the variable with an index is called, if it is called anything. -/
def nameOf (t : Template) (i : Nat) : List Text :=
  ((t.declared.map (·.name))[i]?).elim [] Text.named

def placed (t : Template) : List Text :=
  t.occurrences.flatMap t.nameOf

def Closed (t : Template) : Prop :=
  ∀ i ∈ t.occurrences, i < t.declared.length

theorem Closed.addPlace (h : t.Closed) {i : Nat} (hi : i < t.declared.length) :
    (t.addPlace i).Closed := by
  intro j hj
  rcases List.mem_append.mp hj with hj | hj
  · exact h j hj
  · rwa [List.mem_singleton.mp hj]

theorem addPlace_placed (t : Template) (i : Nat) :
    (t.addPlace i).placed = t.placed ++ t.nameOf i := by
  have hsame : (t.addPlace i).nameOf = t.nameOf := rfl
  rw [placed, hsame]
  simp only [addPlace, List.flatMap_append, List.flatMap_singleton, placed]

theorem Closed.placed_append (h : t.Closed) (v : Variable) :
    placed { t with declared := t.declared ++ [v] } = t.placed := by
  refine List.flatMap_congr fun i hi => ?_
  simp only [nameOf, List.map_append]
  rw [List.getElem?_append_left (by simpa using h i hi)]

theorem nameOf_set {i : Fin t.declared.length} {v : Variable} {o : Occurrence}
    (h : (t.declared.get i).merge o = .ok v) :
    nameOf { t with declared := t.declared.set i v } = t.nameOf := by
  funext j
  simp only [nameOf, map_name_set h]

theorem addOccurrence_placed {o : Occurrence} (h : t.Closed) (hu : t.addOccurrence o = .ok u) :
    u.Closed ∧ u.placed = t.placed ++ o.name.named := by
  simp only [addOccurrence] at hu
  split at hu
  next hnone =>
    cases hu
    constructor
    · refine Closed.addPlace (fun i hi => ?_) ?_
      · rw [List.length_append]
        exact Nat.lt_add_right _ (h i hi)
      · rw [List.length_append]
        exact Nat.lt_succ_self _
    · rw [addPlace_placed, h.placed_append]
      simp [nameOf, Variable.ofOccurrence]
  next i hi =>
    obtain ⟨v, hm, rfl⟩ := map_eq_ok_iff.mp hu
    have hname : t.declared[i].name = o.name := by
      obtain ⟨hi, -⟩ := List.findFinIdx?_eq_some_iff.mp hi
      exact eq_of_beq (Bool.and_eq_true_iff.mp hi).2
    have hat : (t.declared.map (·.name))[i.val]? = some o.name := by
      rw [List.getElem?_map, List.getElem?_eq_getElem i.isLt, Option.map_some]
      exact congrArg some hname
    constructor
    · refine Closed.addPlace (fun j hj => ?_) ?_
      · rw [List.length_set]
        exact h j hj
      · rw [List.length_set]
        exact i.isLt
    · rw [addPlace_placed, placed, nameOf_set hm, nameOf, hat]
      rfl

theorem addSegments_placed {ss : List Segment} (h : t.Closed) (hu : t.addSegments ss = .ok u) :
    u.placed = t.placed ++ ss.flatMap Segment.names := by
  induction ss generalizing t with
  | nil =>
      cases hu
      exact (List.append_nil _).symm
  | cons s ss ih =>
      cases s with
      | text text => exact ih (t := t.addText text) h hu
      | wildcard o =>
          simp only [addSegments, addSegment] at hu
          split at hu
          · cases hu
          next next hnext =>
            obtain ⟨hclosed, hplaced⟩ := addOccurrence_placed h hnext
            rw [ih hclosed hu, hplaced, List.append_assoc]
            rfl

theorem read_placed {ignoreCase : Bool} {text : Text} (h : read ignoreCase text = .ok t) :
    t.placed = Segment.written ignoreCase text := by
  obtain ⟨segments, hs, h⟩ := bind_eq_ok_iff.mp h
  rw [Segment.written, hs]
  have hclosed : empty.Closed := fun i hi => absurd hi List.not_mem_nil
  exact addSegments_placed hclosed (mapError_eq_ok_iff.mp h)

/-- What the placeholder with a number stands for. -/
def placedAt (t : Template) (k : Nat) : List Text :=
  (t.occurrences[k]?).elim [] t.nameOf

theorem count_nameOf_le_one (t : Template) (i : Nat) (n : Text) : (t.nameOf i).count n ≤ 1 := by
  rw [nameOf]
  cases (t.declared.map (·.name))[i]? with
  | none => simp
  | some name =>
      rw [Option.elim_some, Text.named]
      split
      · simp
      · exact List.count_le_length

theorem count_placedAt_le_one (t : Template) (k : Nat) (n : Text) : (t.placedAt k).count n ≤ 1 := by
  rw [placedAt]
  cases t.occurrences[k]? with
  | none => simp
  | some i => exact t.count_nameOf_le_one i n

theorem mem_placedAt_iff {k : Nat} {n : Text} :
    n ∈ t.placedAt k ↔ ∃ i, t.occurrences[k]? = some i ∧ n ∈ t.nameOf i := by
  rw [placedAt]
  cases t.occurrences[k]? with
  | none => simp
  | some i => simp

theorem eq_of_mem_placedAt {n : Text} (h : t.placed.count n ≤ 1) {j k : Nat}
    (hj : n ∈ t.placedAt j) (hk : n ∈ t.placedAt k) : j = k := by
  obtain ⟨i, hi, hni⟩ := mem_placedAt_iff.mp hj
  obtain ⟨i', hi', hni'⟩ := mem_placedAt_iff.mp hk
  exact index_unique_of_count_flatMap h hi hi' hni hni'

end Template

namespace Pattern

variable {r : Renaming} {p : Pattern} {config : Config} {t : Text}

/-- The number of the placeholder that the text of a node reads as. -/
def placeholder? (p : Pattern) (x : Node) : Option Nat :=
  Template.placeholderNumber? (x.text p.parsed.text)

/-- A match looks for no placeholder in two places. -/
def Hygienic (p : Pattern) : Prop :=
  ((p.roots.flatMap (p.looks p.config.maxDepth false)).map p.placeholder?).Nodup

instance (p : Pattern) : Decidable p.Hygienic :=
  inferInstanceAs (Decidable (List.Nodup _))

theorem names_eq (p : Pattern) (xs : List Node) : p.names xs =
    (xs.map p.placeholder?).flatMap fun k => k.elim [] p.template.placedAt := by
  rw [names, List.flatMap_map]
  refine List.flatMap_congr fun x _ => ?_
  simp only [wildcard?, Template.variableFor?, placeholder?]
  cases Template.placeholderNumber? (x.text p.parsed.text) with
  | none => rfl
  | some k =>
      simp only [Option.bind_some, Option.elim_some, Template.placedAt]
      cases p.template.occurrences[k]? with
      | none => rfl
      | some i =>
          simp only [Option.bind_some, Option.elim_some, Template.nameOf, List.getElem?_map]
          cases p.template.declared[i]? with
          | none => rfl
          | some v => simp [Wildcard.names, Text.named]

theorem Hygienic.once (h : p.Hygienic) {ignoreCase : Bool}
    (hread : Template.read ignoreCase t = .ok p.template)
    (honce : r.Once (Segment.written ignoreCase t)) :
    r.Once (p.names (p.roots.flatMap (p.looks p.config.maxDepth false))) := by
  intro n hn herased
  rw [names_eq] at hn ⊢
  have hplaced {k : Option Nat} (hk : n ∈ k.elim [] p.template.placedAt) :
      ∃ j, k = some j ∧ n ∈ p.template.placedAt j := by
    cases k with
    | none => cases hk
    | some j => exact ⟨j, rfl, hk⟩
  have hcount : p.template.placed.count n ≤ 1 := by
    obtain ⟨k, -, hnk⟩ := List.mem_flatMap.mp hn
    obtain ⟨j, -, hnj⟩ := hplaced hnk
    obtain ⟨i, hi, hni⟩ := Template.mem_placedAt_iff.mp hnj
    rw [Template.read_placed hread]
    refine honce n ?_ herased
    rw [← Template.read_placed hread]
    exact List.mem_flatMap.mpr ⟨i, List.mem_of_getElem? hi, hni⟩
  refine count_flatMap_le_one h (fun k _ => ?_) fun k _ k' _ hk hk' => ?_
  · cases k with
    | none => simp
    | some j => exact p.template.count_placedAt_le_one j n
  · obtain ⟨j, rfl, hj⟩ := hplaced hk
    obtain ⟨j', rfl, hj'⟩ := hplaced hk'
    rw [Template.eq_of_mem_placedAt hcount hj hj']

theorem allMatches_rename {s : Source} (h : ∀ n ∈ s.nodes,
      (p.rename r).matchAt? s.text n = (p.matchAt? s.text n).map (Match.rename r)) :
    (p.rename r).allMatches s = (p.allMatches s).map (Match.rename r) := by
  rw [allMatches, allMatches, List.map_filterMap]
  exact List.filterMap_congr fun n hn => h n (Node.mem_below_of_mem_preorder hn)

/-- Under other names a template compiles as it does under the old ones, and so it does if a name that
is written once is erased. Its matches are those of the old template, provided that no placeholder is
looked for in two places, with the new names for what they bind. -/
theorem renamed_matches (grammar : Grammar) (r : Renaming)
    (honce : r.Once (Segment.written (!config.caseSensitive) t)) :
    SameOutcome (fun p p' => p' = p.rename r) (compile grammar config t)
      (compile grammar config (Segment.respell r (!config.caseSensitive) t)) ∧
    ∀ p, compile grammar config t = .ok p → p.Hygienic → p.AttributesPlain →
      ∀ s : Source, s.AttributesNamed → p.ParametersApart s →
        (∀ n ∈ s.nodes,
          (p.rename r).matchAt? s.text n = (p.matchAt? s.text n).map (Match.rename r)) ∧
        (p.rename r).findAll s = (p.findAll s).map (Match.rename r) := by
  refine ⟨compile_respell grammar honce, fun p hp hhygienic hplain s hnamed hapart => ?_⟩
  obtain ⟨hread, -, -, -, rfl⟩ := compile_eq_ok_iff.mp hp
  have hmatches (n : Node) (hn : n ∈ s.nodes) :=
    (renamed r p).matchAt? hplain hnamed hapart (hhygienic.once hread honce) hn
  refine ⟨hmatches, ?_⟩
  rw [findAll_eq_take, findAll_eq_take, allMatches_rename hmatches, List.map_take]
  rfl

end Pattern

/-- Gives one name another, and erases all others. -/
def Renaming.only (n m : Text) (hn : n ≠ []) (hm : m.all Segment.isNameChar = true) : Renaming where
  name k := if k = n then m else []
  nameless := if_neg hn.symm
  injective {j k} h hj := by
    have hname {l : Text} (hl : (if l = n then m else []) ≠ []) : l = n :=
      Decidable.byContradiction fun hne => hl (if_neg hne)
    have hk : (if k = n then m else []) ≠ [] := by
      rw [← h]
      exact hj
    rw [hname hj, hname hk]
  spelled {k} _ := by
    split
    · exact hm
    · rfl

namespace Pattern

/-- The tree of a block with an attribute and a statement, where both names have `n` characters. -/
def decorated (n : Nat) : Tree :=
  tuples.node "source_file" 0 (2 * n + 9) [tuples.node "expression_statement" 0 (2 * n + 9) [
    tuples.node "block" 0 (2 * n + 9) [tuples.token "\x7b" 0,
      tuples.node "attribute_item" 2 (n + 5) [tuples.token "#" 2, tuples.token "[" 3,
        tuples.node "attribute" 4 (n + 4) [tuples.node "identifier" 4 (n + 4) []],
        tuples.token "]" (n + 4)],
      tuples.node "expression_statement" (n + 6) (2 * n + 7)
        [tuples.node "identifier" (n + 6) (2 * n + 6) [], tuples.token ";" (2 * n + 6)],
      tuples.token "\x7d" (2 * n + 8)]]]

def decoratedGrammar : Grammar := fun t => decorated ((t.length - 9) / 2)

def decoratedSource : Source := .ofText decoratedGrammar "\x7b #[a] b; \x7d".toList

def decoratedText : Text :=
  "\x7b #['_x] '_y; \x7d".toList

def erasing : Renaming :=
  .only "y".toList "z".toList (by decide) (by decide)

/-- The attribute is looked at twice: as a member of the block, and for the statement behind it. -/
theorem renamed_matches_of_decorated : ∃ p n m,
    erasing.Once (Segment.written (!Config.default.caseSensitive) decoratedText) ∧
    compile decoratedGrammar .default decoratedText = .ok p ∧
    compile decoratedGrammar .default "\x7b #['_] '_z; \x7d".toList = .ok (p.rename erasing) ∧
    p.Hygienic ∧ p.AttributesPlain ∧ decoratedSource.AttributesNamed ∧
    p.ParametersApart decoratedSource ∧ n ∈ decoratedSource.nodes ∧
    p.matchAt? decoratedSource.text n = some m ∧ m.captures ≠ [] ∧
    (p.rename erasing).matchAt? decoratedSource.text n = some (m.rename erasing) := by
  have honce : erasing.Once (Segment.written (!Config.default.caseSensitive) decoratedText) := by
    decide +kernel
  have hrespell : Segment.respell erasing (!Config.default.caseSensitive) decoratedText =
      "\x7b #['_] '_z; \x7d".toList := by
    decide +kernel
  have hnamed : decoratedSource.AttributesNamed := by
    decide +kernel
  have h : ((compile decoratedGrammar .default decoratedText).toOption.bind fun p =>
      decoratedSource.nodes[1]?.bind fun n => (p.matchAt? decoratedSource.text n).map fun m =>
        decide (p.Hygienic ∧ p.AttributesPlain ∧ p.ParametersApart decoratedSource ∧
          m.captures ≠ [])) = some true := by
    decide +kernel
  simp only [Option.bind_eq_some_iff, Option.map_eq_some_iff, decide_eq_true_eq] at h
  obtain ⟨p, hp, n, hn, m, hm, hhygienic, hplain, hapart, hcaptures⟩ := h
  have hp := ok_of_toOption hp
  have hmem := List.mem_of_getElem? hn
  obtain ⟨hcompile, hmatches⟩ := renamed_matches decoratedGrammar erasing honce
  have hmatch := (hmatches p hp hhygienic hplain decoratedSource hnamed hapart).1 n hmem
  rw [hm, Option.map_some] at hmatch
  rw [hp, hrespell] at hcompile
  obtain ⟨p', hp', rfl⟩ := hcompile.exists_ok
  exact ⟨p, n, m, honce, hp, hp', hhygienic, hplain, hnamed, hapart, hmem, hm, hcaptures, hmatch⟩

def lookalikeText : Text :=
  "(('_x, __ssr_var_0__), '_z);".toList

def erasingFirst : Renaming :=
  .only "z".toList "z".toList (by decide) (by decide)

/-- The second element reads as the placeholder of the first, and counts for a second occurrence of
its name. Once the name is erased, nothing is left to agree with. -/
theorem erased_name_adds_match : ∃ p n,
    erasingFirst.Once (Segment.written (!Config.default.caseSensitive) lookalikeText) ∧
    compile tupleGrammar .default lookalikeText = .ok p ∧
    Segment.respell erasingFirst (!Config.default.caseSensitive) lookalikeText =
      "(('_, __ssr_var_0__), '_z);".toList ∧
    compile tupleGrammar .default "(('_, __ssr_var_0__), '_z);".toList =
      .ok (p.rename erasingFirst) ∧
    p.AttributesPlain ∧ tupleSource.AttributesNamed ∧ p.ParametersApart tupleSource ∧
    n ∈ tupleSource.nodes ∧ p.matchAt? tupleSource.text n = none ∧
    ((p.rename erasingFirst).matchAt? tupleSource.text n).isSome = true := by
  have honce : erasingFirst.Once (Segment.written (!Config.default.caseSensitive) lookalikeText) := by
    decide +kernel
  have hrespell : Segment.respell erasingFirst (!Config.default.caseSensitive) lookalikeText =
      "(('_, __ssr_var_0__), '_z);".toList := by
    decide +kernel
  have hnamed : tupleSource.AttributesNamed := by
    decide +kernel
  have h : ((compile tupleGrammar .default lookalikeText).toOption.bind fun p =>
      tupleSource.nodes[1]?.map fun n => decide (p.AttributesPlain ∧ p.ParametersApart tupleSource ∧
        (p.matchAt? tupleSource.text n).isSome = false ∧
          ((p.rename erasingFirst).matchAt? tupleSource.text n).isSome = true)) = some true := by
    decide +kernel
  simp only [Option.bind_eq_some_iff, Option.map_eq_some_iff, decide_eq_true_eq] at h
  obtain ⟨p, hp, n, hn, hplain, hapart, hnone, hsome⟩ := h
  have hp := ok_of_toOption hp
  have hcompile := compile_respell tupleGrammar honce
  rw [hp, hrespell] at hcompile
  obtain ⟨p', hp', rfl⟩ := hcompile.exists_ok
  exact ⟨p, n, honce, hp, hrespell, hp', hplain, hnamed, hapart, List.mem_of_getElem? hn,
    Option.isNone_iff_eq_none.mp (Option.isSome_eq_false_iff.mp hnone), hsome⟩

end Pattern

end ShapeSearch
