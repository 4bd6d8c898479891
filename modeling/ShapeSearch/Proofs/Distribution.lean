import ShapeSearch.Proofs.Segmentation

namespace ShapeSearch

namespace Comparison

open Attempt

variable {P W C σ : Type} {k : Comparison P W C σ} {offset : Nat} {ws : List W} {ps : List P}
  {s t u : σ}

def putIn (cs : List C) (places : List Nat) (j : Nat) : List C :=
  ((cs.zip places).filter fun x => x.2 == j).map (·.1)

def leftover (xs partners : List (C × Nat)) : List C :=
  (xs.filter fun x => !(partners.map (·.2)).contains x.2).map (·.1)

/-- Each pattern has a candidate of its own for a partner, and each candidate that is left has a
place in the run of one of the wildcards. The comparisons with the partners succeed in the order of
the patterns, and then the runs can be bound in the order of the wildcards. -/
structure Solution (k : Comparison P W C σ) (offset : Nat) (ws : List W) (ps : List P)
    (xs partners : List (C × Nat)) (places : List Nat) (s t : σ) : Prop where
  paired : partners.length = ps.length
  apart : (partners.map (·.2)).Nodup
  subset : partners ⊆ xs
  shared : places.length = (leftover xs partners).length
  placed : ∀ j ∈ places, j < ws.length
  succeeds : ∃ u, all (List.zipWith (fun p x => k.one p x.1) ps partners) s = (true, u) ∧
    k.bindRuns offset (ws.mapIdx fun j w => (w, putIn (leftover xs partners) places j)) u =
      (true, t)

section Share

/-- A wildcard binds no more candidates than its quantifier allows, and none that it does not
take. -/
def Bounded (k : Comparison P W C σ) : Prop :=
  ∀ w cs offset s, (k.run w cs offset s).1 = true →
    cs.length ≤ (k.quantifier w).max ∧ ∀ c ∈ cs, k.takes w c = true

def put (c : C) (x : W × List C) : W × List C :=
  (x.1, x.2 ++ [c])

def hasRoom (k : Comparison P W C σ) (c : C) (x : W × List C) : Bool :=
  x.2.length < (k.quantifier x.1).max && k.takes x.1 c

theorem placements_eq (k : Comparison P W C σ) (c : C) (runs : List (W × List C)) :
    k.placements c runs =
      ((List.range runs.length).filter fun j => runs[j]?.any (k.hasRoom c)).map
        fun j => runs.modify j (put c) := by
  induction runs with
  | nil => rfl
  | cons x runs ih =>
      obtain ⟨w, taken⟩ := x
      rw [placements, ih, List.length_cons, List.range_succ_eq_map, List.filter_cons]
      simp only [List.getElem?_cons_zero, Option.any_some, hasRoom, List.filter_map, List.map_map]
      split <;> simp [Function.comp_def, put, List.modify]

theorem putIn_cons (c : C) (cs : List C) (j : Nat) (places : List Nat) (i : Nat) :
    putIn (c :: cs) (j :: places) i = (if j = i then [c] else []) ++ putIn cs places i := by
  simp only [putIn, List.zip_cons_cons, List.filter_cons, beq_iff_eq]
  split <;> rfl

theorem mapIdx_modify_put (c : C) (cs : List C) (j : Nat) (places : List Nat)
    (runs : List (W × List C)) :
    ((runs.modify j (put c)).mapIdx fun i x => (x.1, x.2 ++ putIn cs places i)) =
      runs.mapIdx fun i x => (x.1, x.2 ++ putIn (c :: cs) (j :: places) i) := by
  apply List.ext_getElem?
  intro i
  simp only [List.getElem?_mapIdx, List.getElem?_modify, putIn_cons]
  cases runs[i]? with
  | none => rfl
  | some x => by_cases hij : j = i <;> simp [hij, put]

theorem exists_of_all_eq_true {as : List (Attempt σ)} (h : all as s = (true, t)) {a : Attempt σ}
    (ha : a ∈ as) : ∃ u, (a u).1 = true := by
  induction as generalizing s with
  | nil => cases ha
  | cons b as ih =>
      obtain ⟨u, hu, ht⟩ := andThen_eq_true h
      rcases List.mem_cons.mp ha with rfl | ha
      · exact ⟨s, by rw [hu]⟩
      · exact ih ht ha

theorem Bounded.hasRoom (hk : k.Bounded) {runs : List (W × List C)} {c : C} {cs : List C} {j : Nat}
    {places : List Nat} (hj : j < runs.length)
    (h : k.bindRuns offset
      (runs.mapIdx fun i x => (x.1, x.2 ++ putIn (c :: cs) (j :: places) i)) s =
      (true, t)) : runs[j]?.any (k.hasRoom c) = true := by
  rw [List.getElem?_eq_getElem hj, Option.any_some]
  generalize hx : runs[j] = x
  have hmem : (x.1, x.2 ++ (c :: putIn cs places j)) ∈
      runs.mapIdx fun i x => (x.1, x.2 ++ putIn (c :: cs) (j :: places) i) := by
    refine List.mem_mapIdx.mpr ⟨j, hj, ?_⟩
    rw [hx, putIn_cons, if_pos rfl, List.singleton_append]
  obtain ⟨v, hv⟩ := exists_of_all_eq_true h (List.mem_map_of_mem hmem)
  obtain ⟨hlength, htakes⟩ := hk _ _ _ _ hv
  rw [List.length_append, List.length_cons] at hlength
  rw [Comparison.hasRoom, Bool.and_eq_true, decide_eq_true_eq]
  exact ⟨by omega, htakes c (by simp)⟩

/-- No place is passed over in which a candidate could be bound in the end. -/
theorem share_finds (hk : k.Bounded) (offset : Nat) (cs : List C) (runs : List (W × List C)) :
    Finds (· < ·) (fun s places t => places.length = cs.length ∧ (∀ j ∈ places, j < runs.length) ∧
        k.bindRuns offset (runs.mapIdx fun j x => (x.1, x.2 ++ putIn cs places j)) s = (true, t))
      (k.share offset cs runs) := by
  induction cs generalizing runs with
  | nil =>
      refine (Finds.only (.step _ (k.bindRuns offset runs))).congr fun s v t => ?_
      have hnone : (runs.mapIdx fun j x => (x.1, x.2 ++ putIn ([] : List C) v j)) = runs := by
        apply List.ext_getElem?
        intro j
        simp [putIn]
      rw [hnone, List.length_nil, List.length_eq_zero_iff]
      constructor
      · rintro ⟨hv, -, h⟩
        exact ⟨hv, h⟩
      · rintro ⟨rfl, h⟩
        exact ⟨rfl, by simp, h⟩
  | cons c cs ih =>
      have hpairwise := (List.pairwise_lt_range (n := runs.length)).filter
        fun j => runs[j]?.any (k.hasRoom c)
      have hfinds := Finds.firstOf id (fun i j hij => Nat.lt_asymm hij) hpairwise
        fun j _ => ih (runs.modify j (put c))
      rw [share, placements_eq, List.map_map]
      refine hfinds.congr fun s v t => ?_
      simp only [mapIdx_modify_put, List.length_modify, List.mem_filter, List.mem_range, id]
      constructor
      · rintro ⟨hlength, hlt, h⟩
        cases v with
        | nil => cases hlength
        | cons j v =>
            rw [List.forall_mem_cons] at hlt
            exact ⟨j, ⟨hlt.1, hk.hasRoom hlt.1 h⟩, v, rfl, Nat.succ.inj hlength, hlt.2, h⟩
      · rintro ⟨j, ⟨hj, -⟩, v, rfl, hlength, hlt, h⟩
        exact ⟨congrArg Nat.succ hlength, List.forall_mem_cons.mpr ⟨hj, hlt⟩, h⟩

end Share

section Pair

theorem map_fst_selections (cs : List C) : (selections cs).map Prod.fst = cs := by
  induction cs with
  | nil => rfl
  | cons c cs ih => simpa [selections, Function.comp_def] using ih

theorem selections_rest {xs : List (C × Nat)} (hxs : (xs.map (·.2)).Nodup) {x : C × Nat}
    {rest : List (C × Nat)} (h : (x, rest) ∈ selections xs) :
    rest = xs.filter fun y => y.2 != x.2 := by
  induction xs generalizing x rest with
  | nil => cases h
  | cons y xs ih =>
      rw [List.map_cons, List.nodup_cons] at hxs
      simp only [selections, List.mem_cons, Prod.mk.injEq, List.mem_map] at h
      rcases h with ⟨rfl, rfl⟩ | ⟨⟨z, rest'⟩, hz, rfl, rfl⟩
      · rw [List.filter_cons_of_neg (by simp), List.filter_eq_self.mpr]
        intro z hz
        rw [bne_iff_ne]
        intro heq
        exact hxs.1 (heq ▸ List.mem_map_of_mem hz)
      · have hzxs : z ∈ xs := (selections_spec hz).1.subset List.mem_cons_self
        have hne : (y.2 != z.2) = true := by
          rw [bne_iff_ne]
          intro heq
          exact hxs.1 (heq ▸ List.mem_map_of_mem hzxs)
        rw [List.filter_cons, if_pos hne, ← ih hxs.2 hz]

theorem leftover_cons (xs : List (C × Nat)) (x : C × Nat) (partners : List (C × Nat)) :
    leftover xs (x :: partners) = leftover (xs.filter fun y => y.2 != x.2) partners := by
  simp only [leftover, List.filter_filter, List.map_cons, List.contains_cons]
  congr 1
  apply List.filter_congr
  intro y _
  rw [Bool.not_or, Bool.and_comm]
  rfl

theorem pairUp_nil (k : Comparison P W C σ) (offset : Nat) (ws : List W) (cs : List C) :
    k.pairUp offset ws [] cs = k.share offset cs (ws.map (·, [])) := by
  cases ws with
  | nil => cases cs <;> rfl
  | cons w ws => rfl

theorem solution_nil_iff {xs partners : List (C × Nat)} {places : List Nat} :
    k.Solution offset ws [] xs partners places s t ↔ partners = [] ∧
      places.length = (xs.map (·.1)).length ∧ (∀ j ∈ places, j < ws.length) ∧
      k.bindRuns offset (ws.mapIdx fun j w => (w, putIn (xs.map (·.1)) places j)) s =
        (true, t) := by
  have hleftover : leftover xs [] = xs.map (·.1) := by simp [leftover]
  constructor
  · intro h
    have hnil := List.eq_nil_of_length_eq_zero h.paired
    subst hnil
    obtain ⟨u, hu, ht⟩ := h.succeeds
    have hsu : s = u := congrArg Prod.snd hu
    rw [← hleftover, hsu]
    exact ⟨rfl, h.shared, h.placed, ht⟩
  · rintro ⟨rfl, hlength, hlt, ht⟩
    rw [← hleftover] at hlength ht
    exact ⟨rfl, List.nodup_nil, List.nil_subset xs, hlength, hlt, s, rfl, ht⟩

theorem solution_cons_iff {p : P} {xs : List (C × Nat)} (hxs : (xs.map (·.2)).Nodup)
    {partners : List (C × Nat)} {places : List Nat} :
    k.Solution offset ws (p :: ps) xs partners places s t ↔
      ∃ y ∈ selections xs, ∃ others, partners = y.1 :: others ∧
        ∃ u, k.one p y.1.1 s = (true, u) ∧ k.Solution offset ws ps y.2 others places u t := by
  constructor
  · rintro ⟨hpaired, hapart, hsubset, hshared, hplaced, v, hv, ht⟩
    cases partners with
    | nil => cases hpaired
    | cons x others =>
        rw [List.cons_subset] at hsubset
        rw [List.map_cons, List.nodup_cons] at hapart
        obtain ⟨⟨_, rest⟩, hsel, rfl⟩ := List.mem_map.mp
          ((map_fst_selections xs).symm ▸ hsubset.1 : x ∈ (selections xs).map Prod.fst)
        have hrest := selections_rest hxs hsel
        rw [leftover_cons, ← hrest] at hshared ht
        obtain ⟨u, hu, huv⟩ := andThen_eq_true hv
        refine ⟨_, hsel, others, rfl, u, hu, Nat.succ.inj hpaired, hapart.2, ?_, hshared, hplaced,
          v, huv, ht⟩
        intro y hy
        rw [hrest, List.mem_filter, bne_iff_ne]
        exact ⟨hsubset.2 hy, fun heq => hapart.1 (heq ▸ List.mem_map_of_mem hy)⟩
  · rintro ⟨⟨x, rest⟩, hsel, others, rfl, u, hu, hpaired, hapart, hsubset, hshared, hplaced, v, hv,
      ht⟩
    have hrest := selections_rest hxs hsel
    have hx : x ∈ xs := (selections_spec hsel).1.subset List.mem_cons_self
    have hothers {y : C × Nat} (hy : y ∈ others) : y ∈ xs ∧ y.2 ≠ x.2 := by
      have hmem := hsubset hy
      rwa [hrest, List.mem_filter, bne_iff_ne] at hmem
    rw [hrest, ← leftover_cons] at hshared ht
    refine ⟨congrArg Nat.succ hpaired, ?_, ?_, hshared, hplaced, v, ?_, ht⟩
    · rw [List.map_cons, List.nodup_cons]
      refine ⟨fun hmem => ?_, hapart⟩
      obtain ⟨y, hy, heq⟩ := List.mem_map.mp hmem
      exact (hothers hy).2 heq
    · exact List.cons_subset.mpr ⟨hx, fun y hy => (hothers hy).1⟩
    · rw [List.zipWith_cons_cons, all, andThen_apply, hu]
      exact hv

theorem pairUp_finds (hk : k.Bounded) (offset : Nat) (ws : List W) (ps : List P)
    {xs : List (C × Nat)} (hxs : (xs.map (·.2)).Pairwise (· < ·)) :
    Finds (· < ·) (fun s v t => ∃ partners places, v = partners.map (·.2) ++ places ∧
        k.Solution offset ws ps xs partners places s t)
      (k.pairUp offset ws ps (xs.map (·.1))) := by
  induction ps generalizing xs with
  | nil =>
      rw [pairUp_nil]
      refine (share_finds hk offset (xs.map (·.1)) (ws.map (·, []))).congr fun s v t => ?_
      have hruns (places : List Nat) :
          ((ws.map fun w => (w, ([] : List C))).mapIdx fun j x =>
            (x.1, x.2 ++ putIn (xs.map (·.1)) places j)) =
          ws.mapIdx fun j w => (w, putIn (xs.map (·.1)) places j) := by
        apply List.ext_getElem?
        intro j
        simp [Function.comp_def]
      simp only [solution_nil_iff, hruns, List.length_map]
      constructor
      · rintro ⟨_, places, rfl, rfl, h⟩
        exact h
      · intro h
        exact ⟨[], v, rfl, rfl, h⟩
  | cons p ps ih =>
      have hnodup : (xs.map (·.2)).Nodup := hxs.imp fun hlt => Nat.ne_of_lt hlt
      have hkeys : (selections xs).Pairwise fun y z => y.1.2 < z.1.2 := by
        rw [← map_fst_selections xs, List.map_map, List.pairwise_map] at hxs
        exact hxs
      have hfinds := Finds.firstOf (fun y : (C × Nat) × List (C × Nat) => y.1.2)
        (fun i j hij => Nat.lt_asymm hij) hkeys fun y hy => .andThen (k.one p y.1.1) (@ih y.2 ?_)
      · simp only [pairUp, selections_map, List.map_map]
        refine hfinds.congr fun s v t => ?_
        simp only [solution_cons_iff hnodup]
        constructor
        · rintro ⟨_, places, rfl, y, hy, others, rfl, u, hu, h⟩
          exact ⟨y, hy, _, rfl, u, hu, others, places, rfl, h⟩
        · rintro ⟨y, hy, _, rfl, u, hu, others, places, rfl, h⟩
          exact ⟨y.1 :: others, places, rfl, y, hy, others, rfl, u, hu, h⟩
      · exact hxs.sublist ((selections_spec hy).2.map _)

theorem eq_of_map_snd_eq {cs : List C} {xs ys : List (C × Nat)} (hxs : xs ⊆ cs.zipIdx)
    (hys : ys ⊆ cs.zipIdx) (h : xs.map (·.2) = ys.map (·.2)) : xs = ys := by
  have hget {zs : List (C × Nat)} (hzs : zs ⊆ cs.zipIdx) :
      zs.map (fun z => (z.1, z.2)) = (zs.map (·.2)).filterMap fun i => cs[i]?.map (·, i) := by
    rw [List.filterMap_map, ← List.filterMap_eq_map]
    apply List.filterMap_congr
    intro z hz
    have hmem := List.mem_zipIdx_iff_getElem?.mp (hzs hz)
    simp [hmem]
  have heq := (hget hxs).trans ((congrArg _ h).trans (hget hys).symm)
  simpa using heq

theorem Solution.unique {cs : List C} {xs ys : List (C × Nat)} {places places' : List Nat}
    (h : k.Solution offset ws ps cs.zipIdx xs places s t)
    (h' : k.Solution offset ws ps cs.zipIdx ys places' s u)
    (heq : xs.map (·.2) ++ places = ys.map (·.2) ++ places') : t = u := by
  obtain ⟨hindices, rfl⟩ := List.append_inj heq (by
    rw [List.length_map, List.length_map, h.paired, h'.paired])
  obtain rfl := eq_of_map_snd_eq h.subset h'.subset hindices
  obtain ⟨v, hv, ht⟩ := h.succeeds
  obtain ⟨v', hv', hu⟩ := h'.succeeds
  rw [hv, Prod.mk.injEq] at hv'
  rw [← hv'.2, ht, Prod.mk.injEq] at hu
  exact hu.2

end Pair

end Comparison

namespace Pattern

open Comparison

variable {α : Type} [Listed α]

theorem comparison_bounded (source : Text) (one : α → α → Attempt Captures) :
    (comparison source one).Bounded := by
  intro w cs offset s h
  simp only [comparison, Wildcard.bindRun] at h
  split at h
  next hc =>
    simp only [Quantifier.admits, Bool.and_eq_true, decide_eq_true_eq, List.length_map,
      List.all_eq_true, List.mem_map, forall_exists_index, and_imp,
      forall_apply_eq_imp_iff₂] at hc
    exact ⟨hc.1.2, hc.2⟩
  next => cases h

/-- A way to use all candidates for the members of a list of a pattern. Partners are candidates with
their indices. -/
def Solution (p : Pattern) (source : Text) (one : α → α → Attempt Captures)
    (patterns candidates : List α) (parent : Node) (partners : List (α × Nat)) (places : List Nat)
    (s t : Captures) : Prop :=
  (comparison source one).Solution parent.start (Element.runs (patterns.map p.element))
    (Element.ones (patterns.map p.element)) candidates.zipIdx partners places s t

/-- A comparison in any order misses no way to use the candidates. It ends with the first one, by the
indices of the partners and then by the places of the candidates that are left. -/
theorem matchInAnyOrder_first (p : Pattern) (source : Text) (one : α → α → Attempt Captures)
    (a : α) (patterns candidates : List α) (parent : Node) (s : Captures) :
    ((p.matchInAnyOrder source one (a :: patterns) candidates parent s).1 = true ↔
      ∃ partners places t,
        p.Solution source one (a :: patterns) candidates parent partners places s t) ∧
    ∀ t, p.matchInAnyOrder source one (a :: patterns) candidates parent s = (true, t) ↔
      ∃ partners places,
        p.Solution source one (a :: patterns) candidates parent partners places s t ∧
        ∀ others elsewhere u,
          p.Solution source one (a :: patterns) candidates parent others elsewhere s u →
          ¬ List.Lex (· < ·) (others.map (·.2) ++ elsewhere) (partners.map (·.2) ++ places) := by
  have hindices : (candidates.zipIdx.map (·.2)).Pairwise (· < ·) := by
    rw [List.zipIdx_map_snd]
    exact List.pairwise_lt_range' ..
  have hfinds := pairUp_finds (comparison_bounded source one) parent.start
    (Element.runs ((a :: patterns).map p.element)) (Element.ones ((a :: patterns).map p.element))
    hindices
  rw [List.zipIdx_map_fst] at hfinds
  constructor
  · refine hfinds.succeeds_iff.trans ?_
    constructor
    · rintro ⟨_, t, partners, places, rfl, h⟩
      exact ⟨partners, places, t, h⟩
    · rintro ⟨partners, places, t, h⟩
      exact ⟨_, t, partners, places, rfl, h⟩
  · intro t
    refine (hfinds.eq_true_iff ?_).trans ?_
    · rintro s v t u ⟨partners, places, rfl, h⟩ ⟨others, elsewhere, heq, h'⟩
      exact h.unique h' heq
    · constructor
      · rintro ⟨_, ⟨partners, places, rfl, h⟩, hfirst⟩
        exact ⟨partners, places, h, fun others elsewhere u h' =>
          hfirst _ u ⟨others, elsewhere, rfl, h'⟩⟩
      · rintro ⟨partners, places, h, hfirst⟩
        refine ⟨_, ⟨partners, places, rfl, h⟩, ?_⟩
        rintro _ u ⟨others, elsewhere, rfl, h'⟩
        exact hfirst others elsewhere u h'

end Pattern

end ShapeSearch
