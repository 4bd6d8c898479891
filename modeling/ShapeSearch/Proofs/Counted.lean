import ShapeSearch.Proofs.Trials

namespace ShapeSearch

/-- Two lists that together make up a third, in which each keeps its order. -/
inductive Interleaved {C : Type} : List C → List C → List C → Prop
  | nil : Interleaved [] [] []
  | left (c : C) {xs ys zs : List C} (h : Interleaved xs ys zs) : Interleaved (c :: xs) ys (c :: zs)
  | right (c : C) {xs ys zs : List C} (h : Interleaved xs ys zs) : Interleaved xs (c :: ys) (c :: zs)

namespace Interleaved

variable {C : Type} {c : C} {us vs xs ys zs : List C}

theorem nil_left (zs : List C) : Interleaved [] zs zs := by
  induction zs with
  | nil => exact .nil
  | cons c zs ih => exact .right c ih

theorem eq_of_nil_left (h : Interleaved [] ys zs) : ys = zs := by
  induction zs generalizing ys with
  | nil => cases h; rfl
  | cons c zs ih =>
      cases h with
      | right _ h => rw [ih h]

theorem perm (h : Interleaved xs ys zs) : (xs ++ ys).Perm zs := by
  induction h with
  | nil => exact .nil
  | left c _ ih => exact ih.cons c
  | right c _ ih => exact List.perm_middle.trans (ih.cons c)

theorem exchange (h : Interleaved xs ys zs) (h' : Interleaved us vs ys) :
    ∃ ws, Interleaved us ws zs ∧ Interleaved xs vs ws := by
  induction h generalizing us vs with
  | nil =>
      cases h'
      exact ⟨[], .nil, .nil⟩
  | left c _ ih =>
      obtain ⟨ws, hus, hxs⟩ := ih h'
      exact ⟨c :: ws, .right c hus, .left c hxs⟩
  | right c _ ih =>
      cases h' with
      | left _ h' =>
          obtain ⟨ws, hus, hxs⟩ := ih h'
          exact ⟨ws, .left c hus, hxs⟩
      | right _ h' =>
          obtain ⟨ws, hus, hxs⟩ := ih h'
          exact ⟨c :: ws, .right c hus, .right c hxs⟩

theorem merge (h : Interleaved xs ys zs) (h' : Interleaved us vs ys) :
    ∃ ws, Interleaved xs us ws ∧ Interleaved ws vs zs := by
  induction h generalizing us vs with
  | nil =>
      cases h'
      exact ⟨[], .nil, .nil⟩
  | left c _ ih =>
      obtain ⟨ws, hxs, hvs⟩ := ih h'
      exact ⟨c :: ws, .left c hxs, .left c hvs⟩
  | right c _ ih =>
      cases h' with
      | left _ h' =>
          obtain ⟨ws, hxs, hvs⟩ := ih h'
          exact ⟨c :: ws, .right c hxs, .left c hvs⟩
      | right _ h' =>
          obtain ⟨ws, hxs, hvs⟩ := ih h'
          exact ⟨ws, hxs, .right c hvs⟩

theorem of_cons (h : Interleaved (c :: us) vs zs) :
    ∃ ys, Interleaved [c] ys zs ∧ Interleaved us vs ys := by
  induction zs generalizing vs with
  | nil => cases h
  | cons d zs ih =>
      cases h with
      | left _ h => exact ⟨zs, .left c (nil_left zs), h⟩
      | right _ h =>
          obtain ⟨ys, hc, hus⟩ := ih h
          exact ⟨d :: ys, .right d hc, .right d hus⟩

end Interleaved

namespace Element

variable {P W : Type}

@[simp] theorem ones_append (es fs : List (Element P W)) : ones (es ++ fs) = ones es ++ ones fs := by
  induction es with
  | nil => rfl
  | cons e es ih => cases e <;> simp [ones, ih]

@[simp] theorem runs_append (es fs : List (Element P W)) : runs (es ++ fs) = runs es ++ runs fs := by
  induction es with
  | nil => rfl
  | cons e es ih => cases e <;> simp [runs, ih]

end Element

namespace Comparison

open Attempt

variable {P W C σ : Type} {k : Comparison P W C σ}

theorem mem_selections_iff {c : C} {rest cs : List C} :
    (c, rest) ∈ selections cs ↔ Interleaved [c] rest cs := by
  induction cs generalizing rest with
  | nil => exact iff_of_false (fun h => nomatch h) (fun h => nomatch h)
  | cons d cs ih =>
      simp only [selections, List.mem_cons, Prod.mk.injEq, List.mem_map, Prod.exists]
      constructor
      · rintro (⟨rfl, rfl⟩ | ⟨c', rest', h, rfl, rfl⟩)
        · exact .left c (.nil_left rest)
        · exact .right d (ih.mp h)
      · intro h
        cases h with
        | left _ h => exact .inl ⟨rfl, h.eq_of_nil_left⟩
        | right _ h => exact .inr ⟨c, _, ih.mpr h, rfl, rfl⟩

section Draws

/-- So many candidates of one kind can be taken out that what is left has a property. -/
def Draws (kind : C → Prop) (n : Nat) (F : List C → Prop) (cs : List C) : Prop :=
  ∃ taken rest, Interleaved taken rest cs ∧ taken.length = n ∧ (∀ c ∈ taken, kind c) ∧ F rest

variable {kind : C → Prop} {F : List C → Prop} {n : Nat} {c : C} {cs : List C}

theorem draws_zero_iff : Draws kind 0 F cs ↔ F cs := by
  constructor
  · rintro ⟨taken, rest, h, hlength, -, hF⟩
    obtain rfl := List.length_eq_zero_iff.mp hlength
    exact h.eq_of_nil_left ▸ hF
  · exact fun hF => ⟨[], cs, .nil_left cs, rfl, by simp, hF⟩

theorem draws_succ_iff :
    Draws kind (n + 1) F cs ↔ ∃ x ∈ selections cs, kind x.1 ∧ Draws kind n F x.2 := by
  constructor
  · rintro ⟨taken, rest, h, hlength, hkind, hF⟩
    obtain ⟨c, taken, rfl⟩ := List.exists_of_length_succ taken hlength
    obtain ⟨ys, hc, htaken⟩ := h.of_cons
    rw [List.forall_mem_cons] at hkind
    exact ⟨(c, ys), mem_selections_iff.mpr hc, hkind.1, taken, rest, htaken, Nat.succ.inj hlength,
      hkind.2, hF⟩
  · rintro ⟨⟨c, ys⟩, hc, hkindc, taken, rest, htaken, rfl, hkind, hF⟩
    obtain ⟨ws, hws, hrest⟩ := (mem_selections_iff.mp hc).merge htaken
    refine ⟨ws, rest, hrest, hws.perm.length_eq.symm, fun d hd => ?_, hF⟩
    rcases List.mem_cons.mp (hws.perm.symm.subset hd) with rfl | hd
    · exact hkindc
    · exact hkind d hd

theorem draws_selections_iff {Q : C → Prop} {G : C → List C → Prop} :
    Draws kind n (fun rest => ∃ x ∈ selections rest, Q x.1 ∧ G x.1 x.2) cs ↔
      ∃ x ∈ selections cs, Q x.1 ∧ Draws kind n (G x.1) x.2 := by
  constructor
  · rintro ⟨taken, rest, h, hlength, hkind, ⟨c, ys⟩, hc, hQ, hG⟩
    obtain ⟨ws, hws, htaken⟩ := h.exchange (mem_selections_iff.mp hc)
    exact ⟨(c, ws), mem_selections_iff.mpr hws, hQ, taken, ys, htaken, hlength, hkind, hG⟩
  · rintro ⟨⟨c, ys⟩, hc, hQ, taken, rest, h, hlength, hkind, hG⟩
    obtain ⟨ws, hws, hrest⟩ := (mem_selections_iff.mp hc).exchange h
    exact ⟨taken, ws, hws, hlength, hkind, (c, rest), mem_selections_iff.mpr hrest, hQ, hG⟩

theorem draws_exists_iff {ι : Type} {is : List ι} {G : ι → List C → Prop} :
    Draws kind n (fun rest => ∃ i ∈ is, G i rest) cs ↔ ∃ i ∈ is, Draws kind n (G i) cs := by
  constructor
  · rintro ⟨taken, rest, h, hlength, hkind, i, hi, hG⟩
    exact ⟨i, hi, taken, rest, h, hlength, hkind, hG⟩
  · rintro ⟨i, hi, taken, rest, h, hlength, hkind, hG⟩
    exact ⟨taken, rest, h, hlength, hkind, i, hi, hG⟩

theorem draws_cons_iff :
    Draws kind n F (c :: cs) ↔ Draws kind n (fun rest => F (c :: rest)) cs ∨
      ∃ m, n = m + 1 ∧ kind c ∧ Draws kind m F cs := by
  constructor
  · rintro ⟨taken, rest, h, rfl, hkind, hF⟩
    cases h with
    | left _ h =>
        rw [List.forall_mem_cons] at hkind
        exact .inr ⟨_, rfl, hkind.1, _, rest, h, rfl, hkind.2, hF⟩
    | right _ h => exact .inl ⟨taken, _, h, rfl, hkind, hF⟩
  · rintro (⟨taken, rest, h, hlength, hkind, hF⟩ | ⟨m, rfl, hc, taken, rest, h, rfl, hkind, hF⟩)
    · exact ⟨taken, c :: rest, .right c h, hlength, hkind, hF⟩
    · exact ⟨c :: taken, rest, .left c h, rfl, List.forall_mem_cons.mpr ⟨hc, hkind⟩, hF⟩

end Draws

/-- A wildcard that binds nothing and stands for exactly so many candidates. -/
structure Counts (k : Comparison P W C σ) (w : W) (n : Nat) : Prop where
  quantifier : k.quantifier w = ⟨n, n⟩
  run (cs : List C) (offset : Nat) :
    k.run w cs offset = test (decide (cs.length = n) && cs.all (k.takes w))

/-- A pattern that binds nothing and asks of its candidate what a wildcard asks. -/
def Stands (k : Comparison P W C σ) (w : W) (p : P) : Prop :=
  ∀ c, k.one p c = test (k.takes w c)

section InOrder

variable {w : W} {n fallback : Nat}

theorem firstOf_only {a : Attempt σ} (ha : Restores a) : firstOf [a] = a := by
  funext s
  rw [firstOf_cons]
  split
  · rfl
  next h =>
    rw [Bool.not_eq_true] at h
    exact Prod.ext h.symm (ha s h).symm

theorem andThen_test (b : Bool) (a : Attempt σ) :
    (test b).andThen a = if b then a else fail := by
  cases b <;> rfl

theorem lengths_counted (n m : Nat) :
    Quantifier.lengths ⟨n, n⟩ m = if n ≤ m then [n] else [] := by
  have hmin : Nat.min n m = n ⊓ m := rfl
  simp only [Quantifier.lengths, hmin]
  split
  next h => simp [Nat.min_eq_left h]
  next h => simp [Nat.min_eq_right (Nat.le_of_not_le h), Nat.sub_eq_zero_of_le (Nat.lt_of_not_le h)]

theorem inOrder_counts (hw : k.Counts w n) (es : List (Element P W)) (cs : List C) :
    k.inOrder fallback (.run w :: es) cs =
      if n ≤ cs.length ∧ (cs.take n).all (k.takes w) then k.inOrder fallback es (cs.drop n)
      else fail := by
  rw [inOrder, hw.quantifier, lengths_counted]
  by_cases hn : n ≤ cs.length
  · rw [if_pos hn, List.map_cons, List.map_nil, hw.run, andThen_test, List.length_take,
      Nat.min_eq_left hn, decide_eq_true rfl, Bool.true_and, firstOf_only]
    · simp only [hn, true_and]
    · split
      · exact k.inOrder_restores _ _ _
      · exact test_restores false
  · rw [if_neg hn, if_neg (fun h => hn h.1)]
    rfl

theorem inOrder_stands {ps : List P} (hps : ∀ p ∈ ps, k.Stands w p) (es : List (Element P W))
    (cs : List C) :
    k.inOrder fallback (ps.map .one ++ es) cs =
      if ps.length ≤ cs.length ∧ (cs.take ps.length).all (k.takes w) then
        k.inOrder fallback es (cs.drop ps.length)
      else fail := by
  induction ps generalizing cs with
  | nil => simp
  | cons p ps ih =>
      cases cs with
      | nil => simp [inOrder]
      | cons c cs =>
          rw [List.map_cons, List.cons_append, inOrder, hps p List.mem_cons_self c, andThen_test,
            ih fun q hq => hps q (List.mem_cons_of_mem p hq), firstOf_only]
          · by_cases hc : k.takes w c = true <;> simp [hc]
          · split
            · split
              · exact k.inOrder_restores _ _ _
              · exact test_restores false
            · exact test_restores false

theorem inOrder_append_congr {es fs : List (Element P W)}
    (h : ∀ cs, k.inOrder fallback es cs = k.inOrder fallback fs cs) (before : List (Element P W))
    (cs : List C) :
    k.inOrder fallback (before ++ es) cs = k.inOrder fallback (before ++ fs) cs := by
  induction before generalizing cs with
  | nil => exact h cs
  | cons e before ih =>
      cases e with
      | one p =>
          cases cs with
          | nil => rfl
          | cons c cs => simp only [List.cons_append, inOrder, ih]
      | run w => simp only [List.cons_append, inOrder, ih]

theorem inOrder_counted {ps : List P} (hw : k.Counts w ps.length) (hps : ∀ p ∈ ps, k.Stands w p)
    (before after : List (Element P W)) (cs : List C) :
    k.inOrder fallback (before ++ .run w :: after) cs =
      k.inOrder fallback (before ++ (ps.map .one ++ after)) cs :=
  inOrder_append_congr (fun cs => (inOrder_counts hw after cs).trans
    (inOrder_stands hps after cs).symm) before cs

end InOrder

section AnyOrder

variable {w : W} {n offset : Nat} {s : σ}

theorem placements_append (c : C) (xs ys : List (W × List C)) :
    k.placements c (xs ++ ys) =
      (k.placements c xs).map (· ++ ys) ++ (k.placements c ys).map (xs ++ ·) := by
  induction xs with
  | nil => simp [placements]
  | cons x xs ih =>
      simp only [List.cons_append, placements, ih, List.map_append, List.append_assoc, List.map_map]
      split <;> simp [Function.comp_def]

theorem exists_mem_placements_iff {c : C} {taken : List C} {xs ys : List (W × List C)}
    {Q : List (W × List C) → Prop} :
    (∃ runs ∈ k.placements c (xs ++ (w, taken) :: ys), Q runs) ↔
      (k.hasRoom c (w, taken) = true ∧ Q (xs ++ (w, taken ++ [c]) :: ys)) ∨
      (∃ xs' ∈ k.placements c xs, Q (xs' ++ (w, taken) :: ys)) ∨
      ∃ ys' ∈ k.placements c ys, Q (xs ++ (w, taken) :: ys') := by
  simp only [placements_append, placements, List.mem_append, List.mem_map, or_and_right, exists_or,
    exists_exists_and_eq_and]
  rw [or_left_comm]
  refine or_congr ?_ Iff.rfl
  change _ ↔ (decide _ && _) = true ∧ _
  split <;> simp_all

theorem share_nil_succeeds_iff {runs : List (W × List C)} :
    (k.share offset [] runs s).1 = true ↔ (k.bindRuns offset runs s).1 = true := by
  simp [share, firstOf_succeeds_iff]

theorem share_cons_succeeds_iff {c : C} {cs : List C} {runs : List (W × List C)} :
    (k.share offset (c :: cs) runs s).1 = true ↔
      ∃ next ∈ k.placements c runs, (k.share offset cs next s).1 = true := by
  simp [share, firstOf_succeeds_iff]

theorem draws_share_cons_iff {kind : C → Prop} {c : C} {cs : List C} {xs ys : List (W × List C)} :
    Draws kind n (fun rest => (k.share offset (c :: rest) (xs ++ ys) s).1 = true) cs ↔
      (∃ xs' ∈ k.placements c xs,
        Draws kind n (fun rest => (k.share offset rest (xs' ++ ys) s).1 = true) cs) ∨
      ∃ ys' ∈ k.placements c ys,
        Draws kind n (fun rest => (k.share offset rest (xs ++ ys') s).1 = true) cs := by
  have hnext : Draws kind n (fun rest => (k.share offset (c :: rest) (xs ++ ys) s).1 = true) cs ↔
      ∃ next ∈ k.placements c (xs ++ ys),
        Draws kind n (fun rest => (k.share offset rest next s).1 = true) cs := by
    simp only [share_cons_succeeds_iff, draws_exists_iff]
  rw [hnext, placements_append]
  simp only [List.mem_append, List.mem_map, or_and_right, exists_or, exists_exists_and_eq_and]

theorem all_test_succeeds_iff (as bs : List (Attempt σ)) (b : Bool) :
    (all (as ++ test b :: bs) s).1 = true ↔ b = true ∧ (all (as ++ bs) s).1 = true := by
  induction as generalizing s with
  | nil => cases b <;> simp [all, andThen_test, fail]
  | cons a as ih =>
      rw [List.cons_append, List.cons_append, all, all, andThen_succeeds_iff, andThen_succeeds_iff,
        ih, and_left_comm]

theorem bindRuns_counts_iff (hw : k.Counts w n) {taken : List C}
    (htaken : ∀ c ∈ taken, k.takes w c = true) (xs ys : List (W × List C)) :
    (k.bindRuns offset (xs ++ (w, taken) :: ys) s).1 = true ↔
      taken.length = n ∧ (k.bindRuns offset (xs ++ ys) s).1 = true := by
  simp only [bindRuns, List.map_append, List.map_cons, hw.run, all_test_succeeds_iff,
    List.all_eq_true.mpr htaken, Bool.and_true, decide_eq_true_eq]

/-- The candidates that the wildcard is still to be given can be taken out, and the others shared out
without it. -/
theorem share_counts_iff (hw : k.Counts w n) {taken cs : List C}
    (htaken : ∀ c ∈ taken, k.takes w c = true) (xs ys : List (W × List C)) :
    (k.share offset cs (xs ++ (w, taken) :: ys) s).1 = true ↔
      ∃ m, taken.length + m = n ∧ Draws (k.takes w · = true) m
        (fun rest => (k.share offset rest (xs ++ ys) s).1 = true) cs := by
  induction cs generalizing taken xs ys with
  | nil =>
      rw [share_nil_succeeds_iff, bindRuns_counts_iff hw htaken]
      constructor
      · rintro ⟨hlength, h⟩
        exact ⟨0, hlength, draws_zero_iff.mpr (share_nil_succeeds_iff.mpr h)⟩
      · rintro ⟨m, hlength, drawn, rest, hinter, rfl, -, h⟩
        cases hinter
        exact ⟨hlength, share_nil_succeeds_iff.mp h⟩
  | cons c cs ih =>
      have hroom : k.hasRoom c (w, taken) = true ↔ taken.length < n ∧ k.takes w c = true := by
        simp [hasRoom, hw.quantifier]
      rw [share_cons_succeeds_iff, exists_mem_placements_iff]
      simp only [ih htaken, draws_cons_iff, draws_share_cons_iff, hroom]
      have hput (hc : k.takes w c = true) : ∀ d ∈ taken ++ [c], k.takes w d = true :=
        List.forall_mem_append.mpr ⟨htaken, by simpa using hc⟩
      constructor
      -- the candidate goes to this wildcard's run, or to one before it, or to one behind it
      · rintro (⟨⟨-, hc⟩, h⟩ | ⟨xs', hxs', m, hm, h⟩ | ⟨ys', hys', m, hm, h⟩)
        · obtain ⟨m, hm, h⟩ := (ih (hput hc) xs ys).mp h
          rw [List.length_append, List.length_singleton] at hm
          exact ⟨m + 1, by omega, .inr ⟨m, rfl, hc, h⟩⟩
        · exact ⟨m, hm, .inl (.inl ⟨xs', hxs', h⟩)⟩
        · exact ⟨m, hm, .inl (.inr ⟨ys', hys', h⟩)⟩
      · rintro ⟨m, hm, (⟨xs', hxs', h⟩ | ⟨ys', hys', h⟩) | ⟨m, rfl, hc, h⟩⟩
        · exact .inr (.inl ⟨xs', hxs', m, hm, h⟩)
        · exact .inr (.inr ⟨ys', hys', m, hm, h⟩)
        · refine .inl ⟨⟨by omega, hc⟩, (ih (hput hc) xs ys).mpr ⟨m, ?_, h⟩⟩
          rw [List.length_append, List.length_singleton]
          omega

theorem pairUp_cons_succeeds_iff {ws : List W} {p : P} {ps : List P} {cs : List C} :
    (k.pairUp offset ws (p :: ps) cs s).1 = true ↔ ∃ x ∈ selections cs,
      (k.one p x.1 s).1 = true ∧ (k.pairUp offset ws ps x.2 (k.one p x.1 s).2).1 = true := by
  simp only [pairUp, firstOf_succeeds_iff, List.mem_map, exists_exists_and_eq_and,
    andThen_succeeds_iff]

theorem pairUp_counts_iff (hw : k.Counts w n) (before after : List W) (ps : List P) (cs : List C) :
    (k.pairUp offset (before ++ w :: after) ps cs s).1 = true ↔
      Draws (k.takes w · = true) n
        (fun rest => (k.pairUp offset (before ++ after) ps rest s).1 = true) cs := by
  induction ps generalizing s cs with
  | nil =>
      simp only [pairUp_nil, List.map_append, List.map_cons]
      rw [share_counts_iff hw (by simp)]
      simp
  | cons p ps ih =>
      simp only [pairUp_cons_succeeds_iff, ih]
      exact (draws_selections_iff (Q := fun c => (k.one p c s).1 = true) (G := fun c rest =>
        (k.pairUp offset (before ++ after) ps rest (k.one p c s).2).1 = true)).symm

theorem pairUp_stands_iff {bs : List P} (hbs : ∀ b ∈ bs, k.Stands w b) (ws : List W) (ps : List P)
    (cs : List C) :
    (k.pairUp offset ws (bs ++ ps) cs s).1 = true ↔
      Draws (k.takes w · = true) bs.length
        (fun rest => (k.pairUp offset ws ps rest s).1 = true) cs := by
  induction bs generalizing cs with
  | nil => exact (draws_zero_iff (F := fun rest => (k.pairUp offset ws ps rest s).1 = true)).symm
  | cons b bs ih =>
      rw [List.cons_append, List.length_cons, draws_succ_iff, pairUp_cons_succeeds_iff]
      refine exists_congr fun x => and_congr_right fun _ => ?_
      rw [hbs b List.mem_cons_self, test, ih fun b' hb' => hbs b' (List.mem_cons_of_mem b hb')]

theorem pairUp_append_congr {ws ws' : List W} {ps qs : List P}
    (h : ∀ cs s, (k.pairUp offset ws ps cs s).1 = true ↔ (k.pairUp offset ws' qs cs s).1 = true)
    (before : List P) (cs : List C) (s : σ) :
    (k.pairUp offset ws (before ++ ps) cs s).1 = true ↔
      (k.pairUp offset ws' (before ++ qs) cs s).1 = true := by
  induction before generalizing cs s with
  | nil => exact h cs s
  | cons p before ih => simp only [List.cons_append, pairUp_cons_succeeds_iff, ih]

theorem anyOrder_counted {bs : List P} (hlength : bs ≠ []) (hw : k.Counts w bs.length)
    (hbs : ∀ b ∈ bs, k.Stands w b) (before after : List (Element P W)) (cs : List C) :
    (k.anyOrder offset (before ++ .run w :: after) cs s).1 =
      (k.anyOrder offset (before ++ (bs.map .one ++ after)) cs s).1 := by
  rw [anyOrder, if_neg (by simp), anyOrder, if_neg (by simp [hlength]), Bool.eq_iff_iff]
  simp only [Element.ones_append, Element.runs_append, Element.ones_map_one, Element.runs_map_one,
    Element.ones, Element.runs, List.nil_append]
  refine pairUp_append_congr (fun cs s => ?_) _ cs s
  rw [pairUp_counts_iff hw, pairUp_stands_iff hbs]

end AnyOrder

end Comparison

namespace Wildcard

open Attempt

variable {w : Wildcard} {source : Text}

theorem bindOne_nameless (hname : w.ofVariable.name = []) (skipped : Nat) (n : Node) :
    w.bindOne source skipped n = test (w.quantifier.max != 0 && w.accepts source skipped n) := by
  funext s
  rw [bindOne, hname]
  split
  next h => simp [Captures.bind, test, h]
  next h => simp [fail, test, h]

theorem bindRun_nameless (hname : w.ofVariable.name = []) (ns : List Node) (offset : Nat) :
    w.bindRun source ns offset =
      test (w.quantifier.admits ns.length && ns.all (w.accepts source 0)) := by
  funext s
  rw [bindRun, hname]
  split
  next h => simp [Captures.bind, test, h]
  next h => simp [fail, test, h]

/-- Two wildcards take the same nodes: one where the other does. -/
structure Alike (v w : Wildcard) : Prop where
  constraint : v.ofVariable.constraint = w.ofVariable.constraint
  parametersOnly : v.parametersOnly = w.parametersOnly

theorem Alike.accepts {v : Wildcard} (h : v.Alike w) (skipped : Nat) (n : Node) :
    v.accepts source skipped n = w.accepts source skipped n := by
  have htext : v.ofVariable.accepts = w.ofVariable.accepts := by
    funext t
    rw [Variable.accepts, Variable.accepts, h.constraint]
  rw [Wildcard.accepts, Wildcard.accepts, htext, h.parametersOnly]

end Wildcard

namespace Pattern

variable {p : Pattern} {source : Text}

/-- A wildcard of a list that has no name and stands for so many nodes. -/
structure Counted (p : Pattern) (a : Node) (w : Wildcard) (n : Nat) : Prop where
  wildcard : p.wildcard? a = some w
  name : w.ofVariable.name = []
  quantifier : w.quantifier = ⟨n, n⟩

theorem Counted.counts {a : Node} {w : Wildcard} {n : Nat} (h : p.Counted a w n) (source : Text)
    (one : Node → Node → Attempt Captures) : (comparison source one).Counts w n where
  quantifier := h.quantifier
  run cs offset := by
    have hadmits : w.quantifier.admits cs.length = decide (cs.length = n) := by
      rw [h.quantifier, Quantifier.admits, ← Bool.decide_and, decide_eq_decide]
      exact ⟨fun h => Nat.le_antisymm h.2 h.1, fun h => ⟨h.ge, h.le⟩⟩
    refine (Wildcard.bindRun_nameless h.name _ _).trans ?_
    rw [List.length_map, hadmits, List.all_map]
    rfl

theorem Counted.stands {b : Node} {v w : Wildcard} (h : p.Counted b v 1) (hvw : v.Alike w)
    (room : Nat) : (comparison source (p.compare source room)).Stands w b := by
  intro c
  change p.compare source room b c = _
  rw [compare_of_wildcard h.wildcard, Wildcard.bindOne_nameless h.name, h.quantifier, hvw.accepts]
  rfl

theorem Counted.element_run {a : Node} {w : Wildcard} {n : Nat} (h : p.Counted a w n) (hn : 2 ≤ n) :
    p.element a = .run w := by
  have hmany : w.quantifier.isSingle = false := by
    rw [h.quantifier, Quantifier.isSingle, Bool.and_eq_false_iff, beq_eq_false_iff_ne]
    exact .inl (Nat.ne_of_gt hn)
  simp [element, Listed.node?, h.wildcard, hmany]

theorem Counted.element_one {b : Node} {v : Wildcard} (h : p.Counted b v 1) :
    p.element b = .one b := by
  have hsingle : v.quantifier.isSingle = true := by rw [h.quantifier]; rfl
  simp [element, Listed.node?, h.wildcard, hsingle]

/-- A wildcard without a name that stands for so many nodes can be written out as so many wildcards
that each stand for one. Lists that keep their order are then compared to the same outcome and the
same captures, and lists in any order match in the same cases. -/
theorem counted_eq_repeated (p : Pattern) (source : Text) (room : Nat) {n : Nat} (hn : 2 ≤ n)
    {before after bs : List Node} {a : Node} {w : Wildcard} (ha : p.Counted a w n)
    (hlength : bs.length = n) (hbs : ∀ b ∈ bs, ∃ v, p.Counted b v 1 ∧ v.Alike w)
    (candidates : List Node) (parent : Node) (s : Captures) :
    p.matchInOrder source (p.compare source room) (before ++ a :: after) candidates parent s =
      p.matchInOrder source (p.compare source room) (before ++ bs ++ after) candidates parent s ∧
    (p.matchInAnyOrder source (p.compare source room) (before ++ a :: after) candidates parent s).1 =
      (p.matchInAnyOrder source (p.compare source room) (before ++ bs ++ after) candidates parent
        s).1 := by
  subst hlength
  have hcounts := ha.counts source (p.compare source room)
  have hstands : ∀ b ∈ bs, (comparison source (p.compare source room)).Stands w b := by
    intro b hb
    obtain ⟨v, hv, hvw⟩ := hbs b hb
    exact hv.stands hvw room
  have hcounted : (before ++ a :: after).map p.element =
      before.map p.element ++ .run w :: after.map p.element := by
    rw [List.map_append, List.map_cons, ha.element_run hn]
  have hrepeated : (before ++ bs ++ after).map p.element =
      before.map p.element ++ (bs.map .one ++ after.map p.element) := by
    rw [List.map_append, List.map_append, List.append_assoc]
    congr 2
    refine List.map_congr_left fun b hb => ?_
    obtain ⟨v, hv, -⟩ := hbs b hb
    exact hv.element_one
  constructor
  · rw [matchInOrder, matchInOrder, hcounted, hrepeated, Comparison.inOrder_counted hcounts hstands]
  · have hne : bs ≠ [] := by
      rintro rfl
      exact absurd hn (by simp)
    rw [matchInAnyOrder, matchInAnyOrder, hcounted, hrepeated,
      Comparison.anyOrder_counted hne hcounts hstands]

theorem counted_eq_repeated_tuples : ∃ p a b c w,
    compile tupleGrammar .default "(('_:{2}, '_), '_);".toList = .ok p ∧ p.Counted a w 2 ∧
    (∀ x ∈ [b, c], ∃ v, p.Counted x v 1 ∧ v.Alike w) ∧
    ∀ before after candidates parent s,
      p.matchInOrder tupleSource.text (p.compare tupleSource.text p.config.maxDepth)
          (before ++ a :: after) candidates parent s =
        p.matchInOrder tupleSource.text (p.compare tupleSource.text p.config.maxDepth)
          (before ++ [b, c] ++ after) candidates parent s ∧
      (p.matchInAnyOrder tupleSource.text (p.compare tupleSource.text p.config.maxDepth)
          (before ++ a :: after) candidates parent s).1 =
        (p.matchInAnyOrder tupleSource.text (p.compare tupleSource.text p.config.maxDepth)
          (before ++ [b, c] ++ after) candidates parent s).1 := by
  have h : ((compile tupleGrammar .default "(('_:{2}, '_), '_);".toList).toOption.map fun p =>
      (p.parsed.nodes.filter (·.kind == "identifier")).map fun n =>
        (p.wildcard? n).map fun w => (w.ofVariable, w.parametersOnly)) =
      some [some (⟨[], some ⟨2, 2⟩, none⟩, false), some (⟨[], none, none⟩, false),
        some (⟨[], none, none⟩, false)] := by
    decide +kernel
  simp only [Option.map_eq_some_iff, List.map_eq_cons_iff, Prod.mk.injEq] at h
  obtain ⟨p, hp, a, _, -, ⟨⟨_, _⟩, ha, rfl, rfl⟩, b, _, rfl, ⟨⟨_, _⟩, hb, rfl, rfl⟩, c, _, rfl,
    ⟨⟨_, _⟩, hc, rfl, rfl⟩, -⟩ := h
  have hcounted : p.Counted a _ 2 := ⟨ha, rfl, rfl⟩
  have hrepeated : ∀ x ∈ [b, c], ∃ v, p.Counted x v 1 ∧ v.Alike ⟨⟨[], some ⟨2, 2⟩, none⟩, false⟩ := by
    simp only [List.forall_mem_cons, List.not_mem_nil, false_imp_iff, implies_true, and_true]
    exact ⟨⟨_, ⟨hb, rfl, rfl⟩, rfl, rfl⟩, ⟨_, ⟨hc, rfl, rfl⟩, rfl, rfl⟩⟩
  exact ⟨p, a, b, c, _, ok_of_toOption hp, hcounted, hrepeated, fun _ _ candidates parent s =>
    p.counted_eq_repeated _ _ le_rfl hcounted rfl hrepeated candidates parent s⟩

end Pattern

end ShapeSearch
