import Mathlib.Data.List.Perm.Basic
import Mathlib.Data.List.Sort
import ShapeSearch.Proofs.Distribution
import ShapeSearch.Proofs.Interchange

namespace ShapeSearch

open Attempt Captures

namespace Element

variable {P W : Type} {es es' : List (Element P W)}

theorem perm_ones (h : es.Perm es') : (ones es).Perm (ones es') := by
  induction h with
  | nil => exact .refl _
  | cons e _ ih =>
      cases e with
      | one p => exact ih.cons p
      | run w => exact ih
  | swap e f es => cases e <;> cases f <;> first | exact .refl _ | exact .swap _ _ _
  | trans _ _ ih ih' => exact ih.trans ih'

theorem perm_runs (h : es.Perm es') : (runs es).Perm (runs es') := by
  induction h with
  | nil => exact .refl _
  | cons e _ ih =>
      cases e with
      | one p => exact ih
      | run w => exact ih.cons w
  | swap e f es => cases e <;> cases f <;> first | exact .refl _ | exact .swap _ _ _
  | trans _ _ ih ih' => exact ih.trans ih'

end Element

namespace Attempt

def Exchanges (a b : Attempt Captures) : Prop := Swaps a b ∧ Swaps b a

theorem Exchanges.symm {a b : Attempt Captures} (h : Exchanges a b) : Exchanges b a := ⟨h.2, h.1⟩

theorem all_perm {as bs : List (Attempt Captures)} (h : as.Perm bs)
    (hrespects : ∀ a ∈ as, Respects a) (hexchanges : as.Pairwise Exchanges) {s t : Captures}
    (hs : all as s = (true, t)) : ∃ u, all bs s = (true, u) ∧ Equivalent t u := by
  induction h generalizing s t with
  | nil => exact ⟨t, hs, .refl t⟩
  | cons a _ ih =>
      obtain ⟨r, ha, hr⟩ := andThen_eq_true hs
      obtain ⟨u, hu, htu⟩ := ih (fun b hb => hrespects b (List.mem_cons_of_mem a hb))
        (List.pairwise_cons.mp hexchanges).2 hr
      refine ⟨u, ?_, htu⟩
      rw [all, andThen_apply, ha]
      exact hu
  | swap a b as =>
      obtain ⟨q, hb, hq⟩ := andThen_eq_true hs
      obtain ⟨r, ha, hr⟩ := andThen_eq_true hq
      have hba := (List.pairwise_cons.mp hexchanges).1 a List.mem_cons_self
      obtain ⟨v, w, ha', hb', hw⟩ := hba.1 s q r hb ha
      have has : Respects (all as) := .all fun c hc =>
        hrespects c (List.mem_cons_of_mem b (List.mem_cons_of_mem a hc))
      obtain ⟨u, hu, htu⟩ := has.eq_true hw.symm hr
      refine ⟨u, ?_, htu⟩
      rw [all, andThen_apply, ha', if_pos rfl, all, andThen_apply, hb']
      exact hu
  | trans h _ ih ih' =>
      obtain ⟨u, hu, htu⟩ := ih hrespects hexchanges hs
      obtain ⟨v, hv, huv⟩ := ih' (fun a ha => hrespects a (h.symm.subset ha))
        ((h.pairwise_iff fun h => h.symm).mp hexchanges) hu
      exact ⟨v, hv, htu.trans huv⟩

end Attempt

theorem exists_perm_of_map_perm {α β : Type} {f : α → β} {xs : List α} {ys : List β}
    (h : (xs.map f).Perm ys) : ∃ zs : List α, zs.map f = ys ∧ xs.Perm zs := by
  have hys : (Relation.Comp (fun ys zs => ys = zs.map f) List.Perm) ys xs := by
    rw [List.eq_map_comp_perm]
    exact h.symm
  obtain ⟨zs, rfl, hzs⟩ := hys
  exact ⟨zs, rfl, hzs.symm⟩

namespace Comparison

variable {P W C : Type}

section Deal

variable {σ : Type} {k : Comparison P W C σ} {offset : Nat} {ws : List W} {ps : List P}
  {cs : List C} {s : σ}

/-- A way to use every candidate once: one for each pattern, and the others for the wildcards. -/
structure Deal (ws : List W) (ps : List P) (cs : List C) (pairs : List (P × C))
    (fills : List (W × List C)) : Prop where
  ones : pairs.map Prod.fst = ps
  runs : fills.map Prod.fst = ws
  used : (pairs.map Prod.snd ++ fills.flatMap Prod.snd).Perm cs

theorem Deal.perm {ws' : List W} {ps' : List P} {cs' : List C} {pairs : List (P × C)}
    {fills : List (W × List C)} (h : Deal ws ps cs pairs fills) (hws : ws.Perm ws')
    (hps : ps.Perm ps') (hcs : cs.Perm cs') :
    ∃ pairs' fills', pairs.Perm pairs' ∧ fills.Perm fills' ∧ Deal ws' ps' cs' pairs' fills' := by
  obtain ⟨pairs', hpairs, hpairs'⟩ := exists_perm_of_map_perm (h.ones ▸ hps)
  obtain ⟨fills', hfills, hfills'⟩ := exists_perm_of_map_perm (h.runs ▸ hws)
  refine ⟨pairs', fills', hpairs', hfills', hpairs, hfills, ?_⟩
  exact (((hpairs'.map _).append (hfills'.flatMap_right _)).symm.trans h.used).trans hcs

/-- A wildcard does not mind in which order it is given these candidates. -/
def Unordered (k : Comparison P W C σ) (offset : Nat) (cs : List C) : Prop :=
  ∀ w xs ys, ys.Subperm cs → xs.Perm ys → k.run w xs offset = k.run w ys offset

theorem share_deals (k : Comparison P W C σ) (offset : Nat) {cs : List C}
    {runs : List (W × List C)} (h : (k.share offset cs runs s).1 = true) :
    ∃ fills : List (W × List C), fills.map Prod.fst = runs.map Prod.fst ∧
      (fills.flatMap Prod.snd).Perm (runs.flatMap Prod.snd ++ cs) ∧
        (k.bindRuns offset fills s).1 = true := by
  induction cs generalizing runs with
  | nil =>
      obtain ⟨a, ha, hs⟩ := firstOf_succeeds_iff.mp h
      rw [List.mem_singleton] at ha
      subst ha
      exact ⟨runs, rfl, by rw [List.append_nil], hs⟩
  | cons c cs ih =>
      obtain ⟨a, ha, hs⟩ := firstOf_succeeds_iff.mp h
      obtain ⟨next, hnext, rfl⟩ := List.mem_map.mp ha
      obtain ⟨fills, hfst, hperm, hfills⟩ := ih hs
      refine ⟨fills, hfst.trans (map_fst_placements hnext), hperm.trans ?_, hfills⟩
      have hused := (placements_spec k c hnext).2.append_right cs
      rwa [List.append_assoc] at hused

theorem mem_placements {c : C} {w : W} {taken : List C} (h : k.hasRoom c (w, taken) = true)
    (xs ys : List (W × List C)) :
    xs ++ (w, taken ++ [c]) :: ys ∈ k.placements c (xs ++ (w, taken) :: ys) := by
  induction xs with
  | nil =>
      rw [hasRoom] at h
      rw [List.nil_append, List.nil_append, placements, if_pos h]
      exact List.mem_append_left _ (List.mem_singleton_self _)
  | cons x xs ih => exact List.mem_append_right _ (List.mem_map_of_mem ih)

theorem perm_move (c : C) (taken before after : List C) :
    (taken ++ [c] ++ (before ++ after)).Perm (taken ++ (before ++ c :: after)) := by
  have hmiddle : (before ++ c :: after).Perm (c :: (before ++ after)) := List.perm_middle
  rw [List.append_assoc]
  exact hmiddle.symm.append_left taken

theorem hasRoom_of_bindRuns (hk : k.Bounded) {fills : List (W × List C)} {w : W} {c : C}
    {taken more : List C} (hw : (w, taken ++ more) ∈ fills) (hc : c ∈ more)
    (h : (k.bindRuns offset fills s).1 = true) : k.hasRoom c (w, taken) = true := by
  obtain ⟨u, hu⟩ := exists_of_all_eq_true (Prod.ext h rfl) (List.mem_map_of_mem hw)
  obtain ⟨hlength, htakes⟩ := hk _ _ _ _ hu
  have hpos : 0 < more.length := List.length_pos_of_mem hc
  rw [List.length_append] at hlength
  rw [hasRoom, Bool.and_eq_true, decide_eq_true_eq]
  exact ⟨by dsimp only; omega, htakes c (List.mem_append_right taken hc)⟩

theorem share_succeeds (hk : k.Bounded) {all cs : List C} (horder : k.Unordered offset all)
    {fills : List (W × List C × List C)} (hcs : (fills.flatMap (·.2.2)).Perm cs)
    (hall : (fills.flatMap fun f => f.2.1 ++ f.2.2).Subperm all)
    (h : (k.bindRuns offset (fills.map fun f => (f.1, f.2.1 ++ f.2.2)) s).1 = true) :
    (k.share offset cs (fills.map fun f => (f.1, f.2.1)) s).1 = true := by
  induction cs generalizing fills with
  | nil =>
      have hnil : ∀ f ∈ fills, f.2.2 = [] := List.flatMap_eq_nil_iff.mp hcs.eq_nil
      refine firstOf_succeeds_iff.mpr ⟨_, List.mem_singleton_self _, ?_⟩
      have hfills : (fills.map fun f => (f.1, f.2.1)) = fills.map fun f => (f.1, f.2.1 ++ f.2.2) :=
        List.map_congr_left fun f hf => by rw [hnil f hf, List.append_nil]
      rwa [hfills]
  | cons c cs ih =>
      obtain ⟨f, hf, hc⟩ := List.mem_flatMap.mp (hcs.symm.subset List.mem_cons_self)
      obtain ⟨xs, ys, rfl⟩ := List.append_of_mem hf
      obtain ⟨w, taken, more⟩ := f
      -- the candidate goes to the wildcard that is to be given it
      have hroom : k.hasRoom c (w, taken) = true :=
        hasRoom_of_bindRuns hk (List.mem_map.mpr ⟨_, hf, rfl⟩) hc h
      obtain ⟨before, after, rfl⟩ := List.append_of_mem hc
      have hmove := perm_move c taken before after
      have hsub : (taken ++ (before ++ c :: after)).Subperm all := by
        refine List.Subperm.trans (List.Sublist.subperm ?_) hall
        exact Pattern.sublist_flatMap_of_mem hf fun f => f.2.1 ++ f.2.2
      have hruns : k.bindRuns offset ((xs ++ (w, taken ++ [c], before ++ after) :: ys).map
          fun f => (f.1, f.2.1 ++ f.2.2)) =
          k.bindRuns offset ((xs ++ (w, taken, before ++ c :: after) :: ys).map
            fun f => (f.1, f.2.1 ++ f.2.2)) := by
        simp only [bindRuns, List.map_append, List.map_cons, List.map_map]
        rw [horder w _ _ hsub hmove]
      have hnext := mem_placements hroom (xs.map fun f => (f.1, f.2.1))
        (ys.map fun f => (f.1, f.2.1))
      refine firstOf_succeeds_iff.mpr ⟨_, List.mem_map_of_mem (by simpa using hnext), ?_⟩
      have hih := @ih (xs ++ (w, taken ++ [c], before ++ after) :: ys) ?_ ?_ (hruns ▸ h)
      · simpa using hih
      · simp only [List.flatMap_append, List.flatMap_cons] at hcs ⊢
        have hmiddle : (xs.flatMap (·.2.2) ++ before ++ c :: (after ++ ys.flatMap (·.2.2))).Perm
            (c :: (xs.flatMap (·.2.2) ++ before ++ (after ++ ys.flatMap (·.2.2)))) :=
          List.perm_middle
        refine List.Perm.cons_inv (List.Perm.trans ?_ hcs)
        simpa only [List.append_assoc, List.cons_append] using hmiddle.symm
      · refine List.Subperm.trans (List.Perm.subperm ?_) hall
        simp only [List.flatMap_append, List.flatMap_cons]
        exact (hmove.append_right _).append_left _

theorem exists_selection {c : C} {cs : List C} (h : c ∈ cs) :
    ∃ rest, (c, rest) ∈ selections cs := by
  rw [← map_fst_selections cs] at h
  obtain ⟨⟨_, rest⟩, hrest, rfl⟩ := List.mem_map.mp h
  exact ⟨rest, hrest⟩

theorem pairUp_deals (k : Comparison P W C σ) (offset : Nat) (ws : List W)
    (h : (k.pairUp offset ws ps cs s).1 = true) :
    ∃ pairs fills, Deal ws ps cs pairs fills ∧ ∃ t,
      all (pairs.map fun x => k.one x.1 x.2) s = (true, t) ∧
        (k.bindRuns offset fills t).1 = true := by
  induction ps generalizing cs s with
  | nil =>
      rw [pairUp_nil] at h
      obtain ⟨fills, hfst, hperm, hfills⟩ := share_deals k offset h
      refine ⟨[], fills, ⟨rfl, ?_, ?_⟩, s, rfl, hfills⟩
      · simpa [Function.comp_def] using hfst
      · have hnone : (ws.map fun w => (w, ([] : List C))).flatMap Prod.snd = [] := by
          simp [List.flatMap_eq_nil_iff]
        rwa [hnone] at hperm
  | cons p ps ih =>
      obtain ⟨a, ha, hs⟩ := firstOf_succeeds_iff.mp h
      obtain ⟨⟨c, rest⟩, hsel, rfl⟩ := List.mem_map.mp ha
      obtain ⟨hc, hrest⟩ := andThen_succeeds_iff.mp hs
      obtain ⟨pairs, fills, hdeal, t, ht, hfills⟩ := ih hrest
      refine ⟨(p, c) :: pairs, fills, ⟨?_, hdeal.runs, ?_⟩, t, ?_, hfills⟩
      · rw [List.map_cons, hdeal.ones]
      · exact (hdeal.used.cons c).trans (selections_spec hsel).1
      · rw [List.map_cons, all, andThen_apply, if_pos hc]
        exact ht

theorem pairUp_succeeds (hk : k.Bounded) {all' : List C} (horder : k.Unordered offset all')
    (hall : cs.Subperm all') {pairs : List (P × C)} {fills : List (W × List C)}
    (hdeal : Deal ws ps cs pairs fills) {t : σ}
    (hs : all (pairs.map fun x => k.one x.1 x.2) s = (true, t))
    (ht : (k.bindRuns offset fills t).1 = true) : (k.pairUp offset ws ps cs s).1 = true := by
  induction ps generalizing cs pairs s with
  | nil =>
      obtain rfl := List.map_eq_nil_iff.mp hdeal.ones
      obtain rfl : s = t := congrArg Prod.snd hs
      have hused : (fills.flatMap Prod.snd).Perm cs := hdeal.used
      have hshare : (k.share offset cs
          ((fills.map fun f => (f.1, ([] : List C), f.2)).map fun f => (f.1, f.2.1)) s).1 =
            true := by
        refine share_succeeds hk horder ?_ ?_ ?_
        · simpa [List.flatMap_map] using hused
        · simpa [List.flatMap_map] using hused.subperm.trans hall
        · simpa [Function.comp_def] using ht
      rw [pairUp_nil, ← hdeal.runs]
      simpa [Function.comp_def] using hshare
  | cons p ps ih =>
      obtain ⟨x, pairs, rfl, rfl, hones⟩ := List.map_eq_cons_iff.mp hdeal.ones
      obtain ⟨u, hu, ht'⟩ := andThen_eq_true hs
      have hx : x.2 ∈ cs := hdeal.used.subset List.mem_cons_self
      obtain ⟨rest, hsel⟩ := exists_selection hx
      have hrest : (pairs.map Prod.snd ++ fills.flatMap Prod.snd).Perm rest :=
        (hdeal.used.trans (selections_spec hsel).1.symm).cons_inv
      have hsub : rest.Subperm all' := (selections_spec hsel).2.subperm.trans hall
      refine firstOf_succeeds_iff.mpr ⟨_, List.mem_map_of_mem hsel, andThen_succeeds_iff.mpr ?_⟩
      simp only [hu, true_and]
      exact ih hsub ⟨hones, hdeal.runs, hrest⟩ ht'

end Deal

section Perm

variable {k : Comparison P W C Captures} {offset : Nat} {es es' : List (Element P W)}
  {cs cs' : List C} {s : Captures}

theorem anyOrder_perm (hk : k.Bounded) (horder : k.Unordered offset cs') (hes : es.Perm es')
    (hcs : cs.Perm cs') (hone : ∀ p c, Respects (k.one p c))
    (hones : (Element.ones es).Pairwise fun p q => ∀ c d, Exchanges (k.one p c) (k.one q d))
    (hrun : ∀ w cs, Respects (k.run w cs offset))
    (hruns : ∀ w v cs ds, Exchanges (k.run w cs offset) (k.run v ds offset))
    (h : (k.anyOrder offset es cs s).1 = true) : (k.anyOrder offset es' cs' s).1 = true := by
  rw [anyOrder] at h ⊢
  by_cases hnil : es = []
  · subst hnil
    obtain rfl := hes.symm.eq_nil
    rfl
  have hnil' : es' ≠ [] := fun h => hnil (h ▸ hes).eq_nil
  rw [if_neg (by simpa using hnil)] at h
  rw [if_neg (by simpa using hnil')]
  obtain ⟨pairs, fills, hdeal, t, ht, hfills⟩ := pairUp_deals k offset _ h
  obtain ⟨pairs', fills', hpairs, hfills', hdeal'⟩ :=
    hdeal.perm (Element.perm_runs hes) (Element.perm_ones hes) hcs
  -- neither the comparisons nor the runs mind their order among themselves
  obtain ⟨u, hu, htu⟩ := all_perm (hpairs.map fun x => k.one x.1 x.2)
    (by simp only [List.forall_mem_map]; exact fun x _ => hone x.1 x.2)
    (by
      rw [List.pairwise_map]
      rw [← hdeal.ones, List.pairwise_map] at hones
      exact hones.imp fun hxy => hxy _ _) ht
  have hbind (fills : List (W × List C)) :
      ∀ a ∈ fills.map fun x => k.run x.1 x.2 offset, Respects a := by
    simp only [List.forall_mem_map]
    exact fun x _ => hrun x.1 x.2
  obtain ⟨v, hv, -⟩ := Respects.eq_true (.all (hbind fills)) htu (Prod.ext hfills rfl)
  obtain ⟨w, hw, -⟩ := all_perm (hfills'.map fun x => k.run x.1 x.2 offset) (hbind fills)
    (by
      rw [List.pairwise_map]
      exact List.pairwise_of_forall fun x y => hruns _ _ _ _) hv
  exact pairUp_succeeds hk horder (.refl cs') hdeal' hu (congrArg Prod.fst hw)

end Perm

end Comparison

namespace Wildcard

variable {source : Text}

theorem bindRun_exchanges (w v : Wildcard) (cs ds : List Node) (offset offset' : Nat) :
    Exchanges (w.bindRun source cs offset) (v.bindRun source ds offset') := by
  rw [bindRun, bindRun]
  split
  · split
    · exact ⟨.bind _ _ _ _, .bind _ _ _ _⟩
    · exact ⟨.test_right _ false, .test_left false _⟩
  · exact ⟨.test_left false _, .test_right _ false⟩

theorem bindRun_respects (w : Wildcard) (cs : List Node) (offset : Nat) :
    Respects (w.bindRun source cs offset) := by
  rw [bindRun]
  split
  · exact .bind _ _
  · exact .test false

theorem ofLabels_perm (source : Text) {xs ys : List Label} (h : xs.Perm ys)
    (hstarts : (ys.map (·.start)).Nodup) (offset : Nat) :
    Binding.ofLabels source offset xs = Binding.ofLabels source offset ys := by
  have hsorted (zs : List Label) : (zs.mergeSort fun a b => a.start ≤ b.start).Pairwise
      fun a b => a.start ≤ b.start := by
    have hpairwise := @List.pairwise_mergeSort Label (fun a b => a.start ≤ b.start)
      (fun _ _ _ => by simpa using Nat.le_trans) (fun a b => by simpa using Nat.le_total _ _) zs
    simpa using hpairwise
  have hxs := (List.mergeSort_perm xs fun a b => a.start ≤ b.start).trans h
  have hys := List.mergeSort_perm ys fun a b => a.start ≤ b.start
  have heq : (xs.mergeSort fun a b => a.start ≤ b.start) =
      ys.mergeSort fun a b => a.start ≤ b.start := by
    refine (hxs.trans hys.symm).eq_of_pairwise (fun a b ha hb hab hba => ?_) (hsorted xs)
      (hsorted ys)
    exact List.inj_on_of_nodup_map hstarts (hxs.subset ha) (hys.subset hb)
      (Nat.le_antisymm hab hba)
  simp only [Binding.ofLabels, heq]

theorem bindRun_perm (w : Wildcard) (source : Text) {xs ys : List Node} (h : xs.Perm ys)
    (hstarts : (ys.map Node.start).Nodup) (offset : Nat) :
    w.bindRun source xs offset = w.bindRun source ys offset := by
  have hlabels := ofLabels_perm source (h.map Node.label)
    (by rwa [List.map_map]) offset
  rw [bindRun, bindRun, h.length_eq, h.all_eq, hlabels]

end Wildcard

namespace Pattern

variable {p : Pattern}

theorem compare_respects (p : Pattern) (source : Text) (room : Nat) (a b : Node) :
    Respects (p.compare source room a b) :=
  compare_related Respects.congruence (.refl p)
    (fun _ _ => relatedAt_of_bind Respects.congruence fun _ _ c => .bind _ c) b

theorem comparison_unordered (source : Text) (one : Node → Node → Attempt Captures) (offset : Nat)
    {candidates : List Node} (hstarts : (candidates.map Node.start).Nodup) :
    (comparison source one).Unordered offset candidates := by
  intro w xs ys hys h
  refine w.bindRun_perm source (h.map _) ?_ offset
  obtain ⟨zs, hzs, hsub⟩ := hys
  rw [List.map_map]
  exact (hzs.map Node.start).nodup_iff.mp (hstarts.sublist (hsub.map _))

theorem matchInAnyOrder_succeeds_of_perm {source : Text} {room : Nat}
    {patterns patterns' candidates candidates' : List Node} (hpatterns : patterns.Perm patterns')
    (hcandidates : candidates.Perm candidates') (hstarts : (candidates'.map Node.start).Nodup)
    (huntangled : (Element.ones (patterns.map p.element)).Pairwise (p.Untangled room))
    {parent : Node} {s : Captures}
    (h : (p.matchInAnyOrder source (p.compare source room) patterns candidates parent s).1 = true) :
    (p.matchInAnyOrder source (p.compare source room) patterns' candidates' parent s).1 = true := by
  refine Comparison.anyOrder_perm (comparison_bounded source _)
    (comparison_unordered source _ _ hstarts) (hpatterns.map _) hcandidates
    (fun a c => p.compare_respects source room a c) (huntangled.imp fun {x y} hxy c d => ?_)
    (fun w cs => w.bindRun_respects _ _) (fun w v cs ds => w.bindRun_exchanges v _ _ _ _) h
  have hcommutes : Attempt.Commutes (p.compare source room x c) (p.compare source room y d) :=
    compare_commutes hxy c d
  exact ⟨hcommutes.before, hcommutes.after⟩

/-- Neither list's order matters to whether all can be paired and shared out, as long as no two
members of the pattern's list are entangled. -/
theorem matchInAnyOrder_perm (p : Pattern) (source : Text) (room : Nat)
    {patterns patterns' candidates candidates' : List Node} (hpatterns : patterns.Perm patterns')
    (hcandidates : candidates.Perm candidates') (hstarts : (candidates.map Node.start).Nodup)
    (huntangled : (Element.ones (patterns.map p.element)).Pairwise (p.Untangled room))
    (parent : Node) (s : Captures) :
    (p.matchInAnyOrder source (p.compare source room) patterns candidates parent s).1 =
      (p.matchInAnyOrder source (p.compare source room) patterns' candidates' parent s).1 := by
  have hstarts' := (hcandidates.map Node.start).nodup_iff.mp hstarts
  have hones := Element.perm_ones (hpatterns.map p.element)
  rw [Bool.eq_iff_iff]
  constructor
  · exact matchInAnyOrder_succeeds_of_perm hpatterns hcandidates hstarts' huntangled
  · exact matchInAnyOrder_succeeds_of_perm hpatterns.symm hcandidates.symm hstarts
      ((hones.pairwise_iff fun h => h.symm).mp huntangled)

instance (p : Pattern) (room : Nat) (x y : Node) : Decidable (p.Untangled room x y) :=
  decidable_of_iff
    ((∀ xs ∈ p.choices room x, ∀ n ∈ p.names xs, n ∉ p.namesBelow room [y]) ∧
      ∀ ys ∈ p.choices room y, ∀ n ∈ p.names ys, n ∉ p.namesBelow room [x]) Iff.rfl

/-- Names of the given lengths between commas. -/
def listed (start : Nat) : List Nat → List Tree
  | [] => []
  | [n] => [tuples.node "identifier" start (start + n) []]
  | n :: ns =>
    tuples.node "identifier" start (start + n) [] :: tuples.token "," (start + n) ::
      listed (start + n + 2) ns

/-- Attributes such as `#[f(u, v)]`, with arguments of the given lengths, in front of
`struct S;`. -/
def attributed (start : Nat) : List (List Nat) → List Tree
  | [] =>
    [tuples.node "struct_item" start (start + 9) [
      .node ⟨"struct", false, false, false, false, start, start + 6, none⟩ [],
      .node ⟨"type_identifier", true, false, false, false, start + 7, start + 8, some "name"⟩ [],
      tuples.token ";" (start + 8)]]
  | ns :: rest =>
    let stop := start + 4 + (ns.sum + 2 * (ns.length - 1))
    tuples.node "attribute_item" start (stop + 2) [tuples.token "#" start,
      tuples.token "[" (start + 1), tuples.node "attribute" (start + 2) (stop + 1) [
        tuples.node "identifier" (start + 2) (start + 3) [],
        .node ⟨"token_tree", true, false, false, false, start + 3, stop + 1, some "arguments"⟩
          (tuples.token "(" (start + 3) :: listed (start + 4) ns ++ [tuples.token ")" stop])],
      tuples.token "]" (stop + 1)] :: attributed (stop + 3) rest

def attributedGrammar (ns : List (List Nat)) : Grammar := fun t =>
  tuples.node "source_file" 0 t.length (attributed 0 ns)

def attributedSource : Source :=
  .ofText (attributedGrammar [[1], [1]]) "#[f(b)] #[g(c)] struct S;".toList

/-- The names in the list that offers a choice stand nowhere else. -/
theorem matchInAnyOrder_perm_attributes : ∃ p r n,
    compile (attributedGrammar [[13, 13], [13]]) .default
      "#[f('_x:?, '_y:?)] #[g('_z)] struct S;".toList = .ok p ∧
    p.roots.head? = some r ∧ attributedSource.root.items.head? = some n ∧
    (n.outerAttributes.map Node.start).Nodup ∧
    (Element.ones (r.outerAttributes.map p.element)).Pairwise (p.Untangled 8) ∧
    (p.matchInAnyOrder attributedSource.text (p.compare attributedSource.text 8) r.outerAttributes
      n.outerAttributes n []).1 = true ∧
    (p.matchInAnyOrder attributedSource.text (p.compare attributedSource.text 8)
      r.outerAttributes.reverse n.outerAttributes.reverse n []).1 = true := by
  have h : ((compile (attributedGrammar [[13, 13], [13]]) .default
      "#[f('_x:?, '_y:?)] #[g('_z)] struct S;".toList).toOption.bind fun p =>
      p.roots.head?.bind fun r => attributedSource.root.items.head?.map fun n =>
        decide ((n.outerAttributes.map Node.start).Nodup ∧
          (Element.ones (r.outerAttributes.map p.element)).Pairwise (p.Untangled 8)) &&
        (p.matchInAnyOrder attributedSource.text (p.compare attributedSource.text 8)
          r.outerAttributes n.outerAttributes n []).1) = some true := by
    decide +kernel
  simp only [Option.bind_eq_some_iff, Option.map_eq_some_iff, Bool.and_eq_true,
    decide_eq_true_eq] at h
  obtain ⟨p, hp, r, hr, n, hn, ⟨hstarts, huntangled⟩, hmatch⟩ := h
  refine ⟨p, r, n, ok_of_toOption hp, hr, hn, hstarts, huntangled, hmatch, ?_⟩
  rw [← matchInAnyOrder_perm p attributedSource.text 8 (List.reverse_perm _).symm
    (List.reverse_perm _).symm hstarts huntangled n []]
  exact hmatch

def tangledSource : Source :=
  .ofText (attributedGrammar [[1], []]) "#[f(b)] #[g()] struct S;".toList

/-- The arguments of the first attribute can be divided in two ways. The comparison keeps the first of
them, under which the second attribute cannot fit any more. -/
theorem matchInAnyOrder_minds_order : ∃ p r n patterns,
    compile (attributedGrammar [[13, 13], [13]]) .default
      "#[f('_x:?, '_y:?)] #[g('_x)] struct S;".toList = .ok p ∧
    p.roots.head? = some r ∧ tangledSource.root.items.head? = some n ∧
    r.outerAttributes.Perm patterns ∧ (n.outerAttributes.map Node.start).Nodup ∧
    (p.matchInAnyOrder tangledSource.text (p.compare tangledSource.text 8) r.outerAttributes
      n.outerAttributes n []).1 = false ∧
    (p.matchInAnyOrder tangledSource.text (p.compare tangledSource.text 8) patterns
      n.outerAttributes n []).1 = true := by
  have h : ((compile (attributedGrammar [[13, 13], [13]]) .default
      "#[f('_x:?, '_y:?)] #[g('_x)] struct S;".toList).toOption.bind fun p =>
      p.roots.head?.bind fun r => tangledSource.root.items.head?.map fun n =>
        decide ((n.outerAttributes.map Node.start).Nodup) &&
        !(p.matchInAnyOrder tangledSource.text (p.compare tangledSource.text 8)
          r.outerAttributes n.outerAttributes n []).1 &&
        (p.matchInAnyOrder tangledSource.text (p.compare tangledSource.text 8)
          r.outerAttributes.reverse n.outerAttributes n []).1) = some true := by
    decide +kernel
  simp only [Option.bind_eq_some_iff, Option.map_eq_some_iff, Bool.and_eq_true,
    Bool.not_eq_true', decide_eq_true_eq] at h
  obtain ⟨p, hp, r, hr, n, hn, ⟨hstarts, hfalse⟩, htrue⟩ := h
  exact ⟨p, r, n, _, ok_of_toOption hp, hr, hn, (List.reverse_perm _).symm, hstarts, hfalse, htrue⟩

end Pattern

end ShapeSearch
