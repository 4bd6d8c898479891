import ShapeSearch.Proofs.Agreement
import ShapeSearch.Proofs.Lists

namespace ShapeSearch

theorem Quantifier.le_of_mem_lengths {q : Quantifier} {n i : Nat} (h : i ∈ q.lengths n) : i ≤ n := by
  obtain ⟨d, -, rfl⟩ := List.mem_map.mp h
  have hmin : Nat.min q.max n ≤ n := Nat.min_le_right _ _
  omega

theorem Element.perm_ones_runs {P W β : Type} (names : Element P W → List β)
    (es : List (Element P W)) :
    ((ones es).flatMap (fun p => names (.one p)) ++ (runs es).flatMap fun w => names (.run w)).Perm
      (es.flatMap names) := by
  induction es with
  | nil => exact .refl _
  | cons e es ih =>
      cases e with
      | one p =>
          simp only [ones, runs, List.flatMap_cons, List.append_assoc]
          exact ih.append_left _
      | run w =>
          simp only [ones, runs, List.flatMap_cons]
          rw [← List.append_assoc]
          refine (List.perm_append_comm.append_right _).trans ?_
          rw [List.append_assoc]
          exact ih.append_left _

namespace Comparison

open Attempt

variable {P W C : Type}

/-- A wildcard takes whatever the other takes, and binds it alike. -/
structure RunSimulates (k k' : Comparison P W C Captures) (total ns : List Text) (w w' : W) :
    Prop where
  quantifier : k'.quantifier w' = k.quantifier w
  takes {c : C} (h : k'.takes w' c = true) : k.takes w c = true
  run (cs : List C) (offset : Nat) : Simulates total ns (k.run w cs offset) (k'.run w' cs offset)

inductive ElementSimulates (k k' : Comparison P W C Captures) (total : List Text)
    (names : Element P W → List Text) : Element P W → Element P W → Prop
  | one {p : P} (h : ∀ c, Simulates total (names (.one p)) (k.one p c) (k'.one p c)) :
    ElementSimulates k k' total names (.one p) (.one p)
  | run {w w' : W} (h : RunSimulates k k' total (names (.run w)) w w') :
    ElementSimulates k k' total names (.run w) (.run w')

variable {k k' : Comparison P W C Captures} {total : List Text} {names : Element P W → List Text}
  {es es' : List (Element P W)}

theorem length_eq_of_inOrder {σ : Type} {k : Comparison P W C σ} {fallback : Nat}
    (hruns : Element.runs es = []) {cs : List C} {s : σ}
    (h : (k.inOrder fallback es cs s).1 = true) : cs.length = es.length := by
  induction es generalizing cs s with
  | nil =>
      have hcs : cs.isEmpty = true := h
      simpa using hcs
  | cons e es ih =>
      cases e with
      | run w => cases hruns
      | one p =>
          cases cs with
          | nil => cases h
          | cons c cs =>
              obtain ⟨a, ha, ht⟩ := firstOf_succeeds_iff.mp h
              rw [List.mem_singleton] at ha
              subst ha
              rw [List.length_cons, List.length_cons, ih hruns (andThen_succeeds_iff.mp ht).2]

theorem length_unique {σ : Type} {k : Comparison P W C σ} {fallback : Nat}
    (hruns : Element.runs es = []) {cs : List C} {q : Quantifier} {i j : Nat} {s t : σ}
    (hi : i ∈ q.lengths cs.length) (hj : j ∈ q.lengths cs.length)
    (hs : (k.inOrder fallback es (cs.drop i) s).1 = true)
    (ht : (k.inOrder fallback es (cs.drop j) t).1 = true) : i = j := by
  have hii := Quantifier.le_of_mem_lengths hi
  have hjj := Quantifier.le_of_mem_lengths hj
  have hli := length_eq_of_inOrder hruns hs
  have hlj := length_eq_of_inOrder hruns ht
  rw [List.length_drop] at hli hlj
  omega

theorem inOrder_covers (h : List.Forall₂ (ElementSimulates k k' total names) es es')
    (hcount : ∀ n, (es.flatMap names).count n ≤ total.count n) (hstart : k'.start = k.start)
    (fallback : Nat) (cs : List C) :
    Covers (es.flatMap names) (k.inOrder fallback es cs) (k'.inOrder fallback es' cs) := by
  induction h generalizing cs with
  | nil => exact (Simulates.refl total (.test [] _)).toCovers
  | @cons e e' es es' he _ ih =>
      rw [List.flatMap_cons] at hcount ⊢
      have ih' := ih (count_le_of_append hcount)
      cases he with
      | one hone =>
          cases cs with
          | nil => exact (Simulates.refl total (.test _ false)).toCovers
          | cons c cs => exact ((hone c).covers_andThen hcount (ih' cs)).only
      | @run w w' hrun =>
          have hanchor : k'.anchor fallback cs = k.anchor fallback cs := by
            cases cs <;> simp [anchor, hstart]
          have hstep (i : Nat) := (hrun.run (cs.take i) (k.anchor fallback cs)).covers_andThen hcount
            (ih' (cs.drop i))
          simp only [inOrder, hrun.quantifier, hanchor]
          refine .firstOf ?_ ?_
          · intro a ha
            obtain ⟨i, -, rfl⟩ := List.mem_map.mp ha
            exact (hstep i).confined
          · intro a' ha'
            obtain ⟨i, hi, rfl⟩ := List.mem_map.mp ha'
            exact ⟨_, List.mem_map_of_mem hi, hstep i⟩

theorem inOrder_simulates (h : List.Forall₂ (ElementSimulates k k' total names) es es')
    (hcount : ∀ n, (es.flatMap names).count n ≤ total.count n) (hstart : k'.start = k.start)
    (hruns : (Element.runs es).length ≤ 1) (fallback : Nat) (cs : List C) :
    Simulates total (es.flatMap names) (k.inOrder fallback es cs)
      (k'.inOrder fallback es' cs) := by
  induction h generalizing cs with
  | nil => exact .refl total (.test [] _)
  | @cons e e' es es' he _ ih =>
      rw [List.flatMap_cons] at hcount ⊢
      cases he with
      | one hone =>
          have ih' := ih (count_le_of_append hcount) hruns
          cases cs with
          | nil => exact .refl total (.test _ false)
          | cons c cs => exact ((hone c).andThen hcount (ih' cs)).only
      | @run w w' hrun =>
          have hnone : Element.runs es = [] := by
            simp only [Element.runs, List.length_cons] at hruns
            exact List.eq_nil_of_length_eq_zero (by omega)
          have ih' := ih (count_le_of_append hcount) (by rw [hnone]; exact Nat.zero_le 1)
          have hanchor : k'.anchor fallback cs = k.anchor fallback cs := by
            cases cs <;> simp [anchor, hstart]
          simp only [inOrder, hrun.quantifier, hanchor]
          refine .firstOf ?_ ?_
          · intro i _
            exact (hrun.run (cs.take i) _).andThen hcount (ih' (cs.drop i))
          · intro i hi j hj s t his hjt
            exact length_unique hnone hi hj (andThen_succeeds_iff.mp his).2
              (andThen_succeeds_iff.mp hjt).2

def SharesSimulate (k k' : Comparison P W C Captures) (total : List Text) (names : W → List Text)
    (x y : W × List C) : Prop :=
  RunSimulates k k' total (names x.1) x.1 y.1 ∧ x.2 = y.2

section Share

variable {names : W → List Text} {runs runs' : List (W × List C)}

theorem exists_placement (h : List.Forall₂ (SharesSimulate k k' total names) runs runs') {c : C}
    {next' : List (W × List C)} (hnext : next' ∈ k'.placements c runs') :
    ∃ next ∈ k.placements c runs, List.Forall₂ (SharesSimulate k k' total names) next next' := by
  induction h generalizing next' with
  | nil => cases hnext
  | @cons x y runs runs' hxy hrest ih =>
      obtain ⟨w, taken⟩ := x
      obtain ⟨w', taken'⟩ := y
      obtain ⟨hrun, rfl⟩ : RunSimulates k k' total (names w) w w' ∧ taken = taken' := hxy
      simp only [placements, List.mem_append, List.mem_map] at hnext ⊢
      rcases hnext with hnext | ⟨rest', hrest', rfl⟩
      · split at hnext
        next hc =>
          rw [Bool.and_eq_true, hrun.quantifier] at hc
          rw [List.mem_singleton] at hnext
          subst hnext
          refine ⟨(w, taken ++ [c]) :: runs, .inl ?_, .cons ⟨hrun, rfl⟩ hrest⟩
          rw [if_pos (by rw [hc.1, hrun.takes hc.2]; rfl)]
          exact List.mem_singleton_self _
        next => cases hnext
      · obtain ⟨rest, hmem, hsim⟩ := ih hrest'
        exact ⟨(w, taken) :: rest, .inr ⟨rest, hmem, rfl⟩, .cons ⟨hrun, rfl⟩ hsim⟩

theorem bindRuns_simulates (h : List.Forall₂ (SharesSimulate k k' total names) runs runs')
    (hcount : ∀ n, (runs.flatMap fun x => names x.1).count n ≤ total.count n) (offset : Nat) :
    Simulates total (runs.flatMap fun x => names x.1) (k.bindRuns offset runs)
      (k'.bindRuns offset runs') := by
  refine .all (h.imp fun x y hxy => ?_) hcount
  obtain ⟨w, taken⟩ := x
  obtain ⟨w', taken'⟩ := y
  obtain ⟨hrun, rfl⟩ : RunSimulates k k' total (names w) w w' ∧ taken = taken' := hxy
  exact hrun.run taken offset

theorem share_confined {ns : List Text} {offset : Nat} (cs : List C)
    (h : ∀ w ∈ runs.map Prod.fst, ∀ cs, Confined ns (k.run w cs offset)) :
    Confined ns (k.share offset cs runs) :=
  share_images (Confined.congruence ns) (.refl k) offset (fun _ _ => trivial)
    fun _ hx _ _ => h _ (List.mem_map_of_mem hx) _

theorem confined_of_sharesSimulate (h : List.Forall₂ (SharesSimulate k k' total names) runs runs')
    (offset : Nat) (w : W) (hw : w ∈ runs.map Prod.fst) (cs : List C) :
    Confined (runs.flatMap fun x => names x.1) (k.run w cs offset) := by
  obtain ⟨x, hx, rfl⟩ := List.mem_map.mp hw
  obtain ⟨y, -, hxy⟩ := forall₂_exists_left h.flip x hx
  refine (hxy.1.run cs offset).confined.mono fun n hn => ?_
  exact List.mem_flatMap.mpr ⟨x, hx, hn⟩

theorem share_covers (h : List.Forall₂ (SharesSimulate k k' total names) runs runs')
    (hcount : ∀ n, (runs.flatMap fun x => names x.1).count n ≤ total.count n) (offset : Nat)
    (cs : List C) :
    Covers (runs.flatMap fun x => names x.1) (k.share offset cs runs)
      (k'.share offset cs runs') := by
  induction cs generalizing runs runs' with
  | nil => exact (bindRuns_simulates h hcount offset).toCovers.only
  | cons c cs ih =>
      have hnames {next : List (W × List C)} (hnext : next ∈ k.placements c runs) :
          (next.flatMap fun x => names x.1) = runs.flatMap fun x => names x.1 := by
        have hmap := congrArg (List.flatMap names) (map_fst_placements hnext)
        simpa only [List.flatMap_map] using hmap
      simp only [share]
      refine .firstOf ?_ ?_
      · intro a ha
        obtain ⟨next, hnext, rfl⟩ := List.mem_map.mp ha
        refine share_confined cs fun w hw => confined_of_sharesSimulate h offset w ?_
        rwa [map_fst_placements hnext] at hw
      · intro a' ha'
        obtain ⟨next', hnext', rfl⟩ := List.mem_map.mp ha'
        obtain ⟨next, hnext, hsim⟩ := exists_placement h hnext'
        have ih' := ih hsim (by rwa [hnames hnext])
        rw [hnames hnext] at ih'
        exact ⟨_, List.mem_map_of_mem hnext, ih'⟩

theorem share_simulates (names : W → List Text) {w w' : W} (h : RunSimulates k k' total (names w) w w')
    (hcount : ∀ n, (names w).count n ≤ total.count n) (offset : Nat) (taken cs : List C) :
    Simulates total (names w) (k.share offset cs [(w, taken)])
      (k'.share offset cs [(w', taken)]) := by
  induction cs generalizing taken with
  | nil =>
      have hrel : List.Forall₂ (SharesSimulate k k' total names) [(w, taken)] [(w', taken)] :=
        .cons ⟨h, rfl⟩ .nil
      have hbind := bindRuns_simulates hrel (by simpa using hcount) offset
      rw [List.flatMap_singleton] at hbind
      exact hbind.only
  | cons c cs ih =>
      by_cases hc : (taken.length < (k.quantifier w).max && k'.takes w' c) = true
      · rw [Bool.and_eq_true] at hc
        have hp : k.placements c [(w, taken)] = [[(w, taken ++ [c])]] := by
          simp [placements, of_decide_eq_true hc.1, h.takes hc.2]
        have hp' : k'.placements c [(w', taken)] = [[(w', taken ++ [c])]] := by
          simp [placements, h.quantifier, of_decide_eq_true hc.1, hc.2]
        simp only [share, hp, hp', List.map_singleton]
        exact (ih (taken ++ [c])).only
      · have hp' : k'.placements c [(w', taken)] = [] := by
          simp only [placements, h.quantifier, if_neg hc, List.map_nil, List.append_nil]
        have hfail : k'.share offset (c :: cs) [(w', taken)] = .fail := by
          simp only [share, hp', List.map_nil]
          rfl
        rw [hfail]
        refine .fail total (share_confined _ fun v hv cs => ?_)
        rw [List.map_singleton, List.mem_singleton] at hv
        subst hv
        exact (h.run cs offset).confined

end Share

section PairUp

variable {ws ws' : List W}

def namesOf (names : Element P W → List Text) (ps : List P) (ws : List W) : List Text :=
  (ps.flatMap fun p => names (.one p)) ++ ws.flatMap fun w => names (.run w)

theorem pairUp_covers {ps : List P}
    (hone : ∀ p ∈ ps, ∀ c, Simulates total (names (.one p)) (k.one p c) (k'.one p c))
    (hrun : List.Forall₂ (fun w w' => RunSimulates k k' total (names (.run w)) w w') ws ws')
    (hcount : ∀ n, (namesOf names ps ws).count n ≤ total.count n) (offset : Nat) (cs : List C) :
    Covers (namesOf names ps ws) (k.pairUp offset ws ps cs) (k'.pairUp offset ws' ps cs) := by
  induction ps generalizing cs with
  | nil =>
      have hshare : List.Forall₂ (SharesSimulate k k' total fun w => names (.run w))
          (ws.map (·, [])) (ws'.map (·, [])) := by
        rw [List.forall₂_map_left_iff, List.forall₂_map_right_iff]
        exact hrun.imp fun w w' h => ⟨h, rfl⟩
      have hnames : ((ws.map fun w => (w, ([] : List C))).flatMap fun x => names (.run x.1)) =
          namesOf names [] ws := by
        rw [List.flatMap_map]
        rfl
      have hcovers := share_covers hshare (by rwa [hnames]) offset cs
      rw [hnames] at hcovers
      cases hrun with
      | nil => exact (Simulates.refl total (.test _ cs.isEmpty)).toCovers
      | cons => exact hcovers
  | cons p ps ih =>
      have hnames : namesOf names (p :: ps) ws = names (.one p) ++ namesOf names ps ws := by
        simp only [namesOf, List.flatMap_cons, List.append_assoc]
      rw [hnames] at hcount ⊢
      have ih' := ih (fun q hq => hone q (List.mem_cons_of_mem p hq)) (count_le_of_append hcount)
      have hstep (x : C × List C) :=
        (hone p List.mem_cons_self x.1).covers_andThen hcount (ih' x.2)
      simp only [pairUp]
      refine .firstOf ?_ ?_
      · intro a ha
        obtain ⟨x, -, rfl⟩ := List.mem_map.mp ha
        exact (hstep x).confined
      · intro a' ha'
        obtain ⟨x, hx, rfl⟩ := List.mem_map.mp ha'
        exact ⟨_, List.mem_map_of_mem hx, hstep x⟩

theorem ones_eq (h : List.Forall₂ (ElementSimulates k k' total names) es es') :
    Element.ones es' = Element.ones es := by
  induction h with
  | nil => rfl
  | cons he _ ih => cases he <;> simp only [Element.ones, ih]

theorem one_simulates (h : List.Forall₂ (ElementSimulates k k' total names) es es') (p : P)
    (hp : p ∈ Element.ones es) (c : C) :
    Simulates total (names (.one p)) (k.one p c) (k'.one p c) := by
  rw [Element.mem_ones] at hp
  obtain ⟨e', -, he⟩ := forall₂_exists_left h.flip _ hp
  cases he with
  | one hone => exact hone c

theorem runs_simulate (h : List.Forall₂ (ElementSimulates k k' total names) es es') :
    List.Forall₂ (fun w w' => RunSimulates k k' total (names (.run w)) w w') (Element.runs es)
      (Element.runs es') := by
  induction h with
  | nil => exact .nil
  | cons he _ ih =>
      cases he with
      | one => exact ih
      | run hrun => exact .cons hrun ih

theorem anyOrder_covers (h : List.Forall₂ (ElementSimulates k k' total names) es es')
    (hcount : ∀ n, (es.flatMap names).count n ≤ total.count n) (offset : Nat) (cs : List C) :
    Covers (es.flatMap names) (k.anyOrder offset es cs) (k'.anyOrder offset es' cs) := by
  have hperm := Element.perm_ones_runs names es
  have hpairs := pairUp_covers (one_simulates h) (runs_simulate h)
    (fun n => by rw [namesOf, hperm.count_eq]; exact hcount n) offset cs
  have hcovers := hpairs.mono fun n hn => hperm.subset hn
  cases h with
  | nil => exact (Simulates.refl total (.test _ true)).toCovers
  | cons he hs =>
      simp only [anyOrder, List.isEmpty_cons, Bool.false_eq_true, if_false]
      rw [ones_eq (.cons he hs)]
      exact hcovers

theorem anyOrder_simulates (h : List.Forall₂ (ElementSimulates k k' total names) es es')
    (hcount : ∀ n, (es.flatMap names).count n ≤ total.count n) (hes : es.length ≤ 1)
    (offset : Nat) (cs : List C) :
    Simulates total (es.flatMap names) (k.anyOrder offset es cs) (k'.anyOrder offset es' cs) := by
  cases h with
  | nil => exact .refl total (.test _ true)
  | @cons e e' es es' he hs =>
      have hnil : es = [] := List.eq_nil_of_length_eq_zero (by simpa using hes)
      subst hnil
      cases hs
      rw [List.flatMap_singleton] at hcount ⊢
      cases he with
      | @run w w' hrun =>
          exact share_simulates (fun w => names (.run w)) hrun hcount offset [] cs
      | @one p hone =>
          simp only [anyOrder, List.isEmpty_cons, Bool.false_eq_true, if_false, Element.ones,
            Element.runs, pairUp]
          refine .firstOf ?_ ?_
          · intro x _
            have hrest : Simulates total [] (.test x.2.isEmpty) (.test x.2.isEmpty) :=
              .refl total (.test [] _)
            have hstep := (hone x.1).andThen (by simpa using hcount) hrest
            rwa [List.append_nil] at hstep
          · intro x hx y hy s t hs ht
            exact eq_of_selections hx hy (andThen_succeeds_iff.mp hs).2 (andThen_succeeds_iff.mp ht).2

end PairUp

end Comparison

end ShapeSearch
