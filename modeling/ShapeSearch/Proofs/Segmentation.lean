import Mathlib.Data.List.Lex
import ShapeSearch.Proofs.Lists

namespace ShapeSearch

theorem lex_cons_iff {ι : Type} {r : ι → ι → Prop} {i j : ι} {v w : List ι} :
    List.Lex r (i :: v) (j :: w) ↔ r i j ∨ i = j ∧ List.Lex r v w := by
  constructor
  · intro h
    cases h with
    | rel h => exact .inl h
    | cons h => exact .inr ⟨rfl, h⟩
  · rintro (h | ⟨rfl, h⟩)
    · exact .rel h
    · exact .cons h

theorem not_lex_nil {ι : Type} {r : ι → ι → Prop} {v : List ι} : ¬ List.Lex r v [] :=
  fun h => nomatch h

theorem lex_gt_iff {v w : List Nat} (h : v.length = w.length) :
    List.Lex (· > ·) v w ↔ List.Lex (· < ·) w v := by
  induction v generalizing w with
  | nil =>
      rw [List.eq_nil_of_length_eq_zero h.symm]
      exact iff_of_false not_lex_nil not_lex_nil
  | cons i v ih =>
      cases w with
      | nil => cases h
      | cons j w =>
          rw [lex_cons_iff, lex_cons_iff, ih (Nat.succ.inj h), eq_comm]

namespace Attempt

variable {σ ι κ : Type}

/-- The attempt is a search for solutions, lists of choices that lead from one state to another. It
succeeds if there is any, and ends where the first one leads in the order of a dictionary. -/
structure Finds (r : ι → ι → Prop) (sol : σ → List ι → σ → Prop) (a : Attempt σ) : Prop where
  complete {s t : σ} {v : List ι} (h : sol s v t) : (a s).1 = true
  first {s t : σ} (h : a s = (true, t)) :
    ∃ v, sol s v t ∧ ∀ w u, sol s w u → ¬ List.Lex r w v

namespace Finds

variable {r : ι → ι → Prop} {sol sol' : σ → List ι → σ → Prop} {a b : Attempt σ} {s t : σ}

theorem congr (h : Finds r sol a) (hsol : ∀ s v t, sol' s v t ↔ sol s v t) : Finds r sol' a := by
  have heq : sol' = sol := by
    funext s v t
    exact propext (hsol s v t)
  rwa [heq]

theorem succeeds_iff (h : Finds r sol a) : (a s).1 = true ↔ ∃ v t, sol s v t := by
  constructor
  · intro hs
    obtain ⟨v, hv, -⟩ := h.first (Prod.ext hs rfl : a s = (true, (a s).2))
    exact ⟨v, _, hv⟩
  · rintro ⟨v, t, hv⟩
    exact h.complete hv

theorem eq_true_iff [Std.Trichotomous (List.Lex r)] (h : Finds r sol a)
    (hsol : ∀ {s v t u}, sol s v t → sol s v u → t = u) :
    a s = (true, t) ↔ ∃ v, sol s v t ∧ ∀ w u, sol s w u → ¬ List.Lex r w v := by
  refine ⟨h.first, ?_⟩
  rintro ⟨v, hv, hfirst⟩
  have hs : a s = (true, (a s).2) := Prod.ext (h.complete hv) rfl
  obtain ⟨w, hw, hfirst'⟩ := h.first hs
  have hvw : v = w := Std.Trichotomous.trichotomous _ _ (hfirst' v t hv) (hfirst w _ hw)
  subst hvw
  rw [hs, hsol hv hw]

theorem step (r : ι → ι → Prop) (a : Attempt σ) :
    Finds r (fun s v t => v = [] ∧ a s = (true, t)) a where
  complete h := by rw [h.2]
  first h := ⟨[], ⟨rfl, h⟩, fun _ _ _ => not_lex_nil⟩

theorem fail (r : ι → ι → Prop) : Finds r (fun _ _ _ => False) (fail (σ := σ)) :=
  ⟨False.elim, fun h => nomatch h⟩

theorem andThen (a : Attempt σ) (hb : Finds r sol b) :
    Finds r (fun s v t => ∃ u, a s = (true, u) ∧ sol u v t) (andThen a b) where
  complete {s t v} h := by
    obtain ⟨u, hu, hv⟩ := h
    rw [andThen_succeeds_iff, hu]
    exact ⟨rfl, hb.complete hv⟩
  first {s t} h := by
    obtain ⟨u, hu, ht⟩ := andThen_eq_true h
    obtain ⟨v, hv, hfirst⟩ := hb.first ht
    refine ⟨v, ⟨u, hu, hv⟩, ?_⟩
    rintro w t' ⟨u', hu', hw⟩
    rw [hu, Prod.mk.injEq] at hu'
    obtain ⟨-, rfl⟩ := hu'
    exact hfirst w t' hw

theorem firstOf {xs : List κ} (key : κ → ι) {f : κ → Attempt σ} {sol : κ → σ → List ι → σ → Prop}
    (hr : ∀ i j, r i j → ¬ r j i) (hxs : xs.Pairwise fun x y => r (key x) (key y))
    (hf : ∀ x ∈ xs, Finds r (sol x) (f x)) :
    Finds r (fun s v t => ∃ x ∈ xs, ∃ w, v = key x :: w ∧ sol x s w t) (firstOf (xs.map f)) where
  complete {s t v} h := by
    obtain ⟨x, hx, w, -, hw⟩ := h
    exact firstOf_succeeds_iff.mpr ⟨f x, List.mem_map_of_mem hx, (hf x hx).complete hw⟩
  first {s t} h := by
    induction hxs with
    | nil => cases h
    | @cons x xs hx _ ih =>
        rw [List.map_cons, firstOf_cons] at h
        have hfx := hf x List.mem_cons_self
        by_cases hs : (f x s).1 = true
        · rw [if_pos hs] at h
          obtain ⟨w, hw, hfirst⟩ := hfx.first h
          refine ⟨key x :: w, ⟨x, List.mem_cons_self, w, rfl, hw⟩, ?_⟩
          rintro _ u ⟨y, hy, w', rfl, hw'⟩ hlex
          rcases List.mem_cons.mp hy with rfl | hy
          · rcases lex_cons_iff.mp hlex with hyy | ⟨-, hlex⟩
            · exact hr _ _ hyy hyy
            · exact hfirst w' u hw' hlex
          · have hxy := hx y hy
            rcases lex_cons_iff.mp hlex with hyx | ⟨heq, -⟩
            · exact hr _ _ hxy hyx
            · rw [heq] at hxy
              exact hr _ _ hxy hxy
        · rw [if_neg hs] at h
          obtain ⟨_, ⟨y, hy, w, rfl, hw⟩, hfirst⟩ :=
            ih (fun y hy => hf y (List.mem_cons_of_mem x hy)) h
          refine ⟨key y :: w, ⟨y, List.mem_cons_of_mem x hy, w, rfl, hw⟩, ?_⟩
          rintro _ u ⟨z, hz, w', rfl, hw'⟩
          rcases List.mem_cons.mp hz with rfl | hz
          · exact absurd (hfx.complete hw') hs
          · exact hfirst _ u ⟨z, hz, w', rfl, hw'⟩

theorem only (h : Finds r sol a) : Finds r sol (Attempt.firstOf [a]) where
  complete hv := firstOf_succeeds_iff.mpr ⟨a, List.mem_singleton_self a, h.complete hv⟩
  first hs := by
    obtain ⟨a', ha, hs'⟩ := firstOf_eq_true hs
    rw [List.mem_singleton] at ha
    subst ha
    exact h.first hs'

end Finds

end Attempt

theorem Quantifier.mem_lengths_iff {q : Quantifier} {n i : Nat} :
    i ∈ q.lengths n ↔ q.admits i = true ∧ i ≤ n := by
  have hmin : Nat.min q.max n = q.max ⊓ n := rfl
  simp only [lengths, List.mem_map, List.mem_range, admits, Bool.and_eq_true, decide_eq_true_eq,
    hmin]
  constructor
  · rintro ⟨d, hd, rfl⟩
    omega
  · intro h
    exact ⟨(q.max ⊓ n) - i, by omega, by omega⟩

theorem Quantifier.pairwise_lengths (q : Quantifier) (n : Nat) :
    (q.lengths n).Pairwise (· > ·) := by
  rw [lengths, List.pairwise_map]
  refine List.Pairwise.imp_of_mem (fun {d e} hd he hde => ?_) List.pairwise_lt_range
  rw [List.mem_range] at he
  omega

namespace Comparison

open Attempt

variable {P W C σ : Type}

/-- The elements divide the candidates, in order and to the end of both: an element that stands for
one candidate gets one, and a wildcard a run whose length it admits. Each comparison succeeds in the
state that the one before has left. The lengths are those of the wildcards' runs. -/
inductive Segmentation (k : Comparison P W C σ) (fallback : Nat) :
    List (Element P W) → List C → List Nat → σ → σ → Prop
  | nil (s : σ) : Segmentation k fallback [] [] [] s s
  | one {p : P} {c : C} {es : List (Element P W)} {cs : List C} {lengths : List Nat} {s t u : σ}
      (h : k.one p c s = (true, t)) (hs : Segmentation k fallback es cs lengths t u) :
      Segmentation k fallback (.one p :: es) (c :: cs) lengths s u
  | run {w : W} {taken : List C} {es : List (Element P W)} {cs : List C} {lengths : List Nat}
      {s t u : σ} (hw : (k.quantifier w).admits taken.length = true)
      (h : k.run w taken (k.anchor fallback (taken ++ cs)) s = (true, t))
      (hs : Segmentation k fallback es cs lengths t u) :
      Segmentation k fallback (.run w :: es) (taken ++ cs) (taken.length :: lengths) s u

variable {k : Comparison P W C σ} {fallback : Nat} {es : List (Element P W)} {cs : List C}
  {lengths : List Nat} {s t u : σ}

theorem Segmentation.length_lengths (h : k.Segmentation fallback es cs lengths s t) :
    lengths.length = (Element.runs es).length := by
  induction h with
  | nil => rfl
  | one _ _ ih => exact ih
  | run _ _ _ ih => rw [Element.runs, List.length_cons, List.length_cons, ih]

theorem segmentation_nil_iff :
    k.Segmentation fallback [] cs lengths s t ↔
      lengths = [] ∧ k.inOrder fallback [] cs s = (true, t) := by
  simp only [inOrder, test, Prod.mk.injEq, List.isEmpty_iff]
  constructor
  · intro h
    cases h
    exact ⟨rfl, rfl, rfl⟩
  · rintro ⟨rfl, rfl, rfl⟩
    exact .nil s

theorem segmentation_one_iff {p : P} {c : C} :
    k.Segmentation fallback (.one p :: es) (c :: cs) lengths s t ↔
      ∃ u, k.one p c s = (true, u) ∧ k.Segmentation fallback es cs lengths u t := by
  constructor
  · intro h
    cases h with
    | one h hs => exact ⟨_, h, hs⟩
  · rintro ⟨u, h, hs⟩
    exact .one h hs

theorem segmentation_run_iff {w : W} :
    k.Segmentation fallback (.run w :: es) cs lengths s t ↔
      ∃ n ∈ (k.quantifier w).lengths cs.length, ∃ rest, lengths = n :: rest ∧
        ∃ u, k.run w (cs.take n) (k.anchor fallback cs) s = (true, u) ∧
          k.Segmentation fallback es (cs.drop n) rest u t := by
  simp only [Quantifier.mem_lengths_iff]
  constructor
  · intro h
    cases h with
    | @run _ taken _ cs _ _ u _ hw h hs =>
        refine ⟨taken.length, ⟨hw, by simp⟩, _, rfl, u, ?_, ?_⟩
        · rwa [List.take_left]
        · rwa [List.drop_left]
  · rintro ⟨n, ⟨hw, hn⟩, rest, rfl, u, h, hs⟩
    have hlength : (cs.take n).length = n := by rw [List.length_take, Nat.min_eq_left hn]
    have hrun : k.Segmentation fallback (.run w :: es) (cs.take n ++ cs.drop n)
        ((cs.take n).length :: rest) s t :=
      .run (by rwa [hlength]) (by rwa [List.take_append_drop]) hs
    rwa [List.take_append_drop, hlength] at hrun

theorem Segmentation.unique (h : k.Segmentation fallback es cs lengths s t)
    (h' : k.Segmentation fallback es cs lengths s u) : t = u := by
  induction h with
  | nil s => exact congrArg Prod.snd (segmentation_nil_iff.mp h').2
  | one h _ ih =>
      obtain ⟨v, hv, hs'⟩ := segmentation_one_iff.mp h'
      rw [h, Prod.mk.injEq] at hv
      exact ih (hv.2 ▸ hs')
  | @run w taken es cs rest s _ _ hw h _ ih =>
      obtain ⟨n, -, rest', hlengths, v, hv, hs'⟩ := segmentation_run_iff.mp h'
      obtain ⟨rfl, rfl⟩ := List.cons.inj hlengths
      rw [List.take_left, h, Prod.mk.injEq] at hv
      rw [List.drop_left, ← hv.2] at hs'
      exact ih hs'

theorem inOrder_finds (k : Comparison P W C σ) (fallback : Nat) (es : List (Element P W))
    (cs : List C) :
    Finds (· > ·) (fun s lengths t => k.Segmentation fallback es cs lengths s t)
      (k.inOrder fallback es cs) := by
  induction es generalizing cs with
  | nil => exact (Finds.step _ _).congr fun s v t => segmentation_nil_iff
  | cons e es ih =>
      cases e with
      | one p =>
          cases cs with
          | nil => exact (Finds.fail _).congr fun s v t => iff_of_false (fun h => nomatch h) id
          | cons c cs =>
              exact (Finds.only (.andThen _ (ih cs))).congr fun s v t => segmentation_one_iff
      | run w =>
          have hpairwise := (k.quantifier w).pairwise_lengths cs.length
          have hfinds := Finds.firstOf id (fun i j hij => Nat.lt_asymm hij) hpairwise
            fun n _ => .andThen (k.run w (cs.take n) (k.anchor fallback cs)) (ih (cs.drop n))
          exact hfinds.congr fun s v t => segmentation_run_iff

end Comparison

namespace Pattern

open Comparison

variable {α : Type} [Listed α]

/-- How a list of a pattern divides candidates below a parent, from left to right. -/
def Segmentation (p : Pattern) (source : Text) (one : α → α → Attempt Captures)
    (patterns candidates : List α) (parent : Node) (lengths : List Nat) (s t : Captures) : Prop :=
  (comparison source one).Segmentation
    ((candidates.getLast?.map fun c => (Listed.bound c).stop).getD parent.start)
    (patterns.map p.element) candidates lengths s t

/-- An ordered comparison misses no way to divide the candidates, and ends with the one whose runs are
the longest, those further left first. -/
theorem matchInOrder_greedy (p : Pattern) (source : Text) (one : α → α → Attempt Captures)
    (patterns candidates : List α) (parent : Node) (s : Captures) :
    ((p.matchInOrder source one patterns candidates parent s).1 = true ↔
      ∃ lengths t, p.Segmentation source one patterns candidates parent lengths s t) ∧
    ∀ t, p.matchInOrder source one patterns candidates parent s = (true, t) ↔
      ∃ lengths, p.Segmentation source one patterns candidates parent lengths s t ∧
        ∀ others u, p.Segmentation source one patterns candidates parent others s u →
          ¬ List.Lex (· < ·) lengths others := by
  have hfinds := inOrder_finds (comparison source one)
    ((candidates.getLast?.map fun c => (Listed.bound c).stop).getD parent.start)
    (patterns.map p.element) candidates
  refine ⟨hfinds.succeeds_iff, fun t => ?_⟩
  rw [matchInOrder]
  refine (hfinds.eq_true_iff Segmentation.unique).trans (exists_congr fun lengths => ?_)
  refine and_congr_right fun h => forall₂_congr fun others u => imp_congr_right fun h' => ?_
  rw [lex_gt_iff (h'.length_lengths.trans h.length_lengths.symm)]

end Pattern

end ShapeSearch
