import Mathlib.Data.List.Forall2
import ShapeSearch.Matching.Lists

namespace ShapeSearch.Attempt

variable {σ α : Type}

theorem andThen_apply (a b : Attempt σ) (s : σ) :
    andThen a b s = if (a s).1 = true then b (a s).2 else a s := by
  cases h : a s with
  | mk result u => cases result <;> simp [andThen, h]

theorem andThen_succeeds_iff {a b : Attempt σ} {s : σ} :
    (andThen a b s).1 = true ↔ (a s).1 = true ∧ (b (a s).2).1 = true := by
  rw [andThen_apply]
  split <;> simp_all

theorem firstOf_cons (a : Attempt σ) (as : List (Attempt σ)) (s : σ) :
    firstOf (a :: as) s = if (a s).1 = true then a s else firstOf as s := by
  cases h : a s with
  | mk result u => cases result <;> simp [firstOf, h]

theorem andThen_eq_true {a b : Attempt σ} {s t : σ} (h : andThen a b s = (true, t)) :
    ∃ u, a s = (true, u) ∧ b u = (true, t) := by
  have ha : (a s).1 = true := (andThen_succeeds_iff.mp (by rw [h])).1
  rw [andThen_apply, if_pos ha] at h
  exact ⟨(a s).2, Prod.ext ha rfl, h⟩

theorem firstOf_eq_true {as : List (Attempt σ)} {s t : σ} (h : firstOf as s = (true, t)) :
    ∃ a ∈ as, a s = (true, t) := by
  induction as with
  | nil => cases h
  | cons a as ih =>
      rw [firstOf_cons] at h
      split at h
      · exact ⟨a, List.mem_cons_self, h⟩
      · obtain ⟨b, hb, hs⟩ := ih h
        exact ⟨b, List.mem_cons_of_mem a hb, hs⟩

theorem firstOf_succeeds_iff {as : List (Attempt σ)} {s : σ} :
    (firstOf as s).1 = true ↔ ∃ a ∈ as, (a s).1 = true := by
  induction as with
  | nil => simp [firstOf, fail]
  | cons a as ih =>
      rw [firstOf_cons]
      by_cases ha : (a s).1 = true
      · simp [ha]
      · simp [ha, ih]

theorem forall_mem_of_forall₂ {α β : Type} {P : α → Prop} {xs : List α} {ys : List β}
    (h : List.Forall₂ (fun x _ => P x) xs ys) : ∀ x ∈ xs, P x := by
  induction h with
  | nil => simp
  | cons hx _ ih => exact List.forall_mem_cons.mpr ⟨hx, ih⟩

/-- A relation of attempts that compound attempts inherit from their parts. -/
structure Congruence (r : Attempt σ → Attempt σ → Prop) : Prop where
  test (b : Bool) : r (test b) (test b)
  andThen {a a' b b' : Attempt σ} : r a a' → r b b' → r (andThen a b) (andThen a' b')
  firstOf {as as' : List (Attempt σ)} : List.Forall₂ r as as' → r (firstOf as) (firstOf as')

namespace Congruence

variable {r : Attempt σ → Attempt σ → Prop}

theorem succeed (h : Congruence r) : r succeed succeed := h.test true

theorem fail (h : Congruence r) : r fail fail := h.test false

theorem all (h : Congruence r) {as as' : List (Attempt σ)} (hs : List.Forall₂ r as as') :
    r (all as) (all as') := by
  induction hs with
  | nil => exact h.succeed
  | cons ha _ ih => exact h.andThen ha ih

end Congruence

theorem eq_congruence : Congruence (σ := σ) (· = ·) where
  test _ := rfl
  andThen ha hb := by rw [ha, hb]
  firstOf h := by
    rw [List.forall₂_eq_eq_eq] at h
    rw [h]

/-- What is bound stays bound, whether or not the attempt succeeds. -/
def Grows (a : Attempt (List α)) : Prop := ∀ s, s <+: (a s).2

theorem Grows.andThen {a b : Attempt (List α)} (ha : Grows a) (hb : Grows b) :
    Grows (andThen a b) := by
  intro s
  rw [andThen_apply]
  split
  · exact (ha s).trans (hb (a s).2)
  · exact ha s

theorem Grows.firstOf {as : List (Attempt (List α))} (h : ∀ a ∈ as, Grows a) :
    Grows (firstOf as) := by
  intro s
  induction as with
  | nil => exact List.prefix_rfl
  | cons a as ih =>
      rw [firstOf_cons]
      split
      · exact h a List.mem_cons_self s
      · exact ih fun b hb => h b (List.mem_cons_of_mem a hb)

theorem grows_congruence : Congruence (fun a _ : Attempt (List α) => Grows a) where
  test _ _ := List.prefix_rfl
  andThen := Grows.andThen
  firstOf h := .firstOf (forall_mem_of_forall₂ h)

/-- The attempt succeeds from some bindings, and all that it leaves bound is among `e`. -/
def Accepts (a : Attempt (List α)) (e : List α) : Prop := ∃ s t, a s = (true, t) ∧ t <+: e

theorem Accepts.test {b : Bool} {e : List α} (h : Accepts (test b) e) : b = true := by
  obtain ⟨s, t, hs, -⟩ := h
  exact congrArg Prod.fst hs

theorem Accepts.andThen {a b : Attempt (List α)} {e : List α} (hb : Grows b)
    (h : Accepts (andThen a b) e) : Accepts a e ∧ Accepts b e := by
  obtain ⟨s, t, hs, ht⟩ := h
  obtain ⟨u, hu, hbt⟩ := andThen_eq_true hs
  have hut : u <+: t := by simpa [hbt] using hb u
  exact ⟨⟨s, u, hu, hut.trans ht⟩, u, t, hbt, ht⟩

theorem Grows.all {as : List (Attempt (List α))} (h : ∀ a ∈ as, Grows a) : Grows (all as) := by
  induction as with
  | nil => exact fun _ => List.prefix_rfl
  | cons a as ih =>
      exact (h a List.mem_cons_self).andThen (ih fun b hb => h b (List.mem_cons_of_mem a hb))

theorem Accepts.all {as : List (Attempt (List α))} {e : List α} (hg : ∀ a ∈ as, Grows a)
    (h : Accepts (all as) e) : ∀ a ∈ as, Accepts a e := by
  induction as with
  | nil => simp
  | cons a as ih =>
      have hgs : ∀ b ∈ as, Grows b := fun b hb => hg b (List.mem_cons_of_mem a hb)
      obtain ⟨ha, has⟩ := h.andThen (.all hgs)
      intro b hb
      rcases List.mem_cons.mp hb with rfl | hb
      · exact ha
      · exact ih hgs has b hb

theorem Accepts.firstOf {as : List (Attempt (List α))} {e : List α} (h : Accepts (firstOf as) e) :
    ∃ a ∈ as, Accepts a e := by
  obtain ⟨s, t, hs, ht⟩ := h
  obtain ⟨a, ha, hat⟩ := firstOf_eq_true hs
  exact ⟨a, ha, s, t, hat, ht⟩

end ShapeSearch.Attempt
