import ShapeSearch.Matching.Wildcard
import ShapeSearch.Proofs.Attempt

namespace ShapeSearch

def Captures.AgreeOn (ns : List Text) (s t : Captures) : Prop :=
  ∀ n ∈ ns, s.lookup n = t.lookup n

theorem Captures.AgreeOn.mono {ns ms : List Text} {s t : Captures} (h : AgreeOn ns s t)
    (hms : ∀ n ∈ ms, n ∈ ns) : AgreeOn ms s t :=
  fun n hn => h n (hms n hn)

theorem Captures.AgreeOn.left {ns ms : List Text} {s t : Captures} (h : AgreeOn (ns ++ ms) s t) :
    AgreeOn ns s t :=
  h.mono fun _ => List.mem_append_left ms

namespace Attempt

open Captures

/-- The attempt depends on these names alone and binds no others. -/
structure Confined (ns : List Text) (a : Attempt Captures) : Prop where
  frame (s : Captures) {n : Text} (hn : n ∉ ns) : (a s).2.lookup n = s.lookup n
  result {s t : Captures} (h : AgreeOn ns s t) : (a s).1 = (a t).1
  bindings {s t : Captures} (h : AgreeOn ns s t) : AgreeOn ns (a s).2 (a t).2

namespace Confined

variable {ns ms : List Text} {a b : Attempt Captures}

theorem mono (h : Confined ns a) (hms : ∀ n ∈ ns, n ∈ ms) : Confined ms a where
  frame s _ hn := h.frame s fun hn' => hn (hms _ hn')
  result hst := h.result (hst.mono hms)
  bindings {s t} hst n hn := by
    by_cases hn' : n ∈ ns
    · exact h.bindings (hst.mono hms) n hn'
    · rw [h.frame s hn', h.frame t hn', hst n hn]

theorem test (ns : List Text) (b : Bool) : Confined ns (test b) :=
  ⟨fun _ _ _ => rfl, fun _ => rfl, fun h => h⟩

theorem andThen (ha : Confined ns a) (hb : Confined ns b) : Confined ns (andThen a b) where
  frame s n hn := by
    rw [andThen_apply]
    split
    · rw [hb.frame _ hn, ha.frame s hn]
    · exact ha.frame s hn
  result {s t} hst := by
    rw [andThen_apply, andThen_apply, ha.result hst]
    split
    · exact hb.result (ha.bindings hst)
    · exact ha.result hst
  bindings {s t} hst := by
    rw [andThen_apply, andThen_apply, ha.result hst]
    split
    · exact hb.bindings (ha.bindings hst)
    · exact ha.bindings hst

theorem firstOf {as : List (Attempt Captures)} (h : ∀ a ∈ as, Confined ns a) :
    Confined ns (firstOf as) := by
  induction as with
  | nil => exact test ns false
  | cons a as ih =>
      have ha := h a List.mem_cons_self
      have has := ih fun b hb => h b (List.mem_cons_of_mem a hb)
      constructor
      · intro s n hn
        rw [firstOf_cons]
        split
        · exact ha.frame s hn
        · exact has.frame s hn
      · intro s t hst
        rw [firstOf_cons, firstOf_cons, ha.result hst]
        split
        · exact ha.result hst
        · exact has.result hst
      · intro s t hst
        rw [firstOf_cons, firstOf_cons, ha.result hst]
        split
        · exact ha.bindings hst
        · exact has.bindings hst

theorem congruence (ns : List Text) :
    Congruence (fun a _ : Attempt Captures => Confined ns a) where
  test := test ns
  andThen := andThen
  firstOf h := firstOf (forall_mem_of_forall₂ h)

theorem bind {name : Text} (h : name ≠ [] → name ∈ ns) (b : Binding) :
    Confined ns (Captures.bind name b) := by
  by_cases hname : name = []
  · subst hname
    exact test ns true
  · have hmem := h hname
    have hempty : name.isEmpty = false := by simpa using hname
    constructor
    · intro s n hn
      have hne : (n == name) = false := by
        rw [beq_eq_false_iff_ne]
        rintro rfl
        exact hn hmem
      simp only [Captures.bind, hempty, Bool.false_eq_true, if_false]
      split
      · simp only [List.lookup_append, List.lookup_cons, hne, List.lookup_nil, Option.or_none]
      · rfl
    · intro s t hst
      simp only [Captures.bind, hempty, Bool.false_eq_true, if_false, hst name hmem]
      split <;> rfl
    · intro s t hst n hn
      simp only [Captures.bind, hempty, Bool.false_eq_true, if_false, hst name hmem]
      split
      · rw [List.lookup_append, List.lookup_append, hst n hn]
      · exact hst n hn

end Confined

/-- Where the second attempt succeeds, so does the first from bindings that agree. -/
structure Covers (ns : List Text) (a a' : Attempt Captures) : Prop where
  confined : Confined ns a
  confined' : Confined ns a'
  succeeds {s s' : Captures} (h : AgreeOn ns s s') (hs : (a' s').1 = true) : (a s).1 = true

/-- The first attempt covers the second, and what they bind agrees for names that stand elsewhere
too. In all, names stand as often as in `total`. -/
structure Simulates (total ns : List Text) (a a' : Attempt Captures) : Prop
    extends Covers ns a a' where
  agrees {s s' : Captures} (h : AgreeOn ns s s') (hs : (a' s').1 = true) {n : Text} (hn : n ∈ ns)
    (hshared : ns.count n < total.count n) : (a s).2.lookup n = (a' s').2.lookup n

variable {total ns ms : List Text} {a a' b b' : Attempt Captures}

theorem count_le_of_append (h : ∀ n, (ns ++ ms).count n ≤ total.count n) (n : Text) :
    ms.count n ≤ total.count n := by
  have hle := h n
  rw [List.count_append] at hle
  omega

theorem Covers.mono (h : Covers ns a a') (hms : ∀ n ∈ ns, n ∈ ms) : Covers ms a a' :=
  ⟨h.confined.mono hms, h.confined'.mono hms, fun hst hs => h.succeeds (hst.mono hms) hs⟩

theorem Covers.firstOf {as as' : List (Attempt Captures)} (has : ∀ a ∈ as, Confined ns a)
    (h : ∀ a' ∈ as', ∃ a ∈ as, Covers ns a a') : Covers ns (firstOf as) (firstOf as') where
  confined := .firstOf has
  confined' := .firstOf fun a' ha' => by
    obtain ⟨a, -, hcovers⟩ := h a' ha'
    exact hcovers.confined'
  succeeds {s s'} hst hs := by
    obtain ⟨a', ha', hs'⟩ := firstOf_succeeds_iff.mp hs
    obtain ⟨a, ha, hcovers⟩ := h a' ha'
    exact firstOf_succeeds_iff.mpr ⟨a, ha, hcovers.succeeds hst hs'⟩

theorem Covers.only (h : Covers ns a a') : Covers ns (Attempt.firstOf [a]) (Attempt.firstOf [a']) :=
  .firstOf (by simpa using h.confined) (by simpa using h)

namespace Simulates

theorem refl (total : List Text) (h : Confined ns a) : Simulates total ns a a :=
  ⟨⟨h, h, fun hst hs => (h.result hst).trans hs⟩, fun hst _ _ hn _ => h.bindings hst _ hn⟩

theorem fail (total : List Text) (h : Confined ns a) : Simulates total ns a fail :=
  ⟨⟨h, .test ns false, fun _ hs => nomatch hs⟩, fun _ hs => nomatch hs⟩

theorem guard (total : List Text) (h : Confined ns a) {c c' : Bool} (hc : c' = true → c = true) :
    Simulates total ns (if c = true then a else Attempt.fail)
      (if c' = true then a else Attempt.fail) := by
  by_cases hc' : c' = true
  · rw [if_pos hc', if_pos (hc hc')]
    exact refl total h
  · rw [if_neg hc']
    split
    · exact fail total h
    · exact refl total (.test ns false)

theorem of_covers (h : Covers ns a a') (hns : ∀ n ∈ ns, ns.count n = total.count n) :
    Simulates total ns a a' :=
  ⟨h, fun _ _ n hn hshared => absurd (hns n hn) (Nat.ne_of_lt hshared)⟩

section AndThen

variable (ha : Simulates total ns a a') (hcount : ∀ n, (ns ++ ms).count n ≤ total.count n)

include ha hcount

theorem agreeOn_next {s s' : Captures} (h : AgreeOn (ns ++ ms) s s') (hs : (a' s').1 = true) :
    AgreeOn ms (a s).2 (a' s').2 := by
  intro n hn
  by_cases hn' : n ∈ ns
  · have hle := hcount n
    have hpos := List.count_pos_iff.mpr hn
    rw [List.count_append] at hle
    exact ha.agrees h.left hs hn' (by omega)
  · rw [ha.confined.frame s hn', ha.confined'.frame s' hn']
    exact h n (List.mem_append_right ns hn)

theorem covers_andThen (hb : Covers ms b b') :
    Covers (ns ++ ms) (andThen a b) (andThen a' b') where
  confined := (ha.confined.mono fun _ => List.mem_append_left ms).andThen
    (hb.confined.mono fun _ => List.mem_append_right ns)
  confined' := (ha.confined'.mono fun _ => List.mem_append_left ms).andThen
    (hb.confined'.mono fun _ => List.mem_append_right ns)
  succeeds {s s'} hst hs := by
    obtain ⟨ha', hb'⟩ := andThen_succeeds_iff.mp hs
    refine andThen_succeeds_iff.mpr ⟨?_, ?_⟩
    · exact ha.succeeds hst.left ha'
    · exact hb.succeeds (ha.agreeOn_next hcount hst ha') hb'

theorem andThen (hb : Simulates total ms b b') :
    Simulates total (ns ++ ms) (andThen a b) (andThen a' b') where
  toCovers := ha.covers_andThen hcount hb.toCovers
  agrees {s s'} hst hs n hn hshared := by
    obtain ⟨ha', hb'⟩ := andThen_succeeds_iff.mp hs
    have hst' := hst.left
    rw [andThen_apply, andThen_apply, if_pos (ha.succeeds hst' ha'), if_pos ha']
    rw [List.count_append] at hshared
    by_cases hn' : n ∈ ms
    · exact hb.agrees (ha.agreeOn_next hcount hst ha') hb' hn' (by omega)
    · rw [hb.confined.frame _ hn', hb.confined'.frame _ hn']
      exact ha.agrees hst' ha' ((List.mem_append.mp hn).resolve_right hn') (by omega)

end AndThen

theorem all {ι κ : Type} {xs : List ι} {ys : List κ} {names : ι → List Text}
    {f : ι → Attempt Captures} {f' : κ → Attempt Captures}
    (h : List.Forall₂ (fun x y => Simulates total (names x) (f x) (f' y)) xs ys)
    (hcount : ∀ n, (xs.flatMap names).count n ≤ total.count n) :
    Simulates total (xs.flatMap names) (all (xs.map f)) (all (ys.map f')) := by
  induction h with
  | nil => exact refl total (.test [] true)
  | cons hxy _ ih =>
      rw [List.flatMap_cons] at hcount ⊢
      exact hxy.andThen hcount (ih (count_le_of_append hcount))

theorem firstOf {ι : Type} {is : List ι} {f f' : ι → Attempt Captures}
    (h : ∀ i ∈ is, Simulates total ns (f i) (f' i))
    (hunique : ∀ i ∈ is, ∀ j ∈ is, ∀ s t, (f i s).1 = true → (f j t).1 = true → i = j) :
    Simulates total ns (firstOf (is.map f)) (firstOf (is.map f')) where
  toCovers := by
    refine .firstOf ?_ ?_
    · intro a ha
      obtain ⟨i, hi, rfl⟩ := List.mem_map.mp ha
      exact (h i hi).confined
    · intro a' ha'
      obtain ⟨i, hi, rfl⟩ := List.mem_map.mp ha'
      exact ⟨f i, List.mem_map_of_mem hi, (h i hi).toCovers⟩
  agrees {s s'} hst hs n hn hshared := by
    obtain ⟨a', ha', hs'⟩ := firstOf_eq_true (Prod.ext hs rfl : Attempt.firstOf _ s' = (true, _))
    obtain ⟨i, hi, rfl⟩ := List.mem_map.mp ha'
    have hf' : (f' i s').1 = true := by rw [hs']
    have hf : (f i s).1 = true := (h i hi).succeeds hst hf'
    have hfirst := firstOf_succeeds_iff.mpr ⟨f i, List.mem_map_of_mem hi, hf⟩
    obtain ⟨a, ha, hs⟩ := firstOf_eq_true (Prod.ext hfirst rfl : Attempt.firstOf _ s = (true, _))
    obtain ⟨j, hj, rfl⟩ := List.mem_map.mp ha
    have hij : j = i := hunique j hj i hi s s (by rw [hs]) hf
    subst hij
    have hagrees := (h j hj).agrees hst hf' hn hshared
    rwa [hs, hs'] at hagrees

theorem only (h : Simulates total ns a a') :
    Simulates total ns (Attempt.firstOf [a]) (Attempt.firstOf [a']) := by
  have hs : ∀ i ∈ [()], Simulates total ns ((fun _ => a) i) ((fun _ => a') i) := fun _ _ => h
  exact firstOf hs fun _ _ _ _ _ _ _ _ => rfl

end Simulates

end Attempt

end ShapeSearch
