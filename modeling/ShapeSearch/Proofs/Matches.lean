import Mathlib.Logic.Function.Iterate
import ShapeSearch.Regex

namespace ShapeSearch.Regex

variable {R S : Nat → Nat → Prop} {i j k n : Nat}

/-- So many steps of a relation, one after another. -/
def Times (R : Nat → Nat → Prop) : Nat → Nat → Nat → Prop
  | 0, i, j => i = j
  | n + 1, i, j => ∃ k, R i k ∧ Times R n k j

namespace Times

theorem add_iff (m : Nat) : Times R (m + n) i j ↔ ∃ k, Times R m i k ∧ Times R n k j := by
  induction m generalizing i with
  | zero => simp [Times]
  | succ m ih =>
      rw [Nat.succ_add]
      constructor
      · rintro ⟨k, hik, hkj⟩
        obtain ⟨l, hkl, hlj⟩ := ih.mp hkj
        exact ⟨l, ⟨k, hik, hkl⟩, hlj⟩
      · rintro ⟨l, ⟨k, hik, hkl⟩, hlj⟩
        exact ⟨k, hik, ih.mpr ⟨l, hkl, hlj⟩⟩

theorem le (hR : ∀ {i j}, R i j → i ≤ j) (h : Times R n i j) : i ≤ j := by
  induction n generalizing i with
  | zero => exact Nat.le_of_eq h
  | succ n ih =>
      obtain ⟨k, hik, hkj⟩ := h
      exact Nat.le_trans (hR hik) (ih hkj)

theorem exists_le (hR : ∀ {i j}, R i j → i ≤ j) (h : Times R n i j) :
    ∃ m, m ≤ j - i ∧ Times R m i j := by
  induction n generalizing i with
  | zero => exact ⟨0, Nat.zero_le _, h⟩
  | succ n ih =>
      obtain ⟨k, hik, hkj⟩ := h
      obtain ⟨m, hm, hkj⟩ := ih hkj
      rcases Nat.lt_or_eq_of_le (hR hik) with hlt | rfl
      · have hle := hkj.le hR
        exact ⟨m + 1, by omega, k, hik, hkj⟩
      · exact ⟨m, hm, hkj⟩

theorem of_stay_or_iff :
    Times (fun i j => i = j ∨ R i j) n i j ↔ ∃ m, m ≤ n ∧ Times R m i j := by
  induction n generalizing i with
  | zero => simp [Times]
  | succ n ih =>
      constructor
      · rintro ⟨k, rfl | hik, hkj⟩
        · obtain ⟨m, hm, hkj⟩ := ih.mp hkj
          exact ⟨m, Nat.le_succ_of_le hm, hkj⟩
        · obtain ⟨m, hm, hkj⟩ := ih.mp hkj
          exact ⟨m + 1, Nat.succ_le_succ hm, k, hik, hkj⟩
      · rintro ⟨m, hm, h⟩
        cases m with
        | zero => exact ⟨i, .inl rfl, ih.mpr ⟨0, Nat.zero_le _, h⟩⟩
        | succ m =>
            obtain ⟨k, hik, hkj⟩ := h
            exact ⟨k, .inr hik, ih.mpr ⟨m, Nat.le_of_succ_le_succ hm, hkj⟩⟩

end Times

def charBefore? (t : Text) : Nat → Option Char
  | 0 => none
  | i + 1 => t[i]?

/-- An expression matches what stands between two places of a text. -/
def Matches (t : Text) : Regex → Nat → Nat → Prop
  | empty, i, j => i = j
  | set flags s, i, j => (∃ c, t[i]? = some c ∧ s.contains flags c.toNat) ∧ i + 1 = j
  | look flags l, i, j => l.holds flags (charBefore? t i) t[i]? ∧ i = j
  | seq r s, i, j => ∃ k, Matches t r i k ∧ Matches t s k j
  | alt r s, i, j => Matches t r i j ∨ Matches t s i j
  | repetition r min max, i, j =>
    ∃ n, min ≤ n ∧ (∀ m ∈ max, n ≤ m) ∧ Times (Matches t r) n i j

theorem Matches.le {t : Text} {r : Regex} (h : Matches t r i j) : i ≤ j := by
  induction r generalizing i j with
  | empty => exact Nat.le_of_eq h
  | set flags s => exact h.2 ▸ Nat.le_succ i
  | look flags l => exact Nat.le_of_eq h.2
  | seq r s ihr ihs =>
      obtain ⟨k, hik, hkj⟩ := h
      exact Nat.le_trans (ihr hik) (ihs hkj)
  | alt r s ihr ihs => exact h.elim ihr ihs
  | repetition r min max ih =>
      obtain ⟨n, -, -, hn⟩ := h
      exact hn.le ih

/-- A match of the whole text. -/
def MatchesWhole (r : Regex) (t : Text) : Prop :=
  Matches t r 0 t.length

/-- Each repetition may be made as often as it has to be. -/
def InOrder : Regex → Prop
  | seq r s | alt r s => InOrder r ∧ InOrder s
  | repetition r min max => InOrder r ∧ ∀ m ∈ max, min ≤ m
  | _ => True

namespace Places

def Has (p : Places) (i : Nat) : Prop :=
  p[i]? = some true

theorem Has.lt {p : Places} (h : p.Has i) : i < p.length :=
  (List.getElem?_eq_some_iff.mp h).1

theorem iterate_eq (step : Places → Places) (n : Nat) (p : Places) :
    iterate step n p = step^[n] p := by
  induction n generalizing p with
  | zero => rfl
  | succ n ih =>
      simp only [iterate, Function.iterate_succ_apply]
      split
      next hfixed => rw [hfixed, Function.iterate_fixed hfixed]
      next => exact ih _

/-- A function of sets of places, all in a text of `n` characters, that takes each place to those it
is related to. -/
structure Follows (n : Nat) (step : Places → Places) (R : Nat → Nat → Prop) : Prop where
  length {p : Places} (hp : p.length = n + 1) : (step p).length = n + 1
  has {p : Places} (hp : p.length = n + 1) {j : Nat} : (step p).Has j ↔ ∃ i, p.Has i ∧ R i j

namespace Follows

variable {f g : Places → Places}

theorem congr (h : Follows n f R) (hRS : ∀ i j, i ≤ n → (R i j ↔ S i j)) : Follows n f S := by
  refine ⟨h.length, fun {p} hp {j} => (h.has hp).trans ?_⟩
  refine exists_congr fun i => and_congr_right fun hi => hRS i j ?_
  have hlt := hi.lt
  omega

theorem right_le (h : Follows n f R) (hi : i ≤ n) (hR : R i j) : j ≤ n := by
  have hp : (List.replicate (n + 1) true).length = n + 1 := List.length_replicate
  have hhas : Has (List.replicate (n + 1) true) i := by
    rw [Has, List.getElem?_replicate, if_pos (by omega)]
  have hlt := ((h.has hp).mpr ⟨i, hhas, hR⟩).lt
  rw [h.length hp] at hlt
  omega

theorem id : Follows n (fun p => p) Eq :=
  ⟨fun hp => hp, fun _ => by simp⟩

theorem comp (hf : Follows n f R) (hg : Follows n g S) :
    Follows n (fun p => g (f p)) (fun i j => ∃ k, R i k ∧ S k j) := by
  refine ⟨fun hp => hg.length (hf.length hp), fun {p} hp {j} => ?_⟩
  rw [hg.has (hf.length hp)]
  constructor
  · rintro ⟨k, hk, hkj⟩
    obtain ⟨i, hi, hik⟩ := (hf.has hp).mp hk
    exact ⟨i, hi, k, hik, hkj⟩
  · rintro ⟨i, hi, k, hik, hkj⟩
    exact ⟨k, (hf.has hp).mpr ⟨i, hi, hik⟩, hkj⟩

theorem union (hf : Follows n f R) (hg : Follows n g S) :
    Follows n (fun p => (f p).union (g p)) (fun i j => R i j ∨ S i j) := by
  refine ⟨fun hp => ?_, fun {p} hp {j} => ?_⟩
  · rw [Places.union, List.length_zipWith, hf.length hp, hg.length hp, Nat.min_self]
  · have hunion : ((f p).union (g p)).Has j ↔ (f p).Has j ∨ (g p).Has j := by
      have hlength := (hf.length hp).trans (hg.length hp).symm
      rw [Has, Has, Has, Places.union, List.getElem?_zipWith]
      by_cases hj : j < (f p).length
      · rw [List.getElem?_eq_getElem hj, List.getElem?_eq_getElem (hlength ▸ hj)]
        simp
      · rw [List.getElem?_eq_none (by omega), List.getElem?_eq_none (by omega)]
        simp
    rw [hunion, hf.has hp, hg.has hp, ← exists_or]
    exact exists_congr fun i => and_or_left.symm

theorem iterate (h : Follows n f R) (m : Nat) : Follows n (Places.iterate f m) (Times R m) := by
  rw [funext (iterate_eq f m)]
  induction m with
  | zero => exact .id
  | succ m ih => exact h.comp ih

theorem widen (h : Follows n f R) (m : Nat) :
    Follows n (Places.widen f m) (fun i j => ∃ k, k ≤ m ∧ Times R k i j) :=
  ((Follows.id.union h).iterate m).congr fun _ _ _ => Times.of_stay_or_iff

theorem advance (t : Text) (member : Char → Bool) : Follows t.length (Places.advance member t)
    (fun i j => (∃ c, t[i]? = some c ∧ member c) ∧ i + 1 = j) := by
  refine ⟨fun hp => ?_, fun {p} hp {j} => ?_⟩
  · rw [Places.advance, List.length_cons, List.length_zipWith, hp]
    omega
  · cases j with
    | zero => simp [Places.advance, Has]
    | succ j =>
        have hhas : (Places.advance member t p).Has (j + 1) ↔
            p.Has j ∧ ∃ c, t[j]? = some c ∧ member c := by
          simp only [Places.advance, Has, List.getElem?_cons_succ, List.getElem?_zipWith]
          cases t[j]? with
          | none => simp
          | some c => cases p[j]? <;> simp
        rw [hhas]
        constructor
        · rintro ⟨hj, hc⟩
          exact ⟨j, hj, hc, rfl⟩
        · rintro ⟨i, hi, hc, hij⟩
          obtain rfl := Nat.succ.inj hij
          exact ⟨hi, hc⟩

theorem sift_has (holds : Option Char → Option Char → Bool) {before : Option Char} {t : Text}
    {p : Places} (hp : p.length = t.length + 1) {j : Nat} :
    (Places.sift holds before t p).Has j ↔
      p.Has j ∧ holds (match j with | 0 => before | j + 1 => t[j]?) t[j]? := by
  induction t generalizing before p j with
  | nil =>
      obtain ⟨here, rfl⟩ := List.length_eq_one_iff.mp hp
      cases j with
      | zero => simp [Places.sift, Has]
      | succ j => simp [Places.sift, Has]
  | cons c t ih =>
      obtain ⟨here, p, rfl⟩ := List.exists_cons_of_length_eq_add_one hp
      cases j with
      | zero => simp [Places.sift, Has]
      | succ j =>
          have hcons (q : Places) (here : Bool) : Has (here :: q) (j + 1) ↔ q.Has j :=
            Iff.rfl
          rw [Places.sift, hcons, hcons, ih (Nat.succ.inj hp)]
          cases j <;> rfl

theorem sift_length (holds : Option Char → Option Char → Bool) {before : Option Char} {t : Text}
    {p : Places} (hp : p.length = t.length + 1) :
    (Places.sift holds before t p).length = t.length + 1 := by
  induction t generalizing before p with
  | nil =>
      obtain ⟨here, rfl⟩ := List.length_eq_one_iff.mp hp
      rfl
  | cons c t ih =>
      obtain ⟨here, p, rfl⟩ := List.exists_cons_of_length_eq_add_one hp
      exact congrArg Nat.succ (ih (Nat.succ.inj hp))

theorem sift (t : Text) (holds : Option Char → Option Char → Bool) :
    Follows t.length (Places.sift holds none t)
      (fun i j => holds (charBefore? t i) t[i]? ∧ i = j) := by
  refine ⟨sift_length holds, fun {p} hp {j} => (sift_has holds hp).trans ?_⟩
  constructor
  · rintro ⟨hj, hholds⟩
    exact ⟨j, hj, by cases j <;> exact hholds, rfl⟩
  · rintro ⟨i, hi, hholds, rfl⟩
    exact ⟨hi, by cases i <;> exact hholds⟩

end Follows

end Places

open Places (Follows)

/-- Without an upper bound, more steps than the text has places cannot all lead forward. -/
theorem Matches.repetition_iff {t : Text} {r : Regex} {min : Nat} {max : Option Nat}
    (h : ∀ m ∈ max, min ≤ m) (hi : i ≤ t.length)
    (hj : ∀ {n i j}, i ≤ t.length → Times (Matches t r) n i j → j ≤ t.length) :
    (∃ k, Times (Matches t r) min i k ∧
      ∃ n, n ≤ max.elim (t.length + 1) (· - min) ∧ Times (Matches t r) n k j) ↔
      Matches t (.repetition r min max) i j := by
  constructor
  · rintro ⟨k, hik, n, hn, hkj⟩
    refine ⟨min + n, Nat.le_add_right _ _, fun m hm => ?_, (Times.add_iff min).mpr ⟨k, hik, hkj⟩⟩
    obtain rfl : max = some m := hm
    have hle := h m rfl
    simp only [Option.elim_some] at hn
    omega
  · rintro ⟨n, hmin, hmax, hn⟩
    obtain ⟨n, rfl⟩ := Nat.exists_eq_add_of_le hmin
    obtain ⟨k, hik, hkj⟩ := (Times.add_iff min).mp hn
    cases max with
    | some m =>
        have hle := hmax m rfl
        exact ⟨k, hik, n, by simp only [Option.elim_some]; omega, hkj⟩
    | none =>
        obtain ⟨m, hm, hkj'⟩ := hkj.exists_le Matches.le
        have hle := hj (hj hi hik) hkj
        exact ⟨k, hik, m, by simp only [Option.elim_none]; omega, hkj'⟩

theorem ends_follows (t : Text) {r : Regex} (h : r.InOrder) :
    Follows t.length (ends t r) (Matches t r) := by
  induction r with
  | empty => exact .id
  | set flags s => exact .advance t fun c => s.contains flags c.toNat
  | look flags l => exact .sift t fun before after => l.holds flags before after
  | seq r s ihr ihs => exact (ihr h.1).comp (ihs h.2)
  | alt r s ihr ihs => exact (ihr h.1).union (ihs h.2)
  | repetition r min max ih =>
      have hr := ih h.1
      refine ((hr.iterate min).comp (hr.widen (max.elim (t.length + 1) (· - min)))).congr ?_
      exact fun i j hi => Matches.repetition_iff h.2 hi fun {n i j} => (hr.iterate n).right_le

theorem matchesWithin_iff {r : Regex} (h : r.InOrder) (t : Text) :
    r.matchesWithin t ↔ ∃ i j, i ≤ t.length ∧ Matches t r i j := by
  have hfollows := ends_follows t h
  have hlength : (List.replicate (t.length + 1) true).length = t.length + 1 :=
    List.length_replicate
  have hall (i : Nat) : Places.Has (List.replicate (t.length + 1) true) i ↔ i ≤ t.length := by
    rw [Places.Has, List.getElem?_replicate]
    split
    · simp; omega
    · simp; omega
  have hany (p : Places) : p.any id ↔ ∃ j, p.Has j := by
    simp [Places.Has, List.any_eq_true, List.mem_iff_getElem?]
  rw [matchesWithin, hany]
  constructor
  · rintro ⟨j, hj⟩
    obtain ⟨i, hi, hij⟩ := (hfollows.has hlength).mp hj
    exact ⟨i, j, (hall i).mp hi, hij⟩
  · rintro ⟨i, j, hi, hij⟩
    exact ⟨j, (hfollows.has hlength).mpr ⟨i, (hall i).mpr hi, hij⟩⟩

end ShapeSearch.Regex
