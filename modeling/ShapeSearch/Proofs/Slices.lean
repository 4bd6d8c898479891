import ShapeSearch.Text

namespace ShapeSearch.Text

variable {s t u : Text} {lo hi m n : Nat}

theorem bytes_append (t u : Text) : bytes (t ++ u) = bytes t + bytes u := by
  induction t with
  | nil => exact (Nat.zero_add _).symm
  | cons c t ih => rw [List.cons_append, bytes, bytes, ih, Nat.add_assoc]

theorem length_le_bytes (t : Text) : t.length ≤ bytes t := by
  induction t with
  | nil => exact Nat.le_refl _
  | cons c t ih =>
      have hpos := c.utf8Size_pos
      rw [bytes, List.length_cons]
      omega

theorem drop?_cons (c : Char) (n : Nat) (t : Text) : drop? (c.utf8Size + n) (c :: t) = drop? n t := by
  obtain ⟨k, hk⟩ := Nat.exists_eq_add_one.mpr c.utf8Size_pos
  have hsize : c.utf8Size + n = k + n + 1 := by omega
  have hrest : k + n + 1 - c.utf8Size = n := by omega
  rw [hsize, drop?, if_pos (by omega), hrest]

theorem take?_cons (c : Char) (n : Nat) (t : Text) :
    take? (c.utf8Size + n) (c :: t) = (take? n t).map (c :: ·) := by
  obtain ⟨k, hk⟩ := Nat.exists_eq_add_one.mpr c.utf8Size_pos
  have hsize : c.utf8Size + n = k + n + 1 := by omega
  have hrest : k + n + 1 - c.utf8Size = n := by omega
  rw [hsize, take?, if_pos (by omega), hrest]

theorem drop?_bytes_add (t rest : Text) (n : Nat) :
    drop? (bytes t + n) (t ++ rest) = drop? n rest := by
  induction t with
  | nil => rw [bytes, Nat.zero_add, List.nil_append]
  | cons c t ih => rw [bytes, List.cons_append, Nat.add_assoc, drop?_cons, ih]

theorem drop?_bytes (t rest : Text) : drop? (bytes t) (t ++ rest) = some rest := by
  have h := drop?_bytes_add t rest 0
  rwa [Nat.add_zero, drop?] at h

theorem take?_bytes (t rest : Text) : take? (bytes t) (t ++ rest) = some t := by
  induction t with
  | nil => rw [bytes, take?]
  | cons c t ih => rw [bytes, List.cons_append, take?_cons, ih, Option.map_some]

theorem drop?_eq_some (h : drop? n s = some t) : ∃ before, s = before ++ t ∧ bytes before = n := by
  induction s generalizing n with
  | nil =>
      cases n with
      | zero =>
          cases h
          exact ⟨[], rfl, rfl⟩
      | succ n => cases h
  | cons c s ih =>
      cases n with
      | zero =>
          cases h
          exact ⟨[], rfl, rfl⟩
      | succ n =>
          simp only [drop?] at h
          split at h
          next hc =>
            obtain ⟨before, rfl, hbytes⟩ := ih h
            refine ⟨c :: before, rfl, ?_⟩
            rw [bytes, hbytes]
            omega
          next => cases h

theorem take?_eq_some (h : take? n t = some u) : ∃ rest, t = u ++ rest ∧ bytes u = n := by
  induction t generalizing n u with
  | nil =>
      cases n with
      | zero =>
          cases h
          exact ⟨[], rfl, rfl⟩
      | succ n => cases h
  | cons c t ih =>
      cases n with
      | zero =>
          cases h
          exact ⟨c :: t, rfl, rfl⟩
      | succ n =>
          simp only [take?] at h
          split at h
          next hc =>
            obtain ⟨v, hv, rfl⟩ := Option.map_eq_some_iff.mp h
            obtain ⟨rest, rfl, hbytes⟩ := ih hv
            refine ⟨rest, rfl, ?_⟩
            rw [bytes, hbytes]
            omega
          next => cases h

theorem drop?_add (h : drop? m s = some t) : drop? (m + n) s = drop? n t := by
  obtain ⟨before, rfl, rfl⟩ := drop?_eq_some h
  exact drop?_bytes_add before t n

theorem bytes_of_drop? (h : drop? n t = some u) : bytes t = n + bytes u := by
  obtain ⟨before, rfl, rfl⟩ := drop?_eq_some h
  exact bytes_append before u

theorem drop?_append (rest : Text) (h : n ≤ bytes t) :
    drop? n (t ++ rest) = (drop? n t).map (· ++ rest) := by
  induction t generalizing n with
  | nil =>
      obtain rfl : n = 0 := by simpa [bytes] using h
      cases rest <;> rfl
  | cons c t ih =>
      cases n with
      | zero => rfl
      | succ n =>
          rw [bytes] at h
          simp only [List.cons_append, drop?]
          split
          · exact ih (by omega)
          · rfl

theorem take?_append (rest : Text) (h : n ≤ bytes t) : take? n (t ++ rest) = take? n t := by
  induction t generalizing n with
  | nil =>
      obtain rfl : n = 0 := by simpa [bytes] using h
      cases rest <;> rfl
  | cons c t ih =>
      cases n with
      | zero => rfl
      | succ n =>
          rw [bytes] at h
          simp only [List.cons_append, take?]
          split
          · rw [ih (by omega)]
          · rfl

theorem bytes_of_slice? (h : slice? lo hi s = some t) : bytes t = hi - lo := by
  rw [slice?] at h
  split at h
  · obtain ⟨u, -, ht⟩ := Option.bind_eq_some_iff.mp h
    obtain ⟨-, -, hbytes⟩ := take?_eq_some ht
    exact hbytes
  · cases h

theorem slice?_of_slice? (h : slice? lo hi s = some t) (hn : n + lo ≤ hi) :
    slice? (m + lo) (n + lo) s = slice? m n t := by
  simp only [slice?] at h ⊢
  split at h
  next hle =>
    obtain ⟨u, hu, ht⟩ := Option.bind_eq_some_iff.mp h
    obtain ⟨rest, rfl, hbytes⟩ := take?_eq_some ht
    by_cases hmn : m ≤ n
    · have hlength : n + lo - (m + lo) = n - m := by omega
      rw [if_pos (by omega), if_pos hmn, Nat.add_comm m lo, drop?_add hu, Nat.add_comm lo m, hlength,
        drop?_append rest (by omega), Option.bind_map]
      cases hv : drop? m t with
      | none => rfl
      | some v =>
          have hv := bytes_of_drop? hv
          exact take?_append rest (by omega)
    · rw [if_neg (by omega), if_neg hmn]
  next => cases h

theorem slice_of_slice? (h : slice? lo hi s = some t) (hn : n + lo ≤ hi) :
    slice (m + lo) (n + lo) s = slice m n t := by
  rw [slice, slice?_of_slice? h hn, slice]

/-- A text stands at a byte of another one. -/
def Stands (u : Text) (n : Nat) (s : Text) : Prop :=
  ∃ before after, s = before ++ (u ++ after) ∧ bytes before = n

theorem Stands.slice (h : Stands u n s) : slice n (n + bytes u) s = u := by
  obtain ⟨before, after, rfl, rfl⟩ := h
  rw [Text.slice, slice?, if_pos (Nat.le_add_right _ _), drop?_bytes, Option.bind_some,
    Nat.add_sub_cancel_left, take?_bytes, Option.getD_some]

theorem stands_of_slice_ne_nil (h : slice lo hi s ≠ []) :
    Stands (slice lo hi s) lo s ∧ lo + bytes (slice lo hi s) = hi := by
  rw [slice] at h ⊢
  cases hslice : slice? lo hi s with
  | none =>
      rw [hslice] at h
      exact absurd rfl h
  | some u =>
      rw [Option.getD_some]
      rw [slice?] at hslice
      split at hslice
      next hle =>
        obtain ⟨t, ht, hu⟩ := Option.bind_eq_some_iff.mp hslice
        obtain ⟨before, rfl, hbefore⟩ := drop?_eq_some ht
        obtain ⟨after, rfl, hbytes⟩ := take?_eq_some hu
        exact ⟨⟨before, after, rfl, hbefore⟩, by omega⟩
      next => cases hslice

theorem Stands.comparable {v : Text} (hu : Stands u n s) (hv : Stands v n s) :
    ∃ rest rest', u ++ rest = v ++ rest' := by
  obtain ⟨before, after, rfl, rfl⟩ := hu
  obtain ⟨before', after', heq, hbytes⟩ := hv
  have hdrop := drop?_bytes before (u ++ after)
  rw [heq, ← hbytes, drop?_bytes] at hdrop
  exact ⟨after, after', (Option.some.inj hdrop).symm⟩

theorem Stands.append_left (h : Stands u n s) (front : Text) :
    Stands u (bytes front + n) (front ++ s) := by
  obtain ⟨before, after, rfl, rfl⟩ := h
  exact ⟨front ++ before, after, (List.append_assoc _ _ _).symm, bytes_append _ _⟩

theorem Stands.append_right (h : Stands u n s) (rest : Text) : Stands u n (s ++ rest) := by
  obtain ⟨before, after, rfl, rfl⟩ := h
  exact ⟨before, after ++ rest, by simp only [List.append_assoc], rfl⟩

theorem Stands.trans {v : Text} (hv : Stands v m u) (hu : Stands u n s) : Stands v (n + m) s := by
  obtain ⟨before, after, rfl, rfl⟩ := hu
  have h := (hv.append_right after).append_left before
  exact h

theorem Stands.isInfix (h : Stands u n s) : u <:+: s := by
  obtain ⟨before, after, rfl, -⟩ := h
  rw [← List.append_assoc]
  exact List.infix_append before u after

theorem Stands.of_append (h : Stands u n (s ++ t)) : Stands u n s ∨
    (∃ m, n = bytes s + m ∧ Stands u m t) ∨
      ∃ before left right after, u = left ++ right ∧ left ≠ [] ∧ right ≠ [] ∧ s = before ++ left ∧
        t = right ++ after := by
  obtain ⟨before, after, heq, rfl⟩ := h
  rcases List.append_eq_append_iff.mp heq with ⟨gap, rfl, rfl⟩ | ⟨left, rfl, hleft⟩
  · exact .inr (.inl ⟨bytes gap, bytes_append _ _, gap, after, rfl, rfl⟩)
  rcases List.append_eq_append_iff.mp hleft with ⟨gap, rfl, -⟩ | ⟨right, rfl, rfl⟩
  · exact .inl ⟨before, gap, rfl, rfl⟩
  by_cases hl : left = []
  · subst hl
    exact .inr (.inl ⟨0, by simp, [], after, rfl, rfl⟩)
  by_cases hr : right = []
  · subst hr
    exact .inl ⟨before, [], by simp, rfl⟩
  exact .inr (.inr ⟨before, left, right, after, rfl, hl, hr, rfl, rfl⟩)

theorem Stands.of_append_cons {c : Char} {rest : Text} (h : Stands u n (s ++ c :: rest))
    (hc : c ∉ u) : Stands u n s ∨ ∃ m, n = bytes s + c.utf8Size + m ∧ Stands u m rest := by
  rcases h.of_append with hu | ⟨m, rfl, hu⟩ | ⟨before, left, right, after, rfl, -, hne, -, hright⟩
  · exact .inl hu
  · obtain ⟨before, after, heq, rfl⟩ := hu
    cases before with
    | nil =>
        cases u with
        | nil => exact .inl ⟨s, [], by simp, rfl⟩
        | cons d u => exact absurd ((List.cons.inj heq).1 ▸ List.mem_cons_self) hc
    | cons d before =>
        obtain ⟨rfl, rfl⟩ := List.cons.inj heq
        exact .inr ⟨bytes before, (Nat.add_assoc _ _ _).symm, before, after, rfl, rfl⟩
  · cases right with
    | nil => exact absurd rfl hne
    | cons d right =>
        obtain ⟨rfl, -⟩ := List.cons.inj hright
        exact absurd (List.mem_append_right left List.mem_cons_self) hc

theorem slice_zero (t : Text) : slice 0 0 t = [] := by
  cases t <;> rfl

end ShapeSearch.Text
