import ShapeSearch.Proofs.Lexing
import ShapeSearch.Regex.Reading

namespace ShapeSearch.Regex

namespace Reading

/-- The same reading inside of further groups. -/
def within (s : Reading) (gs : List Group) : Reading :=
  { s with outer := s.outer ++ gs }

variable {s s' z : Reading} {gs : List Group} {token : Token} {tokens : List Token}

theorem step_within (h : s.step token = .ok s') :
    (s.within gs).step token = .ok (s'.within gs) := by
  cases token with
  | atom a =>
      obtain ⟨r, hr, rfl⟩ := map_eq_ok_iff.mp h
      exact map_eq_ok_iff.mpr ⟨r, hr, rfl⟩
  | repetition min max =>
      obtain ⟨g, hg, rfl⟩ := map_eq_ok_iff.mp h
      exact map_eq_ok_iff.mpr ⟨g, hg, rfl⟩
  | openGroup name change =>
      simp only [step] at h
      split at h
      · cases h
      next hname =>
        cases h
        have hname' : ¬ name.any (s.within gs).names.contains = true := hname
        rw [step, if_neg hname']
        rfl
  | closeGroup =>
      simp only [step] at h
      split at h
      · cases h
      next g outer houter =>
        cases h
        simp only [step, within, houter, List.cons_append]
  | _ =>
      cases h
      rfl

theorem step_of_within (h : (s.within gs).step token = .ok z) :
    (∃ s', s.step token = .ok s' ∧ z = s'.within gs) ∨ token = .closeGroup ∧ s.outer = [] := by
  cases hs : s.step token with
  | ok s' =>
      rw [step_within hs, Except.ok.injEq] at h
      exact .inl ⟨s', rfl, h.symm⟩
  | error e =>
      cases token with
      | atom a =>
          obtain ⟨r, hr, -⟩ := map_eq_ok_iff.mp h
          have hr' : a.regex s.group.flags = .ok r := hr
          rw [step, hr'] at hs
          cases hs
      | repetition min max =>
          obtain ⟨g, hg, -⟩ := map_eq_ok_iff.mp h
          have hg' : s.group.repeatLast min max = .ok g := hg
          rw [step, hg'] at hs
          cases hs
      | openGroup name change =>
          by_cases hname : name.any (s.within gs).names.contains = true
          · rw [step, if_pos hname] at h
            cases h
          · have hname' : ¬ name.any s.names.contains = true := hname
            rw [step, if_neg hname'] at hs
            cases hs
      | closeGroup =>
          cases houter : s.outer with
          | nil => exact .inr ⟨rfl, rfl⟩
          | cons g outer =>
              rw [step, houter] at hs
              cases hs
      | _ => cases hs

theorem steps_append (s : Reading) (before after : List Token) :
    s.steps (before ++ after) = (s.steps before).bind fun s' => s'.steps after := by
  induction before generalizing s with
  | nil => rfl
  | cons token before ih =>
      rw [List.cons_append, steps, steps]
      cases s.step token with
      | error e => rfl
      | ok next => exact ih next

theorem steps_within (h : s.steps tokens = .ok s') :
    (s.within gs).steps tokens = .ok (s'.within gs) := by
  induction tokens generalizing s with
  | nil =>
      cases h
      rfl
  | cons token tokens ih =>
      rw [steps] at h
      split at h
      · cases h
      next next hnext =>
        rw [steps, step_within hnext]
        exact ih h

theorem steps_of_within (h : (s.within gs).steps tokens = .ok z) :
    (∃ s', s.steps tokens = .ok s' ∧ z = s'.within gs) ∨
      ∃ before after s', tokens = before ++ .closeGroup :: after ∧ s.steps before = .ok s' ∧
        s'.outer = [] := by
  induction tokens generalizing s with
  | nil =>
      cases h
      exact .inl ⟨s, rfl, rfl⟩
  | cons token tokens ih =>
      rw [steps] at h
      split at h
      · cases h
      next next hnext =>
        rcases step_of_within hnext with ⟨s', hs', rfl⟩ | ⟨rfl, houter⟩
        · rcases ih h with ⟨last, hlast, rfl⟩ | ⟨before, after, last, rfl, hlast, houter⟩
          · exact .inl ⟨last, by rw [steps, hs']; exact hlast, rfl⟩
          · exact .inr ⟨token :: before, after, last, rfl, by rw [steps, hs']; exact hlast, houter⟩
        · exact .inr ⟨[], tokens, s, rfl, rfl, houter⟩

end Reading

end ShapeSearch.Regex
