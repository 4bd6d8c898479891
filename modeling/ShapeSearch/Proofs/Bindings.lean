import ShapeSearch.Proofs.Attempt
import ShapeSearch.Proofs.Relation

namespace ShapeSearch

open Attempt

theorem Binding.agrees_self (b : Binding) : b.agrees b = true := by
  cases b <;> simp [agrees]

theorem Binding.eq_single_of_agrees {a : Binding} {f : Fragment} (h : a.agrees (.single f) = true) :
    ∃ g, a = .single g ∧ g.label.kind = f.label.kind ∧ g.text = f.text := by
  cases a with
  | single g => exact ⟨g, rfl, by simpa [agrees] using h⟩
  | multiple => simp [agrees] at h

theorem Binding.eq_multiple_of_agrees {a : Binding} {fs : List Fragment} {start stop : Nat}
    {t : Text} (h : a.agrees (.multiple fs start stop t) = true) :
    ∃ gs start' stop' t', a = .multiple gs start' stop' t' ∧ gs.map (·.text) = fs.map (·.text) := by
  cases a with
  | single => simp [agrees] at h
  | multiple gs start' stop' t' => exact ⟨gs, start', stop', t', rfl, by simpa [agrees] using h⟩

namespace Captures

theorem lookup_of_prefix {s e : Captures} (h : s <+: e) {name : Text} {b : Binding}
    (hb : s.lookup name = some b) : e.lookup name = some b := by
  obtain ⟨rest, rfl⟩ := h
  rw [List.lookup_append, hb, Option.some_or]

theorem bind_grows (name : Text) (b : Binding) : Grows (Captures.bind name b) := by
  intro s
  rw [Captures.bind]
  split
  · exact List.prefix_rfl
  · split
    · exact List.prefix_append _ _
    · exact List.prefix_rfl

theorem bind_sound {name : Text} {b : Binding} {e : Captures} (h : (bind name b).Accepts e)
    (hname : name ≠ []) : ∃ a, e.lookup name = some a ∧ a.agrees b = true := by
  obtain ⟨s, t, hs, ht⟩ := h
  have hempty : name.isEmpty = false := by simpa using hname
  simp only [bind, hempty, Bool.false_eq_true, if_false] at hs
  cases hl : s.lookup name with
  | none =>
      rw [hl] at hs
      obtain ⟨-, rfl⟩ := Prod.mk.injEq .. ▸ hs
      refine ⟨b, lookup_of_prefix ht ?_, b.agrees_self⟩
      rw [List.lookup_append, hl, Option.none_or]
      simp
  | some a =>
      rw [hl] at hs
      obtain ⟨hagrees, rfl⟩ := Prod.mk.injEq .. ▸ hs
      exact ⟨a, lookup_of_prefix ht hl, hagrees⟩

end Captures

namespace Wildcard

variable {w : Wildcard} {source : Text} {e : Captures}

theorem bindOne_grows (w : Wildcard) (source : Text) (skipped : Nat) (n : Node) :
    Grows (w.bindOne source skipped n) := by
  rw [bindOne]
  split
  · exact Captures.bind_grows _ _
  · exact fun _ => List.prefix_rfl

theorem bindRun_grows (w : Wildcard) (source : Text) (ns : List Node) (offset : Nat) :
    Grows (w.bindRun source ns offset) := by
  rw [bindRun]
  split
  · exact Captures.bind_grows _ _
  · exact fun _ => List.prefix_rfl

theorem accepts_iff {skipped : Nat} {n : Node} :
    w.accepts source skipped n = true ↔
      (w.parametersOnly = true → n.isGenericParameter = true) ∧
        ∃ t, (n.text source).drop? skipped = some t ∧ w.ofVariable.accepts t = true := by
  simp only [accepts, Bool.and_eq_true, Bool.or_eq_true, Bool.not_eq_true', Option.any_eq_true]
  cases w.parametersOnly <;> simp

theorem bindOne_sound {skipped : Nat} {n : Node} (h : (w.bindOne source skipped n).Accepts e) :
    w.StandsFor source e skipped n := by
  rw [bindOne] at h
  split at h
  next hc =>
    rw [Bool.and_eq_true, accepts_iff] at hc
    obtain ⟨hmax, hfilter, t, ht, haccepts⟩ := hc
    refine ⟨by simpa using hmax, hfilter, t, ht, haccepts, fun hname => ?_⟩
    obtain ⟨a, ha, hagrees⟩ := Captures.bind_sound h hname
    obtain ⟨f, rfl, hkind, htext⟩ := Binding.eq_single_of_agrees hagrees
    rw [ht, Option.getD_some] at htext
    exact ⟨f, ha, hkind, htext⟩
  next => exact absurd h.test (by simp)

theorem bindRun_sound {ns : List Node} {offset : Nat} (h : (w.bindRun source ns offset).Accepts e) :
    w.StandsForRun source e ns := by
  rw [bindRun] at h
  split at h
  next hc =>
    rw [Bool.and_eq_true, List.all_eq_true] at hc
    refine ⟨hc.1, hc.2, fun hname => ?_⟩
    obtain ⟨a, ha, hagrees⟩ := Captures.bind_sound h hname
    obtain ⟨fs, start, stop, t, rfl, htexts⟩ := Binding.eq_multiple_of_agrees hagrees
    refine ⟨fs, start, stop, t, ha, ?_⟩
    rw [htexts, List.map_map]
    rfl
  next => exact absurd h.test (by simp)

end Wildcard

end ShapeSearch
