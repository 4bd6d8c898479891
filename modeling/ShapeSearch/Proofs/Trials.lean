import ShapeSearch.Proofs.Distribution
import ShapeSearch.Proofs.Progress
import ShapeSearch.Proofs.WellBound

namespace ShapeSearch

namespace Attempt

variable {σ : Type}

def Restores (a : Attempt σ) : Prop :=
  ∀ s, (a s).1 = false → (a s).2 = s

theorem test_restores (b : Bool) : Restores (test (σ := σ) b) :=
  fun _ _ => rfl

theorem firstOf_restores (as : List (Attempt σ)) : Restores (firstOf as) :=
  fun _ => firstOf_of_false

end Attempt

namespace Comparison

open Attempt

variable {P W C σ : Type} (k : Comparison P W C σ)

theorem inOrder_restores (fallback : Nat) (es : List (Element P W)) (cs : List C) :
    Restores (k.inOrder fallback es cs) := by
  cases es with
  | nil => exact test_restores _
  | cons e es =>
      cases e with
      | run w => exact firstOf_restores _
      | one p =>
          cases cs with
          | nil => exact test_restores false
          | cons c cs => exact firstOf_restores _

theorem share_restores (offset : Nat) (cs : List C) (runs : List (W × List C)) :
    Restores (k.share offset cs runs) := by
  cases cs <;> exact firstOf_restores _

theorem pairUp_restores (offset : Nat) (ws : List W) (ps : List P) (cs : List C) :
    Restores (k.pairUp offset ws ps cs) := by
  cases ps with
  | nil =>
      rw [pairUp_nil]
      exact k.share_restores offset cs _
  | cons p ps => exact firstOf_restores _

theorem anyOrder_restores (offset : Nat) (es : List (Element P W)) (cs : List C) :
    Restores (k.anyOrder offset es cs) := by
  rw [anyOrder]
  split
  · exact test_restores true
  · exact k.pairUp_restores _ _ _ _

end Comparison

namespace Captures

open Attempt

/-- All that was captured is there as before, in front of what has been added: names that nothing was
bound to, each with the property. -/
def AddsNames (Q : Text → Prop) (s t : Captures) : Prop :=
  ∃ added, t = s ++ added ∧ ∀ x ∈ added, s.lookup x.1 = none ∧ Q x.1

variable {Q : Text → Prop} {s t u : Captures}

theorem AddsNames.refl (Q : Text → Prop) (s : Captures) : AddsNames Q s s :=
  ⟨[], (List.append_nil s).symm, by simp⟩

theorem AddsNames.trans (hst : AddsNames Q s t) (htu : AddsNames Q t u) : AddsNames Q s u := by
  obtain ⟨first, rfl, hfirst⟩ := hst
  obtain ⟨second, rfl, hsecond⟩ := htu
  refine ⟨first ++ second, List.append_assoc _ _ _, fun x hx => ?_⟩
  rcases List.mem_append.mp hx with hx | hx
  · exact hfirst x hx
  · obtain ⟨hfree, hQ⟩ := hsecond x hx
    rw [List.lookup_append, Option.or_eq_none_iff] at hfree
    exact ⟨hfree.1, hQ⟩

theorem addsNames_congruence (Q : Text → Prop) :
    Congruence fun a _ => ∀ s, AddsNames Q s (a s).2 where
  test _ s := .refl Q s
  andThen {a a' b b'} ha hb s := by
    rw [andThen_apply]
    split
    · exact (ha s).trans (hb _)
    · exact ha s
  firstOf h s := by
    induction h with
    | nil => exact .refl Q s
    | cons ha _ ih =>
        rw [firstOf_cons]
        split
        · exact ha s
        · exact ih

theorem bind_addsNames {name : Text} (hname : name ≠ [] → Q name) (b : Binding) (s : Captures) :
    AddsNames Q s (bind name b s).2 := by
  rw [bind]
  split
  · exact .refl Q s
  next hempty =>
    split
    next hfree =>
      refine ⟨[(name, b)], rfl, fun x hx => ?_⟩
      obtain rfl := List.mem_singleton.mp hx
      exact ⟨hfree, hname (by simpa using hempty)⟩
    next => exact .refl Q s

theorem bind_restores (name : Text) (b : Binding) : Restores (bind name b) := by
  intro s
  rw [bind]
  split
  · intro _
    rfl
  · split
    · intro h
      cases h
    · intro _
      rfl

end Captures

namespace Wildcard

open Attempt

variable (w : Wildcard) (source : Text) {Q : Text → Prop}

theorem bindOne_addsNames (hname : w.ofVariable.name ≠ [] → Q w.ofVariable.name) (skipped : Nat)
    (n : Node) (s : Captures) : s.AddsNames Q (w.bindOne source skipped n s).2 := by
  rw [bindOne]
  split
  · exact Captures.bind_addsNames hname _ s
  · exact .refl Q s

theorem bindRun_addsNames (hname : w.ofVariable.name ≠ [] → Q w.ofVariable.name) (ns : List Node)
    (offset : Nat) (s : Captures) : s.AddsNames Q (w.bindRun source ns offset s).2 := by
  rw [bindRun]
  split
  · exact Captures.bind_addsNames hname _ s
  · exact .refl Q s

theorem bindOne_restores (skipped : Nat) (n : Node) : Restores (w.bindOne source skipped n) := by
  rw [bindOne]
  split
  · exact Captures.bind_restores _ _
  · exact test_restores false

theorem bindRun_restores (ns : List Node) (offset : Nat) : Restores (w.bindRun source ns offset) := by
  rw [bindRun]
  split
  · exact Captures.bind_restores _ _
  · exact test_restores false

end Wildcard

namespace Pattern

def DeclaresName (p : Pattern) (name : Text) : Prop :=
  ∃ v ∈ p.template.declared, v.isAnonymous = false ∧ v.name = name

theorem compare_addsNames (p : Pattern) (source : Text) (room : Nat) (a b : Node) (s : Captures) :
    s.AddsNames p.DeclaresName (p.compare source room a b s).2 := by
  have hcongruence := Captures.addsNames_congruence p.DeclaresName
  refine compare_related hcongruence (.refl p) (fun x _ w hw => ?_) b s
  have hname (h : w.ofVariable.name ≠ []) : p.DeclaresName w.ofVariable.name :=
    ⟨w.ofVariable, mem_declared_of_wildcard? hw, by simpa [Variable.isAnonymous] using h, rfl⟩
  exact ⟨hw, fun _ _ => w.bindOne_addsNames source hname _ _, fun _ _ =>
    w.bindRun_addsNames source hname _ _⟩

end Pattern

namespace Progress

open Attempt

theorem restores_onCaptures {a : Attempt Captures} (h : Restores a) : Restores (onCaptures a) :=
  fun s hs => congrArg (Progress.mk · s.depth) (h s.captures hs)

/-- A comparison of two nodes, which is the one that a search makes with the levels that are left, comes
back to the depth at which it began, whatever its outcome, and adds no captures but those of named
variables of the template that were not bound before. A wildcard that does not take a node or a run
binds nothing, and lists that do not match leave the whole state as it was, however their members
are compared. -/
theorem trials_leave_no_trace (p : Pattern) (source : Text) :
    (∀ limit a b s,
      matchNodes p source limit a b s = onCaptures (p.compare source (limit - s.depth) a b) s ∧
      (matchNodes p source limit a b s).2.depth = s.depth ∧
      s.captures.AddsNames p.DeclaresName (matchNodes p source limit a b s).2.captures) ∧
    (∀ (w : Wildcard) skipped n, Restores (validate w source skipped n)) ∧
    (∀ (w : Wildcard) ns offset, Restores (validateRun w source ns offset)) ∧
    ∀ (α : Type) [Listed α] (one : α → α → Attempt Progress) patterns candidates parent,
      Restores (matchInOrder p source one patterns candidates parent) ∧
      Restores (matchInAnyOrder p source one patterns candidates parent) := by
  refine ⟨fun limit a b s => ?_, fun w skipped n => ?_, fun w ns offset => ?_, ?_⟩
  · have happly : matchNodes p source limit a b s =
        onCaptures (p.compare source (limit - s.depth) a b) s := matchNodes_apply a b s
    rw [happly]
    exact ⟨rfl, rfl, p.compare_addsNames source _ a b s.captures⟩
  · exact restores_onCaptures (w.bindOne_restores source skipped n)
  · exact restores_onCaptures (w.bindRun_restores source ns offset)
  · intro α _ one patterns candidates parent
    exact ⟨Comparison.inOrder_restores _ _ _ _, Comparison.anyOrder_restores _ _ _ _⟩

end Progress

end ShapeSearch
