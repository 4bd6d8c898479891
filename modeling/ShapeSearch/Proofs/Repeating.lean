import ShapeSearch.Proofs.Choices
import ShapeSearch.Proofs.Exposed

namespace ShapeSearch

def Captures.Bound (ns : List Text) (s : Captures) : Prop :=
  ∀ n ∈ ns, ∃ b, s.lookup n = some b

theorem Captures.Bound.mono {ns : List Text} {s t : Captures} (h : Bound ns s) (hst : s <+: t) :
    Bound ns t := by
  intro n hn
  obtain ⟨b, hb⟩ := h n hn
  exact ⟨b, lookup_of_prefix hst hb⟩

namespace Attempt

open Captures

/-- Once these names are bound the attempt binds no more, and succeeds again if it has succeeded on
the way there. -/
structure Repeats (ns : List Text) (a : Attempt Captures) : Prop where
  grows : Grows a
  keeps {s : Captures} (hs : Bound ns s) (ha : (a s).1 = true) : (a s).2 = s
  again {s t : Captures} (ht : Bound ns t) (ha : (a s).1 = true) (hst : (a s).2 <+: t) :
    (a t).1 = true

namespace Repeats

variable {ns : List Text} {a b : Attempt Captures}

theorem eq_true (h : Repeats ns a) {s t : Captures} (ht : Bound ns t) (ha : (a s).1 = true)
    (hst : (a s).2 <+: t) : a t = (true, t) :=
  Prod.ext (h.again ht ha hst) (h.keeps ht (h.again ht ha hst))

theorem andThen (ha : Repeats ns a) (hb : Repeats ns b) : Repeats ns (andThen a b) where
  grows := ha.grows.andThen hb.grows
  keeps {s} hs hab := by
    obtain ⟨has, hbs⟩ := andThen_succeeds_iff.mp hab
    rw [andThen_apply, if_pos has]
    rw [ha.keeps hs has] at hbs ⊢
    exact hb.keeps hs hbs
  again {s t} ht hab hst := by
    obtain ⟨has, hbs⟩ := andThen_succeeds_iff.mp hab
    rw [andThen_apply, if_pos has] at hst
    have hat := ha.eq_true ht has ((hb.grows _).trans hst)
    rw [andThen_apply, hat]
    exact hb.again ht hbs hst

theorem firstOf {as : List (Attempt Captures)} (h : ∀ a ∈ as, Repeats ns a) :
    Repeats ns (firstOf as) where
  grows := .firstOf fun a ha => (h a ha).grows
  keeps {s} hs hsome := by
    obtain ⟨a, ha, has⟩ := firstOf_eq_true (Prod.ext hsome rfl : Attempt.firstOf as s = (true, _))
    have hkeeps := (h a ha).keeps hs (by rw [has])
    rwa [has] at hkeeps
  again {s t} ht hsome hst := by
    obtain ⟨a, ha, has⟩ := firstOf_eq_true (Prod.ext hsome rfl : Attempt.firstOf as s = (true, _))
    refine firstOf_succeeds_iff.mpr ⟨a, ha, (h a ha).again (s := s) ht (by rw [has]) ?_⟩
    rwa [has]

theorem congruence (ns : List Text) : Congruence fun a _ => Repeats ns a where
  test _ := ⟨fun _ => List.prefix_rfl, fun _ _ => rfl, fun _ h _ => h⟩
  andThen := andThen
  firstOf h := firstOf (forall_mem_of_forall₂ h)

theorem bind {name : Text} (h : name ≠ [] → name ∈ ns) (b : Binding) :
    Repeats ns (Captures.bind name b) := by
  by_cases hname : name = []
  · subst hname
    exact (congruence ns).succeed
  · have hempty : name.isEmpty = false := by simpa using hname
    have hbound {s : Captures} (hs : Bound ns s) :
        ∃ a, s.lookup name = some a ∧ Captures.bind name b s = (a.agrees b, s) := by
      obtain ⟨a, ha⟩ := hs name (h hname)
      exact ⟨a, ha, by simp [Captures.bind, hempty, ha]⟩
    refine ⟨Captures.bind_grows name b, fun {s} hs _ => ?_, fun {s t} ht ha hst => ?_⟩
    · obtain ⟨a, -, hbind⟩ := hbound hs
      rw [hbind]
    · obtain ⟨c, hc, hagrees⟩ := Captures.bind_sound ⟨s, _, Prod.ext ha rfl, hst⟩ hname
      obtain ⟨a, ha, hbind⟩ := hbound ht
      rw [hc, Option.some.injEq] at ha
      rw [hbind, ← ha]
      exact hagrees

end Repeats

end Attempt

namespace Wildcard

variable {w : Wildcard} {ns : List Text}

theorem bindOne_repeats (h : w.names ⊆ ns) (source : Text) (skipped : Nat) (n : Node) :
    Attempt.Repeats ns (w.bindOne source skipped n) := by
  rw [bindOne]
  split
  · exact .bind (fun hname => h (by simp [names, hname])) _
  · exact (Attempt.Repeats.congruence ns).fail

theorem bindRun_repeats (h : w.names ⊆ ns) (source : Text) (cs : List Node) (offset : Nat) :
    Attempt.Repeats ns (w.bindRun source cs offset) := by
  rw [bindRun]
  split
  · exact .bind (fun hname => h (by simp [names, hname])) _
  · exact (Attempt.Repeats.congruence ns).fail

end Wildcard

namespace Pattern

open Attempt

variable {p : Pattern} {e : Captures}

theorem names_subset {x : Node} {xs : List Node} (hx : x ∈ xs) {w : Wildcard}
    (hw : p.wildcard? x = some w) : w.names ⊆ p.names xs := by
  intro n hn
  refine List.mem_flatMap.mpr ⟨x, hx, ?_⟩
  rwa [hw]

theorem compare_repeats (p : Pattern) (source : Text) (room : Nat) (a b : Node) :
    Repeats (p.names (p.places room a)) (p.compare source room a b) := by
  refine compare_related (Repeats.congruence _) (.refl p) (fun x hx w hw => ⟨hw, ?_, ?_⟩) b
  · exact w.bindOne_repeats (names_subset hx hw) source
  · exact w.bindRun_repeats (names_subset hx hw) source

theorem places_of_quotedName {a x : Node} (hquoted : a.isQuoted = true)
    (hx : a.childOfKind? "identifier" = some x) (hw : p.wildcard? x = none) (room : Nat) :
    p.places room x = [] := by
  cases room with
  | zero => simp [places, hw]
  | succ room =>
      rw [places_succ hw, List.flatMap_eq_nil_iff]
      intro c hc
      rw [compared_of_name hquoted hx hc, List.flatMap_nil]

theorem bound_names {xs : List Node}
    (h : ∀ x ∈ xs, ∀ w, p.wildcard? x = some w → w.IsBound e) : Captures.Bound (p.names xs) e := by
  intro n hn
  obtain ⟨x, hx, hn⟩ := List.mem_flatMap.mp hn
  cases hw : p.wildcard? x with
  | none =>
      rw [hw] at hn
      cases hn
  | some w =>
      rw [hw, Option.elim_some, Wildcard.names] at hn
      split at hn
      · cases hn
      next hname =>
        rw [List.mem_singleton.mp hn]
        exact h x hx w hw (by simpa using hname)

theorem isBound_of_mem_places {S : Node → Prop} (hS : Node.Stable S) {source : Text} {room : Nat}
    {a b y : Node} (hb : S b)
    (hapart : ∀ level, ∀ x ∈ p.structuralAt level a, ∀ z, S z → p.ApartFrom source x z)
    (h : (p.compare source room a b).Accepts e) (hy : y ∈ p.places room a) {w : Wildcard}
    (hw : p.wildcard? y = some w) : w.IsBound e := by
  induction room generalizing a b with
  | zero =>
      cases hwa : p.wildcard? a with
      | none => exact absurd h (not_accepts_zero hwa)
      | some v =>
          rw [places_of_wildcard hwa, List.mem_singleton] at hy
          subst hy
          exact isBound_of_accepts hw h
  | succ room ih =>
      cases hwa : p.wildcard? a with
      | some v =>
          rw [places_of_wildcard hwa, List.mem_singleton] at hy
          subst hy
          exact isBound_of_accepts hw h
      | none =>
          rw [places_succ hwa, List.mem_flatMap] at hy
          obtain ⟨c, hc, hcy⟩ := hy
          obtain ⟨x, hx, hy⟩ := List.mem_flatMap.mp hcy
          have hname (hquoted : c = .quotedName) : ∃ v, p.wildcard? x = some v := by
            subst hquoted
            obtain ⟨hquoted, -⟩ := strategy_of_quotedName_mem hc
            refine Option.isSome_iff_exists.mp (Option.isSome_iff_ne_none.mpr fun hnone => ?_)
            rw [places_of_quotedName hquoted (Option.mem_toList.mp hx) hnone] at hy
            cases hy
          have hself : a ∈ p.structuralAt 0 a := mem_structuralAt_zero_iff.mpr ⟨hwa, rfl⟩
          rcases (demands_of_accepts hwa (hapart 0 a hself b hb) h hc).paired hx with
            ⟨v, hv, hbound⟩ | ⟨z, hz, hxz⟩ | ⟨hquoted, hnone⟩
          · rw [places_of_wildcard hv, List.mem_singleton] at hy
            subst hy
            rw [hw, Option.some.injEq] at hv
            exact hv ▸ hbound
          · refine ih (hS b z hb c hz) (fun level x' hx' => ?_) hxz hy
            have hquoted : c ≠ .quotedName := by
              intro hquoted
              obtain ⟨v, hv⟩ := hname hquoted
              rw [structuralAt_of_wildcard hv] at hx'
              cases hx'
            have hopened := Clause.opened_of_compared hquoted hx
            exact hapart (level + 1) x' (mem_structuralAt_succ_iff.mpr ⟨hwa, c, hc, x, hopened, hx'⟩)
          · obtain ⟨v, hv⟩ := hname hquoted
            rw [hnone] at hv
            cases hv

/-- A comparison that has succeeded does so whenever what it bound is bound, and binds no more. -/
theorem compare_again {S : Node → Prop} (hS : Node.Stable S) {source : Text} {room : Nat}
    {a b : Node} (hb : S b)
    (hapart : ∀ level, ∀ x ∈ p.structuralAt level a, ∀ z, S z → p.ApartFrom source x z)
    {s t u : Captures} (h : p.compare source room a b s = (true, t)) (htu : t <+: u) :
    p.compare source room a b u = (true, u) := by
  have hbound : Captures.Bound (p.names (p.places room a)) u := bound_names fun x hx w hw =>
    isBound_of_mem_places hS hb hapart ⟨s, t, h, htu⟩ hx hw
  refine (p.compare_repeats source room a b).eq_true (s := s) hbound ?_ ?_
  · rw [h]
  · rwa [h]

end Pattern

end ShapeSearch
