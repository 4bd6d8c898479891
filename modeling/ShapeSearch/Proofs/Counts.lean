import ShapeSearch.Proofs.Lexing
import ShapeSearch.Proofs.Matches
import ShapeSearch.Regex.Reading

namespace ShapeSearch.Regex

variable {c : FlagChange} {min : Nat} {max : Option Nat}

namespace Token

/-- No count ends before it starts. -/
def InOrder : Token → Prop
  | repetition min max => ∀ m ∈ max, min ≤ m
  | _ => True

theorem read_inOrder {c : Char} {t : Text} {token : Token} {n : Nat}
    (h : read c t = .ok (token, n)) : token.InOrder := by
  cases read_reads h with
  | single hleads =>
      unfold single
      split <;> trivial
  | opens hopens => cases hopens <;> trivial
  | atom a => trivial
  | repetition hle => exact hle

theorem readAll_inOrder {t : Text} {tokens : List Token} (h : readAll t = .ok tokens) :
    ∀ token ∈ tokens, token.InOrder := by
  induction tokens generalizing t with
  | nil => exact nofun
  | cons x tokens ih =>
      cases t with
      | nil =>
          rw [readAll] at h
          cases h
      | cons c t =>
          rw [readAll_cons] at h
          obtain ⟨⟨token, n⟩, htoken, h⟩ := bind_eq_ok_iff.mp h
          obtain ⟨rest, hrest, heq⟩ := map_eq_ok_iff.mp h
          obtain ⟨rfl, rfl⟩ := List.cons.inj heq
          rintro y (_ | ⟨_, hy⟩)
          · exact read_inOrder htoken
          · exact ih hrest y hy

end Token

theorem Atom.regex_inOrder {flags : Flags} {a : Atom} {r : Regex} (h : a.regex flags = .ok r) :
    r.InOrder := by
  rw [regex] at h
  split at h
  · cases h
    cases a <;> trivial
  · cases h

namespace Group

structure InOrder (g : Group) : Prop where
  alternatives : ∀ r ∈ g.alternatives, r.InOrder
  items : ∀ r, some r ∈ g.items → r.InOrder

namespace InOrder

variable {g : Group} {r : Regex}

theorem opening (flags : Flags) : (Group.opening flags).InOrder :=
  ⟨nofun, nofun⟩

theorem add (h : g.InOrder) (hr : r.InOrder) : (g.add r).InOrder := by
  refine ⟨h.alternatives, fun s hs => ?_⟩
  rcases List.mem_cons.mp hs with heq | hs
  · obtain rfl := Option.some.inj heq
    exact hr
  · exact h.items s hs

theorem change (h : g.InOrder) : (g.change c).InOrder := by
  refine ⟨h.alternatives, fun s hs => ?_⟩
  rcases List.mem_cons.mp hs with heq | hs
  · cases heq
  · exact h.items s hs

theorem sequence (h : g.InOrder) : g.sequence.InOrder := by
  have hitems : ∀ r ∈ g.items.filterMap id, r.InOrder := fun r hr => by
    obtain ⟨x, hx, rfl⟩ := List.mem_filterMap.mp hr
    exact h.items r hx
  have hfold (earlier : List Regex) (hearlier : ∀ r ∈ earlier, r.InOrder) (later : Regex)
      (hlater : later.InOrder) : (earlier.foldl (fun later r => .seq r later) later).InOrder := by
    induction earlier generalizing later with
    | nil => exact hlater
    | cons r earlier ih =>
        exact ih (fun s hs => hearlier s (List.mem_cons_of_mem r hs)) _
          ⟨hearlier r List.mem_cons_self, hlater⟩
  unfold Group.sequence
  split
  · trivial
  next last earlier heq =>
    rw [heq] at hitems
    exact hfold earlier (fun r hr => hitems r (List.mem_cons_of_mem last hr)) last
      (hitems last List.mem_cons_self)

theorem regex (h : g.InOrder) : g.regex.InOrder := by
  unfold Group.regex
  split
  · exact h.sequence
  next r heq => exact ⟨h.alternatives r heq, h.sequence⟩

theorem bar (h : g.InOrder) : g.bar.InOrder := by
  refine ⟨fun r hr => ?_, nofun⟩
  obtain rfl := Option.some.inj hr
  exact h.regex

theorem repeatLast {g' : Group} (h : g.InOrder) (hcount : ∀ m ∈ max, min ≤ m)
    (hg : g.repeatLast min max = .ok g') : g'.InOrder := by
  unfold Group.repeatLast at hg
  split at hg
  next r rest hitems =>
    cases hg
    refine ⟨h.alternatives, fun s hs => ?_⟩
    rcases List.mem_cons.mp hs with heq | hs
    · obtain rfl := Option.some.inj heq
      exact ⟨h.items r (hitems ▸ List.mem_cons_self), hcount⟩
    · exact h.items s (hitems ▸ List.mem_cons_of_mem _ hs)
  next => cases hg

end InOrder

end Group

namespace Reading

structure InOrder (s : Reading) : Prop where
  group : s.group.InOrder
  outer : ∀ g ∈ s.outer, g.InOrder

variable {s s' : Reading}

theorem InOrder.step {token : Token} (h : s.InOrder) (htoken : token.InOrder)
    (hs : s.step token = .ok s') : s'.InOrder := by
  cases token with
  | atom a =>
      obtain ⟨r, hr, rfl⟩ := map_eq_ok_iff.mp hs
      exact ⟨h.group.add (Atom.regex_inOrder hr), h.outer⟩
  | bar =>
      cases hs
      exact ⟨h.group.bar, h.outer⟩
  | repetition min max =>
      obtain ⟨g, hg, rfl⟩ := map_eq_ok_iff.mp hs
      exact ⟨h.group.repeatLast htoken hg, h.outer⟩
  | flags change =>
      cases hs
      exact ⟨h.group.change, h.outer⟩
  | openGroup name change =>
      simp only [Reading.step] at hs
      split at hs
      · cases hs
      · cases hs
        refine ⟨.opening _, fun g hg => ?_⟩
        rcases List.mem_cons.mp hg with rfl | hg
        · exact h.group
        · exact h.outer g hg
  | closeGroup =>
      simp only [Reading.step] at hs
      split at hs
      · cases hs
      next g outer houter =>
        cases hs
        have houter := houter ▸ h.outer
        exact ⟨(houter g List.mem_cons_self).add h.group.regex,
          fun g' hg' => houter g' (List.mem_cons_of_mem g hg')⟩

theorem InOrder.steps {tokens : List Token} (h : s.InOrder)
    (htokens : ∀ token ∈ tokens, token.InOrder) (hs : s.steps tokens = .ok s') : s'.InOrder := by
  induction tokens generalizing s with
  | nil =>
      cases hs
      exact h
  | cons token tokens ih =>
      rw [Reading.steps] at hs
      split at hs
      · cases hs
      next next hnext =>
        exact ih (h.step (htokens token List.mem_cons_self) hnext)
          (fun x hx => htokens x (List.mem_cons_of_mem token hx)) hs

end Reading

theorem read_eq_ok_iff {ignoreCase : Bool} {t : Text} {r : Regex} :
    read ignoreCase t = .ok r ↔ ∃ tokens s, Token.readAll t = .ok tokens ∧
      (Reading.start (.start ignoreCase)).steps tokens = .ok s ∧ s.outer = [] ∧
      s.group.regex = r := by
  have hfinish (s : Reading) : s.finish = .ok r ↔ s.outer = [] ∧ s.group.regex = r := by
    unfold Reading.finish
    cases s.outer <;> simp
  simp only [read, bind_eq_ok_iff, hfinish]
  constructor
  · rintro ⟨tokens, htokens, s, hs, h⟩
    exact ⟨tokens, s, htokens, hs, h⟩
  · rintro ⟨tokens, s, htokens, hs, h⟩
    exact ⟨tokens, htokens, s, hs, h⟩

theorem read_inOrder {ignoreCase : Bool} {t : Text} {r : Regex}
    (h : read ignoreCase t = .ok r) : r.InOrder := by
  obtain ⟨tokens, s, htokens, hs, -, rfl⟩ := read_eq_ok_iff.mp h
  have hstart : (Reading.start (.start ignoreCase)).InOrder := ⟨.opening _, nofun⟩
  exact (hstart.steps (Token.readAll_inOrder htokens) hs).group.regex

end ShapeSearch.Regex
