import ShapeSearch.Proofs.Counts
import ShapeSearch.Proofs.Grouping
import ShapeSearch.Template.Segment

namespace ShapeSearch

namespace Regex

variable {ignoreCase : Bool} {flags : Flags} {p : Text} {r : Regex}

def between (flags : Flags) (r : Regex) : Regex :=
  .seq (.look flags .textStart) (.seq r (.look flags .textEnd))

theorem matches_textStart_iff {t : Text} {i j : Nat} (hi : i ≤ t.length) :
    Matches t (.look flags .textStart) i j ↔ i = 0 ∧ i = j := by
  refine and_congr_left fun _ => ?_
  cases i with
  | zero => simp [Look.holds, charBefore?]
  | succ i =>
      have hlt : i < t.length := hi
      simp [Look.holds, charBefore?, hlt]

theorem matches_textEnd_iff {t : Text} {i j : Nat} (hi : i ≤ t.length) :
    Matches t (.look flags .textEnd) i j ↔ i = t.length ∧ i = j := by
  refine and_congr_left fun _ => ?_
  rw [Look.holds, Option.isNone_iff_eq_none, List.getElem?_eq_none_iff]
  omega

theorem matchesWithin_between (h : r.InOrder) (t : Text) :
    (r.between flags).matchesWithin t ↔ r.MatchesWhole t := by
  rw [matchesWithin_iff (r := r.between flags) ⟨trivial, h, trivial⟩]
  constructor
  · rintro ⟨i, j, hi, k, hstart, l, hr, hend⟩
    obtain ⟨rfl, rfl⟩ := (matches_textStart_iff hi).mp hstart
    obtain ⟨rfl, rfl⟩ := (matches_textEnd_iff ((ends_follows t h).right_le hi hr)).mp hend
    exact hr
  · intro hr
    exact ⟨0, t.length, Nat.zero_le _, 0, (matches_textStart_iff (Nat.zero_le _)).mpr ⟨rfl, rfl⟩,
      t.length, hr, (matches_textEnd_iff (Nat.le_refl _)).mpr ⟨rfl, rfl⟩⟩

def Group.anchor (ignoreCase : Bool) : Group :=
  (Group.opening (.start ignoreCase)).add (.look (.start ignoreCase) .textStart)

theorem readAll_anchored (p : Text) : Token.readAll (Constraint.anchored p) =
    (Token.readAll (p ++ ')' :: ['$'])).map (.atom .caret :: .openGroup none [] :: ·) := by
  have hanchored : Constraint.anchored p = '^' :: '(' :: '?' :: ':' :: (p ++ ')' :: ['$']) := by
    simp [Constraint.anchored]
  have hopen (t : Text) : Token.read '(' ('?' :: ':' :: t) = .ok (.openGroup none [], 2) := rfl
  rw [hanchored, Token.readAll_cons, Token.read_single (by decide), Except.bind, List.drop_zero,
    Token.readAll_cons, hopen, Except.bind]
  simp only [List.drop_succ_cons, List.drop_zero]
  cases Token.readAll (p ++ ')' :: ['$']) <;> rfl

theorem readAll_dollar : Token.readAll ['$'] = .ok [.atom .dollar] := by
  rw [Token.readAll_cons, Token.read_single (by decide), Except.bind, List.drop_zero,
    Token.readAll]
  rfl

theorem steps_anchor (tokens : List Token) :
    (Reading.start (.start ignoreCase)).steps (.atom .caret :: .openGroup none [] :: tokens) =
      ((Reading.start (.start ignoreCase)).within [.anchor ignoreCase]).steps tokens :=
  rfl

theorem steps_close {s : Reading} (h : s.outer = []) :
    (s.within [.anchor ignoreCase]).steps [.closeGroup, .atom .dollar] =
      .ok ⟨((Group.anchor ignoreCase).add s.group.regex).add (.look (.start ignoreCase) .textEnd), [],
        s.names⟩ := by
  obtain ⟨group, outer, names⟩ := s
  obtain rfl : outer = [] := h
  rfl

theorem read_anchored (h : read ignoreCase p = .ok r) :
    read ignoreCase (Constraint.anchored p) = .ok (r.between (.start ignoreCase)) := by
  obtain ⟨tokens, s, htokens, hs, houter, rfl⟩ := read_eq_ok_iff.mp h
  have htokens' : Token.readAll (Constraint.anchored p) =
      .ok (.atom .caret :: .openGroup none [] :: (tokens ++ [.closeGroup, .atom .dollar])) := by
    rw [readAll_anchored, Token.readAll_append htokens, readAll_dollar]
    rfl
  have hsteps : (Reading.start (.start ignoreCase)).steps
      (.atom .caret :: .openGroup none [] :: (tokens ++ [.closeGroup, .atom .dollar])) =
        .ok ⟨((Group.anchor ignoreCase).add s.group.regex).add (.look (.start ignoreCase) .textEnd),
          [], s.names⟩ := by
    rw [steps_anchor, Reading.steps_append, Reading.steps_within hs]
    exact steps_close houter
  exact read_eq_ok_iff.mpr ⟨_, _, htokens', hsteps, rfl, rfl⟩

/-- A parenthesis behind an expression that can be read by itself. -/
def ClosesEarly (ignoreCase : Bool) (p : Text) : Prop :=
  ∃ before after r, p = before ++ ')' :: after ∧ read ignoreCase before = .ok r

theorem not_closesEarly (h : read ignoreCase p = .ok r) : ¬ ClosesEarly ignoreCase p := by
  rintro ⟨before, after, r', rfl, hbefore⟩
  obtain ⟨tokens, s, htokens, hs, -, -⟩ := read_eq_ok_iff.mp h
  obtain ⟨tokens', s', htokens', hs', houter, -⟩ := read_eq_ok_iff.mp hbefore
  rw [Token.readAll_append htokens'] at htokens
  obtain ⟨rest, -, rfl⟩ := map_eq_ok_iff.mp htokens
  rw [Reading.steps_append, hs', Except.bind, Reading.steps, Reading.step, houter] at hs
  cases hs

theorem append_paren_cases {u p rest : Text} (h : p ++ ')' :: ['$'] = u ++ ')' :: rest) :
    p = u ∨ ∃ after, p = u ++ ')' :: after := by
  rcases List.append_eq_append_iff.mp h with ⟨w, rfl, hw⟩ | ⟨w, rfl, hw⟩
  · match w with
    | [] => exact .inl (List.append_nil p).symm
    | [c] => simp at hw
    | c :: d :: w => simp at hw
  · cases w with
    | nil => exact .inl (List.append_nil u)
    | cons c w =>
        obtain ⟨rfl, -⟩ := List.cons.inj hw
        exact .inr ⟨w, rfl⟩

/-- What can be read between the anchors can be read by itself, unless it closes the group that it
is put into. -/
theorem read_of_anchored (h : read ignoreCase (Constraint.anchored p) = .ok r) :
    (∃ r, read ignoreCase p = .ok r) ∨ ClosesEarly ignoreCase p := by
  obtain ⟨tokens, z, htokens, hz, houter, -⟩ := read_eq_ok_iff.mp h
  rw [readAll_anchored] at htokens
  obtain ⟨tokens, hpasted, rfl⟩ := map_eq_ok_iff.mp htokens
  rw [steps_anchor] at hz
  rcases Reading.steps_of_within hz with ⟨s, -, rfl⟩ | ⟨before, after, s, rfl, hs, hclosed⟩
  · -- the group around the expression would be open still
    exact absurd houter (List.append_ne_nil_of_right_ne_nil _ (List.cons_ne_nil _ _))
  · obtain ⟨u, rest, hsplit, hu, -⟩ := Token.readAll_split hpasted
    have hread := read_eq_ok_iff.mpr ⟨before, s, hu, hs, hclosed, rfl⟩
    rcases append_paren_cases hsplit with rfl | ⟨after, rfl⟩
    · exact .inl ⟨_, hread⟩
    · exact .inr ⟨u, after, _, rfl, hread⟩

end Regex

namespace Constraint

open Regex (ClosesEarly)

/-- An expression by itself makes a constraint, which asks for a match of the whole text. Whatever
else makes a constraint closes the group that the anchors are put around. -/
theorem compile_anchors (ignoreCase : Bool) (pattern : Text) (negated : Bool) :
    ((∃ r, Regex.read ignoreCase pattern = .ok r) ↔
      (∃ c, compile ignoreCase pattern negated = .ok c) ∧ ¬ ClosesEarly ignoreCase pattern) ∧
    ∀ r, Regex.read ignoreCase pattern = .ok r →
      ∃ c, compile ignoreCase pattern negated = .ok c ∧
        ∀ t, c.accepts t ↔ ¬ (r.MatchesWhole t ↔ negated) := by
  have hcompile {r : Regex} (h : Regex.read ignoreCase pattern = .ok r) :
      compile ignoreCase pattern negated = .ok ⟨pattern, negated, r.between (.start ignoreCase)⟩ := by
    rw [compile, Regex.read_anchored h]
    rfl
  refine ⟨⟨fun ⟨r, h⟩ => ⟨⟨_, hcompile h⟩, Regex.not_closesEarly h⟩, ?_⟩, fun r h => ?_⟩
  · rintro ⟨⟨c, hc⟩, hearly⟩
    obtain ⟨r, hr, -⟩ := map_eq_ok_iff.mp hc
    exact (Regex.read_of_anchored hr).resolve_right hearly
  · refine ⟨_, hcompile h, fun t => ?_⟩
    have hwhole : (r.between (.start ignoreCase)).matchesWithin t ↔ r.MatchesWhole t :=
      Regex.matchesWithin_between (Regex.read_inOrder h) t
    rw [← hwhole, accepts, bne_iff_ne, ne_eq, Bool.eq_iff_iff]

theorem compile_anchors_alternation : ∃ r c,
    Regex.read false "a|b".toList = .ok r ∧ compile false "a|b".toList true = .ok c ∧
      c.accepts "ab".toList ∧ ¬ r.MatchesWhole "ab".toList := by
  have hread : ((Regex.read false "a|b".toList).toOption.bind fun _ =>
      (compile false "a|b".toList true).toOption.map (·.accepts "ab".toList)) = some true := by
    decide +kernel
  simp only [Option.bind_eq_some_iff, Option.map_eq_some_iff] at hread
  obtain ⟨r, hr, c, hc, haccepts⟩ := hread
  have hr := ok_of_toOption hr
  have hc := ok_of_toOption hc
  obtain ⟨c', hc', hiff⟩ := (compile_anchors false "a|b".toList true).2 r hr
  obtain rfl : c = c' := Except.ok.inj (hc.symm.trans hc')
  exact ⟨r, c, hr, hc, haccepts, fun hmatches =>
    (hiff "ab".toList).mp haccepts (iff_of_true hmatches rfl)⟩

/-- The expression closes the group and opens another one, so that each of the anchors holds for one
of its halves only. -/
theorem compile_closesEarly : ∃ c, compile false "a)|(b".toList false = .ok c ∧
    c.accepts "ax".toList ∧ ¬ ∃ r, Regex.read false "a)|(b".toList = .ok r := by
  have hcompile : ((compile false "a)|(b".toList false).toOption.map (·.accepts "ax".toList)) =
      some true := by
    decide +kernel
  obtain ⟨c, hc, haccepts⟩ := Option.map_eq_some_iff.mp hcompile
  have hread : (Regex.read false "a)|(b".toList).toOption = none := by
    decide +kernel
  refine ⟨c, ok_of_toOption hc, haccepts, fun ⟨r, hr⟩ => ?_⟩
  rw [hr] at hread
  cases hread

end Constraint

end ShapeSearch
