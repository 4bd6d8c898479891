import ShapeSearch.Proofs.Emission
import ShapeSearch.Proofs.Rendering

namespace ShapeSearch

namespace Segment

section Readers

variable {ignoreCase : Bool} {offset n : Nat} {t : Text}

theorem readBound_le {digits : Text} {m : Nat} (h : readBound digits = .ok m) :
    m ≤ Quantifier.unbounded := by
  rw [readBound] at h
  split at h
  · cases h
  next hread =>
    cases h
    simpa using (Option.filter_eq_some_iff.mp hread).2

theorem readBraced_ordered {q : Quantifier} (h : readBraced t = .ok (q, n)) :
    q.min ≤ q.max ∧ q.max ≤ Quantifier.unbounded := by
  simp only [readBraced] at h
  obtain ⟨min, hmin, h⟩ := bind_eq_ok_iff.mp h
  have hmin := readBound_le hmin
  split at h
  · cases h
    exact ⟨Nat.le_refl min, hmin⟩
  · cases h
    exact ⟨hmin, Nat.le_refl _⟩
  · obtain ⟨max, hmax, h⟩ := bind_eq_ok_iff.mp h
    split at h
    · cases h
    · split at h
      · cases h
      next hle =>
        cases h
        exact ⟨Nat.not_lt.mp hle, readBound_le hmax⟩
  · cases h

theorem readQuantifier_ordered {q : Quantifier} (h : readQuantifier t = .ok (some q, n)) :
    q.min ≤ q.max ∧ q.max ≤ Quantifier.unbounded := by
  unfold readQuantifier at h
  split at h
  · cases h
    decide
  · cases h
    decide
  · cases h
    decide
  · obtain ⟨⟨q', m⟩, hread, h⟩ := map_eq_ok_iff.mp h
    cases h
    exact readBraced_ordered hread
  · cases h

theorem constraintBody?_closed {body : Text} (h : constraintBody? t = some body) :
    body <+: t ∧ ¬ ")]".toList <:+: body := by
  induction t generalizing body with
  | nil => cases h
  | cons c t ih =>
      by_cases hclose : c = ')' ∧ t.head? = some ']'
      · obtain ⟨rfl, hhead⟩ := hclose
        obtain ⟨u, rfl⟩ := List.head?_eq_some_iff.mp hhead
        cases h
        exact ⟨List.nil_prefix, by decide⟩
      · rw [constraintBody?_cons hclose] at h
        obtain ⟨rest, hrest, rfl⟩ := Option.map_eq_some_iff.mp h
        obtain ⟨hbegins, hclosed⟩ := ih hrest
        refine ⟨List.cons_prefix_cons.mpr ⟨rfl, hbegins⟩, fun hinfix => ?_⟩
        change [')', ']'] <:+: c :: rest at hinfix
        rcases List.infix_cons_iff.mp hinfix with hstart | hinfix
        · obtain ⟨rfl, hbracket⟩ := List.cons_prefix_cons.mp hstart
          obtain ⟨u, rfl⟩ := hbracket.trans hbegins
          exact hclose ⟨rfl, rfl⟩
        · exact hclosed hinfix

/-- Everything that is asked of a constraint that a scan leaves. -/
theorem readConstraints_valid {found r : Option Constraint}
    (h : readConstraints ignoreCase offset found t = .ok (r, n)) {c : Constraint} (hc : r = some c) :
    found = some c ∨ Constraint.compile ignoreCase c.pattern c.negated = .ok c ∧
      ¬ ")]".toList <:+: c.pattern := by
  by_cases hopen : t.head? = some '['
  · obtain ⟨x, rfl⟩ := List.head?_eq_some_iff.mp hopen
    obtain ⟨-, body, d, m, hbody, -, hcompile, hnext, -⟩ := readConstraints_bracket.mp h
    -- a second bracket is refused, so that nothing is read behind the first
    have hrest : r = some d := by
      by_cases hagain : (x.drop (negation x + body.length + 8)).head? = some '['
      · obtain ⟨y, hy⟩ := List.head?_eq_some_iff.mp hagain
        rw [hy] at hnext
        obtain ⟨-, -, -, -, -, hnone, -⟩ := readConstraints_bracket.mp hnext
        cases hnone
      · rw [readConstraints_of_head hagain] at hnext
        cases hnext
        rfl
    obtain rfl : d = c := Option.some.inj (hrest.symm.trans hc)
    obtain ⟨regex, hregex, rfl⟩ := map_eq_ok_iff.mp hcompile
    exact .inr ⟨hcompile, (constraintBody?_closed hbody).2⟩
  · rw [readConstraints_of_head hopen] at h
    cases h
    exact .inl hc

theorem readModifiers_valid {q : Option Quantifier} {c : Option Constraint} {name : Text}
    (hname : IsName name) (h : readModifiers ignoreCase offset t = .ok (q, c, n)) :
    Occurrence.Valid ignoreCase ⟨name, offset, q, c⟩ := by
  simp only [readModifiers] at h
  split at h
  · obtain ⟨⟨q', k⟩, hq, h⟩ := bind_eq_ok_iff.mp h
    obtain ⟨⟨c', m⟩, hc, h⟩ := bind_eq_ok_iff.mp h
    cases h
    have hread {d : Constraint} (hd : c' = some d) :=
      (readConstraints_valid hc hd).resolve_left (by simp)
    refine ⟨hname, fun hq' => ?_, fun hd => (hread hd).1, fun hd => (hread hd).2⟩
    obtain rfl : q' = _ := hq'
    exact readQuantifier_ordered (mapError_eq_ok_iff.mp hq)
  · cases h
    refine ⟨hname, fun hq => ?_, fun hd => ?_, fun hd => ?_⟩
    · cases hq
    · cases hd
    · cases hd

end Readers

/-- Whether a scan of some template leaves a segment. -/
def Scanned (ignoreCase : Bool) (s : Segment) : Prop :=
  ∃ t ss, scan ignoreCase t = .ok ss ∧ s ∈ ss

variable {ignoreCase : Bool}

theorem mem_wildcards_iff {o : Occurrence} {ss : List Segment} :
    o ∈ wildcards ss ↔ wildcard o ∈ ss := by
  induction ss with
  | nil => simp [wildcards]
  | cons s ss ih => cases s <;> simp [wildcards, ih]

theorem scanFrom_valid {offset : Nat} {t : Text} {ss : List Segment}
    (h : scanFrom ignoreCase offset t = .ok ss) : ∀ o ∈ wildcards ss, o.Valid ignoreCase := by
  induction t using text_induct generalizing offset ss with
  | done =>
      rw [scanFrom] at h
      cases h
      exact fun o ho => absurd ho List.not_mem_nil
  | escape c t hc ih =>
      rw [scanFrom_escape hc] at h
      obtain ⟨rest, hrest, rfl⟩ := map_eq_ok_iff.mp h
      rw [wildcards_consChar]
      exact ih hrest
  | wildcard name rest hname hends hopen ih =>
      rw [scanFrom_variable hname hends hopen] at h
      split at h
      · cases h
      next q c n hmodifiers =>
        obtain ⟨segments, hsegments, rfl⟩ := map_eq_ok_iff.mp h
        exact List.forall_mem_cons.mpr ⟨readModifiers_valid hname hmodifiers, ih n hsegments⟩
  | char c t hplain ih =>
      rw [scanFrom_char hplain] at h
      obtain ⟨rest, hrest, rfl⟩ := map_eq_ok_iff.mp h
      rw [wildcards_consChar]
      exact ih hrest

theorem valid_of_scanned {ss : List Segment} (h : ∀ s ∈ ss, s.Scanned ignoreCase) :
    ∀ o ∈ wildcards ss, o.Valid ignoreCase := by
  intro o ho
  obtain ⟨t, scanned, hscan, hmem⟩ := h _ (mem_wildcards_iff.mp ho)
  exact scanFrom_valid hscan o (mem_wildcards_iff.mpr hmem)

end Segment

theorem Constraint.eq_of_compile {ignoreCase : Bool} {c d : Constraint}
    (hc : compile ignoreCase c.pattern c.negated = .ok c)
    (hd : compile ignoreCase d.pattern d.negated = .ok d) (h : c.sameAs d = true) : c = d := by
  simp only [sameAs, Bool.and_eq_true, beq_iff_eq] at h
  rw [h.1, h.2] at hc
  exact Except.ok.inj (hc.symm.trans hd)

end ShapeSearch
