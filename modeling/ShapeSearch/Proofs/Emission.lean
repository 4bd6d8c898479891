import Mathlib.Data.List.Chain
import ShapeSearch.Proofs.Naming
import ShapeSearch.Proofs.Slices

namespace ShapeSearch

namespace Segment

def emitted (k : Nat) : Segment → Text
  | text t => t
  | wildcard _ => Template.placeholder k

def passed (k : Nat) : Segment → Nat
  | text _ => k
  | wildcard _ => k + 1

def emission (k : Nat) : List Segment → Text
  | [] => []
  | s :: ss => s.emitted k ++ emission (s.passed k) ss

/-- A segment with its number among the wildcards and with the bytes that are parsed in its place. -/
structure Span where
  number : Nat
  start : Nat
  stop : Nat
  segment : Segment

def spans (k offset : Nat) : List Segment → List Span
  | [] => []
  | s :: ss => ⟨k, offset, offset + Text.bytes (s.emitted k), s⟩ ::
      spans (s.passed k) (offset + Text.bytes (s.emitted k)) ss

def wildcards : List Segment → List Occurrence
  | [] => []
  | text _ :: ss => wildcards ss
  | wildcard o :: ss => o :: wildcards ss

theorem mem_spans {k : Nat} {before : Text} {ss : List Segment} {span : Span}
    (h : span ∈ spans k before.bytes ss) :
    Text.Stands (span.segment.emitted span.number) span.start (before ++ emission k ss) ∧
      span.stop = span.start + Text.bytes (span.segment.emitted span.number) := by
  induction ss generalizing k before with
  | nil => cases h
  | cons s ss ih =>
      rw [spans] at h
      cases h with
      | head => exact ⟨⟨before, emission (s.passed k) ss, rfl, rfl⟩, rfl⟩
      | tail _ h =>
          rw [← Text.bytes_append] at h
          rw [emission, ← List.append_assoc]
          exact ih h

theorem segment_mem_of_mem_spans {k offset : Nat} {ss : List Segment} {span : Span}
    (h : span ∈ spans k offset ss) : span.segment ∈ ss := by
  induction ss generalizing k offset with
  | nil => cases h
  | cons s ss ih =>
      rw [spans] at h
      cases h with
      | head => exact List.mem_cons_self
      | tail _ h => exact List.mem_cons_of_mem s (ih h)

theorem wildcards_of_mem_spans {k offset : Nat} {ss : List Segment} {span : Span} {o : Occurrence}
    (h : span ∈ spans k offset ss) (ho : span.segment = wildcard o) :
    ∃ j, span.number = k + j ∧ (wildcards ss)[j]? = some o := by
  induction ss generalizing k offset with
  | nil => cases h
  | cons s ss ih =>
      rw [spans] at h
      cases h with
      | head =>
          subst ho
          exact ⟨0, rfl, rfl⟩
      | tail _ h =>
          obtain ⟨j, hnumber, hj⟩ := ih h
          cases s with
          | text t => exact ⟨j, hnumber, hj⟩
          | wildcard o' => exact ⟨j + 1, by rw [hnumber, passed]; omega, hj⟩

section Scan

variable {ignoreCase : Bool} {offset : Nat} {t : Text} {ss : List Segment}

def Apart : Segment → Segment → Prop
  | text _, text _ => False
  | _, _ => True

theorem apart_wildcard (o : Occurrence) (h : ss.IsChain Apart) : (wildcard o :: ss).IsChain Apart := by
  cases ss with
  | nil => exact .singleton _
  | cons s ss => exact .cons_cons trivial h

theorem apart_text {t u : Text} (h : (text t :: ss).IsChain Apart) : (text u :: ss).IsChain Apart := by
  cases ss with
  | nil => exact .singleton _
  | cons s ss =>
      obtain ⟨hnext, h⟩ := List.isChain_cons_cons.mp h
      cases s with
      | text t => exact hnext.elim
      | wildcard o => exact .cons_cons trivial h

theorem apart_consChar (c : Char) (h : ss.IsChain Apart) : (consChar c ss).IsChain Apart := by
  cases ss with
  | nil => exact .singleton _
  | cons s ss =>
      cases s with
      | text t => exact apart_text h
      | wildcard o => exact .cons_cons trivial h

theorem wildcards_consChar (c : Char) (ss : List Segment) :
    wildcards (consChar c ss) = wildcards ss := by
  cases ss with
  | nil => rfl
  | cons s ss => cases s <;> rfl

/-- A scan joins the characters between two wildcards, and a wildcard takes up some characters. -/
theorem scanFrom_spec (h : scanFrom ignoreCase offset t = .ok ss) :
    ss.IsChain Apart ∧ (wildcards ss).length ≤ t.length := by
  induction t using text_induct generalizing offset ss with
  | done =>
      rw [scanFrom] at h
      cases h
      exact ⟨.nil, Nat.le_refl _⟩
  | escape c t hc ih =>
      rw [scanFrom_escape hc] at h
      obtain ⟨rest, hrest, rfl⟩ := map_eq_ok_iff.mp h
      obtain ⟨hapart, hlength⟩ := ih hrest
      refine ⟨apart_consChar c hapart, ?_⟩
      rw [wildcards_consChar, List.length_cons, List.length_cons]
      omega
  | wildcard name rest hname hends hopen ih =>
      rw [scanFrom_variable hname hends hopen] at h
      split at h
      · cases h
      next q c n _ =>
        obtain ⟨segments, hsegments, rfl⟩ := map_eq_ok_iff.mp h
        obtain ⟨hapart, hlength⟩ := ih n hsegments
        refine ⟨apart_wildcard _ hapart, ?_⟩
        simp only [wildcards, List.length_cons, List.length_append, List.length_drop] at hlength ⊢
        omega
  | char c t hplain ih =>
      rw [scanFrom_char hplain] at h
      obtain ⟨rest, hrest, rfl⟩ := map_eq_ok_iff.mp h
      obtain ⟨hapart, hlength⟩ := ih hrest
      refine ⟨apart_consChar c hapart, ?_⟩
      rw [wildcards_consChar, List.length_cons]
      omega

end Scan

end Segment

namespace Template

open Segment

variable {t u : Template} {o : Occurrence} {ss : List Segment}

theorem addOccurrence_emits (h : t.addOccurrence o = .ok u) :
    u.normalised = t.normalised ++ placeholder t.occurrences.length ∧
      u.occurrences.length = t.occurrences.length + 1 := by
  simp only [addOccurrence] at h
  split at h
  · cases h
    exact ⟨rfl, List.length_append⟩
  · obtain ⟨v, -, rfl⟩ := map_eq_ok_iff.mp h
    exact ⟨rfl, List.length_append⟩

theorem addSegments_emits (h : t.addSegments ss = .ok u) :
    u.normalised = t.normalised ++ emission t.occurrences.length ss := by
  induction ss generalizing t with
  | nil =>
      cases h
      exact (List.append_nil _).symm
  | cons s ss ih =>
      cases s with
      | text text =>
          rw [ih (t := t.addText text) h, emission, ← List.append_assoc]
          rfl
      | wildcard o =>
          simp only [addSegments, addSegment] at h
          split at h
          · cases h
          next next hnext =>
            obtain ⟨hnormalised, hlength⟩ := addOccurrence_emits hnext
            rw [ih h, hnormalised, hlength, emission, List.append_assoc]
            rfl

/-- The variable that the placeholder with a number stands for. -/
def variableAt? (t : Template) (k : Nat) : Option Variable :=
  t.occurrences[k]?.bind (t.declared[·]?)

end Template

namespace Variable

variable {v w : Variable} {o : Occurrence}

/-- A variable has the name that an occurrence gives it, and whatever else is said there. -/
structure Serves (v : Variable) (o : Occurrence) : Prop where
  name : v.name = o.name
  quantifier {q : Quantifier} (hq : o.quantifier = some q) : v.explicitQuantifier = some q
  constraint {c : Constraint} (hc : o.constraint = some c) :
    ∃ d, v.constraint = some d ∧ d.sameAs c = true

/-- A variable has kept everything that has been said about it. -/
structure Extends (w v : Variable) : Prop where
  name : w.name = v.name
  quantifier {q : Quantifier} (hq : v.explicitQuantifier = some q) : w.explicitQuantifier = some q
  constraint {c : Constraint} (hc : v.constraint = some c) : w.constraint = some c

theorem Serves.extend (h : v.Serves o) (hw : w.Extends v) : w.Serves o where
  name := hw.name.trans h.name
  quantifier hq := hw.quantifier (h.quantifier hq)
  constraint hc := by
    obtain ⟨d, hd, hsame⟩ := h.constraint hc
    exact ⟨d, hw.constraint hd, hsame⟩

theorem serves_ofOccurrence (o : Occurrence) : (ofOccurrence o).Serves o where
  name := rfl
  quantifier hq := hq
  constraint {c} hc := ⟨c, hc, by simp [Constraint.sameAs]⟩

theorem merge_spec (h : v.merge o = .ok w) (hname : v.name = o.name) : w.Extends v ∧ w.Serves o := by
  obtain ⟨hquantifier, hconstraint, rfl⟩ := merge_eq_ok_iff.mp h
  refine ⟨⟨rfl, fun hq => ?_, fun hc => ?_⟩, hname, fun hq => ?_, fun {c} hc => ?_⟩
  · exact (or_eq_some_iff hquantifier).mpr (.inl hq)
  · exact congrArg (Option.or · o.constraint) hc
  · exact (or_eq_some_iff hquantifier).mpr (.inr hq)
  · cases hv : v.constraint with
    | none => exact ⟨c, hc, by simp [Constraint.sameAs]⟩
    | some d => exact ⟨d, rfl, hconstraint d c hv hc⟩

end Variable

namespace Template

variable {t u : Template} {o : Occurrence} {os : List Occurrence} {ss : List Segment}

/-- The placeholders stand for the wildcards of a template, and no two of them for a variable without
a name. -/
structure Declares (t : Template) (os : List Occurrence) : Prop where
  length : t.occurrences.length = os.length
  serves {k : Nat} {o : Occurrence} (ho : os[k]? = some o) :
    ∃ i v, t.occurrences[k]? = some i ∧ t.declared[i]? = some v ∧ v.Serves o
  fresh {j k i : Nat} {v : Variable} (hj : t.occurrences[j]? = some i)
    (hk : t.occurrences[k]? = some i) (hv : t.declared[i]? = some v) (hname : v.name = []) : j = k

theorem getElem?_concat_iff {α : Type} {xs : List α} {x y : α} {k : Nat} :
    (xs ++ [x])[k]? = some y ↔ xs[k]? = some y ∨ k = xs.length ∧ x = y := by
  rcases Nat.lt_trichotomy k xs.length with hk | rfl | hk
  · rw [List.getElem?_append_left hk]
    simp [Nat.ne_of_lt hk]
  · rw [List.getElem?_concat_length, List.getElem?_eq_none (Nat.le_refl _)]
    simp
  · rw [List.getElem?_eq_none (by simp; omega), List.getElem?_eq_none (Nat.le_of_lt hk)]
    simp [Nat.ne_of_gt hk]

theorem Declares.lt (h : t.Declares os) {k i : Nat} (hk : t.occurrences[k]? = some i) :
    i < t.declared.length := by
  obtain ⟨hlt, -⟩ := List.getElem?_eq_some_iff.mp hk
  obtain ⟨o, ho⟩ : ∃ o, os[k]? = some o := ⟨_, List.getElem?_eq_getElem (h.length ▸ hlt)⟩
  obtain ⟨j, v, hj, hv, -⟩ := h.serves ho
  obtain rfl := Option.some.inj (hk.symm.trans hj)
  exact (List.getElem?_eq_some_iff.mp hv).1

theorem Declares.declare (h : t.Declares os) (o : Occurrence) :
    (addPlace { t with declared := t.declared ++ [Variable.ofOccurrence o] }
      t.declared.length).Declares (os ++ [o]) := by
  refine ⟨?_, fun {k o'} hk => ?_, fun {j k i v} hj hk hv hname => ?_⟩
  · simp [addPlace, h.length]
  · rcases getElem?_concat_iff.mp hk with hk | ⟨rfl, rfl⟩
    · obtain ⟨i, v, hi, hv, hserves⟩ := h.serves hk
      exact ⟨i, v, getElem?_concat_iff.mpr (.inl hi), getElem?_concat_iff.mpr (.inl hv), hserves⟩
    · exact ⟨t.declared.length, .ofOccurrence o, getElem?_concat_iff.mpr (.inr ⟨h.length.symm, rfl⟩),
        getElem?_concat_iff.mpr (.inr ⟨rfl, rfl⟩), Variable.serves_ofOccurrence o⟩
  · rcases getElem?_concat_iff.mp hj with hj | ⟨rfl, rfl⟩
    · have hlt := h.lt hj
      rcases getElem?_concat_iff.mp hk with hk | ⟨-, rfl⟩
      · rcases getElem?_concat_iff.mp hv with hv | ⟨rfl, -⟩
        · exact h.fresh hj hk hv hname
        · exact absurd hlt (Nat.lt_irrefl _)
      · exact absurd hlt (Nat.lt_irrefl _)
    · rcases getElem?_concat_iff.mp hk with hk | ⟨rfl, -⟩
      · exact absurd (h.lt hk) (Nat.lt_irrefl _)
      · rfl

theorem Declares.share (h : t.Declares os) {i : Fin t.declared.length} {v : Variable}
    (hname : (t.declared.get i).name ≠ []) (hextends : v.Extends (t.declared.get i))
    (hserves : v.Serves o) :
    (addPlace { t with declared := t.declared.set i v } i).Declares (os ++ [o]) := by
  have hset {m : Nat} {w : Variable} (hw : t.declared[m]? = some w) :
      ∃ w', (t.declared.set i v)[m]? = some w' ∧ w'.Extends w := by
    by_cases hm : i.val = m
    · subst hm
      obtain rfl : t.declared.get i = w := by simpa using hw
      exact ⟨v, List.getElem?_set_self i.isLt, hextends⟩
    · exact ⟨w, by rw [List.getElem?_set_ne hm, hw], ⟨rfl, id, id⟩⟩
  refine ⟨?_, fun {k o'} hk => ?_, fun {j k m w} hj hk hw hnil => ?_⟩
  · simp [addPlace, h.length]
  · rcases getElem?_concat_iff.mp hk with hk | ⟨rfl, rfl⟩
    · obtain ⟨m, w, hm, hw, hserves⟩ := h.serves hk
      obtain ⟨w', hw', hextends'⟩ := hset hw
      exact ⟨m, w', getElem?_concat_iff.mpr (.inl hm), hw', hserves.extend hextends'⟩
    · exact ⟨i, v, getElem?_concat_iff.mpr (.inr ⟨h.length.symm, rfl⟩),
        List.getElem?_set_self i.isLt, hserves⟩
  · have hne : m ≠ i.val := by
      rintro rfl
      have hv : v = w := Option.some.inj ((List.getElem?_set_self i.isLt).symm.trans hw)
      exact hname (hextends.name.symm.trans (hv ▸ hnil))
    have hold : t.declared[m]? = some w := by
      rwa [addPlace, List.getElem?_set_ne hne.symm] at hw
    rcases getElem?_concat_iff.mp hj with hj | ⟨-, rfl⟩
    · rcases getElem?_concat_iff.mp hk with hk | ⟨-, rfl⟩
      · exact h.fresh hj hk hold hnil
      · exact absurd rfl hne
    · exact absurd rfl hne

theorem Declares.addOccurrence (h : t.Declares os) (hu : t.addOccurrence o = .ok u) :
    u.Declares (os ++ [o]) := by
  simp only [Template.addOccurrence] at hu
  split at hu
  next =>
    cases hu
    exact h.declare o
  next i hi =>
    obtain ⟨hfound, -⟩ := List.findFinIdx?_eq_some_iff.mp hi
    obtain ⟨v, hmerge, rfl⟩ := map_eq_ok_iff.mp hu
    simp only [Variable.isAnonymous, Bool.and_eq_true, Bool.not_eq_true', List.isEmpty_eq_false_iff,
      beq_iff_eq] at hfound
    obtain ⟨hextends, hserves⟩ := Variable.merge_spec hmerge hfound.2
    exact h.share hfound.1 hextends hserves

theorem Declares.addSegments (h : t.Declares os) (hu : t.addSegments ss = .ok u) :
    u.Declares (os ++ Segment.wildcards ss) := by
  induction ss generalizing t os with
  | nil =>
      cases hu
      rwa [Segment.wildcards, List.append_nil]
  | cons s ss ih =>
      cases s with
      | text text => exact ih (t := t.addText text) ⟨h.length, h.serves, h.fresh⟩ hu
      | wildcard o =>
          simp only [Template.addSegments, addSegment] at hu
          split at hu
          · cases hu
          next next hnext =>
            have hdeclares := ih (h.addOccurrence hnext) hu
            rwa [List.append_assoc] at hdeclares

theorem declares_ofSegments (h : ofSegments ss = .ok t) : t.Declares (Segment.wildcards ss) := by
  have hempty : empty.Declares [] := by
    refine ⟨rfl, fun {k o} hk => ?_, fun {j k i v} hj => ?_⟩
    · rw [List.getElem?_nil] at hk
      cases hk
    · rw [empty, List.getElem?_nil] at hj
      cases hj
  exact hempty.addSegments h

theorem Declares.variableAt? (h : t.Declares os) {k : Nat} (hk : os[k]? = some o) :
    ∃ v, t.variableAt? k = some v ∧ v.Serves o := by
  obtain ⟨i, v, hi, hv, hserves⟩ := h.serves hk
  exact ⟨v, by rw [Template.variableAt?, hi, Option.bind_some, hv], hserves⟩

theorem Distinct.index_unique (h : t.Distinct) {i j : Nat} {v w : Variable}
    (hv : t.declared[i]? = some v) (hw : t.declared[j]? = some w) (hname : v.name = w.name)
    (hne : v.name ≠ []) : i = j := by
  rw [Distinct, List.pairwise_map, List.pairwise_iff_getElem] at h
  obtain ⟨hi, rfl⟩ := List.getElem?_eq_some_iff.mp hv
  obtain ⟨hj, rfl⟩ := List.getElem?_eq_some_iff.mp hw
  rcases Nat.lt_trichotomy i j with hij | rfl | hij
  · exact absurd hname (h i j hi hj hij hne)
  · rfl
  · exact absurd hname.symm (h j i hj hi hij (hname ▸ hne))

theorem Declares.shared_iff (h : t.Declares os) (hdistinct : t.Distinct) {j k : Nat}
    {o o' : Occurrence} (hj : os[j]? = some o) (hk : os[k]? = some o') :
    t.occurrences[j]? = t.occurrences[k]? ↔ j = k ∨ o.name = o'.name ∧ o.name ≠ [] := by
  obtain ⟨i, v, hi, hv, hserves⟩ := h.serves hj
  obtain ⟨i', v', hi', hv', hserves'⟩ := h.serves hk
  rw [hi, hi', Option.some.injEq]
  constructor
  · rintro rfl
    obtain rfl := Option.some.inj (hv.symm.trans hv')
    by_cases hname : v.name = []
    · exact .inl (h.fresh hi hi' hv hname)
    · exact .inr ⟨hserves.name.symm.trans hserves'.name, hserves.name ▸ hname⟩
  · rintro (rfl | ⟨hname, hne⟩)
    · exact Option.some.inj (hi.symm.trans hi')
    · refine hdistinct.index_unique hv hv' ?_ (hserves.name ▸ hne)
      rw [hserves.name, hserves'.name, hname]

end Template

end ShapeSearch
