import ShapeSearch.Proofs.Hygiene
import ShapeSearch.Proofs.Scanned

namespace ShapeSearch

namespace Occurrence

variable {α : Type} {o o' : Occurrence} {os : List Occurrence} {j k l : Nat}

/-- Two occurrences do not contradict each other. -/
structure Agrees (o o' : Occurrence) : Prop where
  quantifier {q q' : Quantifier} (hq : o.quantifier = some q) (hq' : o'.quantifier = some q') : q = q'
  constraint {c c' : Constraint} (hc : o.constraint = some c) (hc' : o'.constraint = some c') :
    c.pattern = c'.pattern ∧ c.negated = c'.negated

theorem Agrees.refl (o : Occurrence) : o.Agrees o where
  quantifier hq hq' := Option.some.inj (hq.symm.trans hq')
  constraint hc hc' := by
    obtain rfl := Option.some.inj (hc.symm.trans hc')
    exact ⟨rfl, rfl⟩

theorem Agrees.symm (h : o.Agrees o') : o'.Agrees o where
  quantifier hq hq' := (h.quantifier hq' hq).symm
  constraint hc hc' := ⟨(h.constraint hc' hc).1.symm, (h.constraint hc' hc).2.symm⟩

/-- No two occurrences of one name contradict each other. -/
def Consistent (os : List Occurrence) : Prop :=
  ∀ o ∈ os, ∀ o' ∈ os, o.name = o'.name → o.name ≠ [] → o.Agrees o'

theorem Consistent.perm {os' : List Occurrence} (h : Consistent os) (hperm : os'.Perm os) :
    Consistent os' :=
  fun o ho o' ho' => h o (hperm.subset ho) o' (hperm.subset ho')

/-- No earlier occurrence of the name contradicts a further one. -/
def Fits (os : List Occurrence) (o : Occurrence) : Prop :=
  ∀ o' ∈ os, o'.name = o.name → o.name ≠ [] → o'.Agrees o

theorem consistent_concat_iff : Consistent (os ++ [o]) ↔ Consistent os ∧ Fits os o := by
  simp only [Consistent, Fits, List.forall_mem_append, List.forall_mem_singleton]
  constructor
  · rintro ⟨h, -⟩
    exact ⟨fun a ha => (h a ha).1, fun a ha hname hne => (h a ha).2 hname (hname ▸ hne)⟩
  · rintro ⟨h, hfits⟩
    refine ⟨fun a ha => ⟨h a ha, fun hname hne => hfits a ha hname (hname ▸ hne)⟩, ?_, ?_⟩
    · exact fun a ha hname hne => (hfits a ha hname.symm hne).symm
    · exact fun _ _ => .refl o

def first (os : List Occurrence) (name : Text) : Nat :=
  os.findIdx fun o => o.name == name

theorem first_lt_iff {name : Text} : first os name < os.length ↔ ∃ o ∈ os, o.name = name := by
  simp [first, List.findIdx_lt_length]

theorem getElem?_first (ho : o ∈ os) :
    ∃ o', os[first os o.name]? = some o' ∧ o'.name = o.name := by
  have hlt : first os o.name < os.length := first_lt_iff.mpr ⟨o, ho, rfl⟩
  have hfound := List.findIdx_getElem (w := hlt)
  exact ⟨_, List.getElem?_eq_getElem hlt, beq_iff_eq.mp hfound⟩

theorem first_concat_of_mem (ho : o ∈ os) (o' : Occurrence) :
    first (os ++ [o']) o.name = first os o.name := by
  have hlt : first os o.name < os.length := first_lt_iff.mpr ⟨o, ho, rfl⟩
  rw [first, List.findIdx_append]
  exact if_pos hlt

theorem first_concat_self (os : List Occurrence) (o : Occurrence) :
    first (os ++ [o]) o.name = first os o.name := by
  rw [first, List.findIdx_append]
  split
  · rfl
  next hnone =>
    have hlength : first os o.name = os.length :=
      Nat.le_antisymm List.findIdx_le_length (Nat.not_lt.mp hnone)
    rw [hlength]
    simp [List.findIdx_cons]

/-- Where the variable that stands at `k` stands first. -/
def leader (os : List Occurrence) (k : Nat) : Nat :=
  match os[k]? with
  | none => k
  | some o => if o.name = [] then k else first os o.name

theorem leader_eq (ho : os[k]? = some o) :
    leader os k = if o.name = [] then k else first os o.name := by
  simp only [leader, ho]

theorem getElem?_leader (ho : os[k]? = some o) :
    ∃ o', os[leader os k]? = some o' ∧ o'.name = o.name := by
  rw [leader_eq ho]
  split
  · exact ⟨o, ho, rfl⟩
  · exact getElem?_first (List.mem_of_getElem? ho)

theorem leader_lt (hk : k < os.length) : leader os k < os.length := by
  obtain ⟨o', ho', -⟩ := getElem?_leader (List.getElem?_eq_getElem hk)
  exact (List.getElem?_eq_some_iff.mp ho').1

theorem leader_eq_leader_iff (hj : os[j]? = some o) (hk : os[k]? = some o') :
    leader os j = leader os k ↔ j = k ∨ o.name = o'.name ∧ o.name ≠ [] := by
  constructor
  · intro h
    obtain ⟨a, ha, hname⟩ := getElem?_leader hj
    obtain ⟨b, hb, hname'⟩ := getElem?_leader hk
    obtain rfl : a = b := Option.some.inj (ha.symm.trans (h ▸ hb))
    have hsame : o.name = o'.name := hname.symm.trans hname'
    by_cases hne : o.name = []
    · rw [leader_eq hj, leader_eq hk, if_pos hne, if_pos (hsame ▸ hne)] at h
      exact .inl h
    · exact .inr ⟨hsame, hne⟩
  · rintro (rfl | ⟨hsame, hne⟩)
    · rfl
    · rw [leader_eq hj, leader_eq hk, if_neg hne, if_neg (hsame ▸ hne), hsame]

theorem leader_concat_of_lt (hk : k < os.length) (o : Occurrence) :
    leader (os ++ [o]) k = leader os k := by
  have hold : os[k]? = some os[k] := List.getElem?_eq_getElem hk
  have hnew : (os ++ [o])[k]? = some os[k] := by rw [List.getElem?_append_left hk, hold]
  rw [leader_eq hnew, leader_eq hold, first_concat_of_mem (List.getElem_mem hk)]

theorem leader_concat_length (os : List Occurrence) (o : Occurrence) :
    leader (os ++ [o]) os.length = if o.name = [] then os.length else first os o.name := by
  rw [leader_eq List.getElem?_concat_length, first_concat_self]

def leaders (os : List Occurrence) : List Nat :=
  (List.range os.length).filter fun k => leader os k = k

theorem mem_leaders_iff : l ∈ leaders os ↔ l < os.length ∧ leader os l = l := by
  simp [leaders]

theorem nodup_leaders (os : List Occurrence) : (leaders os).Nodup :=
  List.nodup_range.filter _

theorem leaders_concat (os : List Occurrence) (o : Occurrence) : leaders (os ++ [o]) =
    leaders os ++ if leader (os ++ [o]) os.length = os.length then [os.length] else [] := by
  have hold : (List.range os.length).filter (fun k => leader (os ++ [o]) k = k) = leaders os := by
    refine List.filter_congr fun k hk => ?_
    rw [leader_concat_of_lt (List.mem_range.mp hk)]
  rw [leaders, List.length_append, List.length_singleton, List.range_succ, List.filter_append, hold,
    List.filter_singleton]
  rcases eq_or_ne (leader (os ++ [o]) os.length) os.length with h | h <;> simp [h]

/-- Whether something is said at one of the places of the variable that stands first at `l`. -/
def Said (os : List Occurrence) (l : Nat) (f : Occurrence → Option α) (a : α) : Prop :=
  ∃ k o, os[k]? = some o ∧ leader os k = l ∧ f o = some a

variable {f : Occurrence → Option α} {a : α}

theorem said_concat_iff : Said (os ++ [o]) l f a ↔
    Said os l f a ∨ leader (os ++ [o]) os.length = l ∧ f o = some a := by
  constructor
  · rintro ⟨k, o', ho', hl, ha⟩
    rcases Template.getElem?_concat_iff.mp ho' with ho' | ⟨rfl, rfl⟩
    · obtain ⟨hk, -⟩ := List.getElem?_eq_some_iff.mp ho'
      exact .inl ⟨k, o', ho', by rwa [leader_concat_of_lt hk] at hl, ha⟩
    · exact .inr ⟨hl, ha⟩
  · rintro (⟨k, o', ho', hl, ha⟩ | ⟨hl, ha⟩)
    · obtain ⟨hk, -⟩ := List.getElem?_eq_some_iff.mp ho'
      exact ⟨k, o', Template.getElem?_concat_iff.mpr (.inl ho'), by rwa [leader_concat_of_lt hk], ha⟩
    · exact ⟨os.length, o, List.getElem?_concat_length, hl, ha⟩

theorem Said.lt (h : Said os l f a) : l < os.length := by
  obtain ⟨k, o, ho, rfl, -⟩ := h
  exact leader_lt (List.getElem?_eq_some_iff.mp ho).1

theorem not_said_length : ¬ Said os os.length f a :=
  fun h => absurd h.lt (Nat.lt_irrefl _)

theorem said_iff_of_named (ho : os[l]? = some o) (hl : leader os l = l) (hname : o.name ≠ []) :
    Said os l f a ↔ ∃ o' ∈ os, o'.name = o.name ∧ f o' = some a := by
  constructor
  · rintro ⟨k, o', ho', hk, ha⟩
    rcases (leader_eq_leader_iff ho' ho).mp (hk.trans hl.symm) with rfl | ⟨hsame, -⟩
    · obtain rfl := Option.some.inj (ho.symm.trans ho')
      exact ⟨o, List.mem_of_getElem? ho, rfl, ha⟩
    · exact ⟨o', List.mem_of_getElem? ho', hsame, ha⟩
  · rintro ⟨o', ho', hsame, ha⟩
    obtain ⟨k, hk⟩ := List.mem_iff_getElem?.mp ho'
    exact ⟨k, o', hk, ((leader_eq_leader_iff hk ho).mpr (.inr ⟨hsame, hsame ▸ hname⟩)).trans hl, ha⟩

end Occurrence

namespace Segment

theorem perm_wildcards {ss ss' : List Segment} (h : ss'.Perm ss) :
    (wildcards ss').Perm (wildcards ss) := by
  induction h with
  | nil => exact .refl _
  | cons s _ ih =>
      cases s with
      | text text => exact ih
      | wildcard o => exact ih.cons o
  | swap s s' ss =>
      cases s <;> cases s' <;> first | exact .refl _ | exact .swap _ _ _
  | trans _ _ ih ih' => exact ih.trans ih'

end Segment

namespace Template

open Occurrence
open Segment (wildcards)

variable {t u : Template} {o : Occurrence} {os : List Occurrence} {v : Variable} {i k l : Nat}
  {ignoreCase : Bool}

/-- All that is said of a variable, wherever it is said. -/
structure Tells (os : List Occurrence) (l : Nat) (v : Variable) : Prop where
  name {o : Occurrence} (ho : os[l]? = some o) : v.name = o.name
  quantifier (q : Quantifier) : v.explicitQuantifier = some q ↔ Said os l (·.quantifier) q
  constraint (c : Constraint) : v.constraint = some c ↔ Said os l (·.constraint) c

/-- The variables of a template are those of its wildcards, in the order in which they come. -/
structure Merges (t : Template) (os : List Occurrence) : Prop where
  occurrences : t.occurrences.length = os.length
  declared : t.declared.length = (leaders os).length
  place {k i : Nat} (hi : t.occurrences[k]? = some i) : (leaders os)[i]? = some (leader os k)
  tells {i l : Nat} {v : Variable} (hl : (leaders os)[i]? = some l) (hv : t.declared[i]? = some v) :
    Tells os l v

theorem Tells.concat (h : Tells os l v) (hl : l < os.length)
    (hother : leader (os ++ [o]) os.length ≠ l) : Tells (os ++ [o]) l v where
  name ho := h.name (by rwa [List.getElem?_append_left hl] at ho)
  quantifier q := by rw [said_concat_iff, h.quantifier]; simp [hother]
  constraint c := by rw [said_concat_iff, h.constraint]; simp [hother]

theorem tells_new (hnew : leader (os ++ [o]) os.length = os.length) :
    Tells (os ++ [o]) os.length (.ofOccurrence o) where
  name ho := by
    rw [List.getElem?_concat_length, Option.some.injEq] at ho
    exact congrArg Occurrence.name ho
  quantifier q := by
    rw [said_concat_iff]
    simp [not_said_length, hnew, Variable.ofOccurrence]
  constraint c := by
    rw [said_concat_iff]
    simp [not_said_length, hnew, Variable.ofOccurrence]

theorem Tells.merge (h : Tells os l v) (hl : l < os.length)
    (hvalid : ∀ o' ∈ os ++ [o], o'.Valid ignoreCase)
    (hshared : leader (os ++ [o]) os.length = l) {w : Variable} (hw : v.merge o = .ok w) :
    Tells (os ++ [o]) l w := by
  obtain ⟨hquantifier, hconstraint, rfl⟩ := Variable.merge_eq_ok_iff.mp hw
  have hsame : ∀ c d, v.constraint = some c → o.constraint = some d → c = d := by
    intro c d hc hd
    obtain ⟨k, o', ho', -, hc'⟩ := (h.constraint c).mp hc
    have hv := hvalid o' (List.mem_append_left _ (List.mem_of_getElem? ho'))
    have ho := hvalid o (List.mem_append_right _ List.mem_cons_self)
    exact Constraint.eq_of_compile (hv.compiles hc') (ho.compiles hd) (hconstraint c d hc hd)
  refine ⟨fun ho => h.name (by rwa [List.getElem?_append_left hl] at ho), fun q => ?_, fun c => ?_⟩
  · rw [or_eq_some_iff hquantifier, said_concat_iff, h.quantifier]
    simp [hshared]
  · rw [or_eq_some_iff hsame, said_concat_iff, h.constraint]
    simp [hshared]

theorem merges_empty : empty.Merges [] where
  occurrences := rfl
  declared := rfl
  place hi := by
    rw [empty, List.getElem?_nil] at hi
    cases hi
  tells hl := by
    rw [leaders, List.length_nil, List.range_zero, List.filter_nil, List.getElem?_nil] at hl
    cases hl

theorem Merges.addText (h : t.Merges os) (text : Text) : (t.addText text).Merges os :=
  ⟨h.occurrences, h.declared, h.place, h.tells⟩

theorem Merges.leads (h : t.Merges os) (hv : t.declared[i]? = some v) :
    ∃ l o, (leaders os)[i]? = some l ∧ os[l]? = some o ∧ leader os l = l ∧ v.name = o.name := by
  obtain ⟨hi, -⟩ := List.getElem?_eq_some_iff.mp hv
  have hl := List.getElem?_eq_getElem (h.declared ▸ hi)
  obtain ⟨hlt, hleads⟩ := mem_leaders_iff.mp (List.mem_of_getElem? hl)
  have ho := List.getElem?_eq_getElem hlt
  exact ⟨_, _, hl, ho, hleads, (h.tells hl hv).name ho⟩

theorem Merges.variable (h : t.Merges os) (ho : os[k]? = some o) :
    ∃ i v, t.occurrences[k]? = some i ∧ (leaders os)[i]? = some (leader os k) ∧
      t.declared[i]? = some v ∧ v.name = o.name := by
  obtain ⟨hk, -⟩ := List.getElem?_eq_some_iff.mp ho
  have hi := List.getElem?_eq_getElem (h.occurrences ▸ hk)
  have hl := h.place hi
  obtain ⟨hlt, -⟩ := List.getElem?_eq_some_iff.mp hl
  have hv := List.getElem?_eq_getElem (h.declared ▸ hlt)
  obtain ⟨o', ho', hname⟩ := getElem?_leader ho
  exact ⟨_, _, hi, hl, hv, ((h.tells hl hv).name ho').trans hname⟩

theorem Merges.declare (h : t.Merges os) (hnew : leader (os ++ [o]) os.length = os.length) :
    (addPlace { t with declared := t.declared ++ [Variable.ofOccurrence o] }
      t.declared.length).Merges (os ++ [o]) := by
  have hleaders : leaders (os ++ [o]) = leaders os ++ [os.length] := by
    rw [leaders_concat, if_pos hnew]
  refine ⟨?_, ?_, fun {k i} hi => ?_, fun {i l v} hl hv => ?_⟩
  · simp [addPlace, h.occurrences]
  · simp [addPlace, h.declared, hleaders]
  · rw [hleaders]
    rcases getElem?_concat_iff.mp hi with hi | ⟨rfl, rfl⟩
    · obtain ⟨hk, -⟩ := List.getElem?_eq_some_iff.mp hi
      rw [leader_concat_of_lt (h.occurrences ▸ hk)]
      exact getElem?_concat_iff.mpr (.inl (h.place hi))
    · rw [h.occurrences, hnew]
      exact getElem?_concat_iff.mpr (.inr ⟨h.declared, rfl⟩)
  · rw [hleaders] at hl
    rcases getElem?_concat_iff.mp hl with hl | ⟨rfl, rfl⟩
    · obtain ⟨hi, -⟩ := List.getElem?_eq_some_iff.mp hl
      obtain ⟨hlt, -⟩ := mem_leaders_iff.mp (List.mem_of_getElem? hl)
      have hv : t.declared[i]? = some v := by
        rwa [addPlace, List.getElem?_append_left (h.declared ▸ hi)] at hv
      exact (h.tells hl hv).concat hlt (by omega)
    · have hv : Variable.ofOccurrence o = v := by
        rwa [addPlace, ← h.declared, List.getElem?_concat_length, Option.some.injEq] at hv
      exact hv ▸ tells_new hnew

theorem Merges.share (h : t.Merges os) (hvalid : ∀ o' ∈ os ++ [o], o'.Valid ignoreCase)
    {i : Fin t.declared.length} (hi : (leaders os)[i.val]? = some l)
    (hshared : leader (os ++ [o]) os.length = l) {w : Variable}
    (hw : (t.declared.get i).merge o = .ok w) :
    (addPlace { t with declared := t.declared.set i w } i).Merges (os ++ [o]) := by
  obtain ⟨hlt, -⟩ := mem_leaders_iff.mp (List.mem_of_getElem? hi)
  have hleaders : leaders (os ++ [o]) = leaders os := by
    rw [leaders_concat, if_neg (by omega), List.append_nil]
  refine ⟨?_, ?_, fun {k j} hj => ?_, fun {j m v} hm hv => ?_⟩
  · simp [addPlace, h.occurrences]
  · simp [addPlace, h.declared, hleaders]
  · rw [hleaders]
    rcases getElem?_concat_iff.mp hj with hj | ⟨rfl, rfl⟩
    · obtain ⟨hk, -⟩ := List.getElem?_eq_some_iff.mp hj
      rw [leader_concat_of_lt (h.occurrences ▸ hk)]
      exact h.place hj
    · rw [h.occurrences, hshared]
      exact hi
  · rw [hleaders] at hm
    by_cases hji : i.val = j
    · subst hji
      obtain rfl := Option.some.inj (hi.symm.trans hm)
      obtain rfl : w = v := Option.some.inj ((List.getElem?_set_self i.isLt).symm.trans hv)
      exact (h.tells hi (List.getElem?_eq_getElem i.isLt)).merge hlt hvalid hshared hw
    · have hv : t.declared[j]? = some v := by rwa [addPlace, List.getElem?_set_ne hji] at hv
      obtain ⟨hmt, -⟩ := mem_leaders_iff.mp (List.mem_of_getElem? hm)
      refine (h.tells hm hv).concat hmt ?_
      rintro hother
      obtain rfl := hshared.symm.trans hother
      obtain ⟨hj', -⟩ := List.getElem?_eq_some_iff.mp hm
      exact hji ((List.getElem?_inj (h.declared ▸ i.isLt) (nodup_leaders os)).mp (hi.trans hm.symm))

theorem Tells.exists_merge_iff (h : Tells os l v) {o' : Occurrence} (ho' : os[l]? = some o')
    (hl : leader os l = l) (hname : o'.name = o.name) (hne : o.name ≠ []) :
    (∃ w, v.merge o = .ok w) ↔ Fits os o := by
  have hquantifier (q : Quantifier) := (h.quantifier q).trans
    (said_iff_of_named ho' hl (hname ▸ hne))
  have hconstraint (c : Constraint) := (h.constraint c).trans
    (said_iff_of_named ho' hl (hname ▸ hne))
  simp only [Variable.merge_eq_ok_iff]
  constructor
  · rintro ⟨w, hq, hc, -⟩ a ha hsame -
    refine ⟨fun {q q'} haq hoq => ?_, fun {c c'} hac hoc => ?_⟩
    · exact hq q q' ((hquantifier q).mpr ⟨a, ha, hsame.trans hname.symm, haq⟩) hoq
    · have hsameAs := hc c c' ((hconstraint c).mpr ⟨a, ha, hsame.trans hname.symm, hac⟩) hoc
      simpa [Constraint.sameAs] using hsameAs
  · intro hfits
    refine ⟨_, fun q q' hvq hoq => ?_, fun c c' hvc hoc => ?_, rfl⟩
    · obtain ⟨a, ha, hsame, haq⟩ := (hquantifier q).mp hvq
      exact (hfits a ha (hsame.trans hname) hne).quantifier haq hoq
    · obtain ⟨a, ha, hsame, hac⟩ := (hconstraint c).mp hvc
      simpa [Constraint.sameAs] using (hfits a ha (hsame.trans hname) hne).constraint hac hoc

section Lookup

variable (h : t.Merges os)

include h

theorem Merges.found {i : Fin t.declared.length}
    (hi : (t.declared.findFinIdx? fun v => !v.isAnonymous && v.name == o.name) = some i) :
    o.name ≠ [] ∧ ∃ l o', (leaders os)[i.val]? = some l ∧ os[l]? = some o' ∧ leader os l = l ∧
      o'.name = o.name ∧ leader (os ++ [o]) os.length = l := by
  obtain ⟨hfound, -⟩ := List.findFinIdx?_eq_some_iff.mp hi
  simp only [Variable.isAnonymous, Bool.and_eq_true, Bool.not_eq_true', List.isEmpty_eq_false_iff,
    beq_iff_eq] at hfound
  obtain ⟨l, o', hl, ho', hleads, hname⟩ := h.leads (List.getElem?_eq_getElem i.isLt)
  have hsame : o'.name = o.name := hname.symm.trans hfound.2
  have hne : o.name ≠ [] := hfound.2 ▸ hfound.1
  refine ⟨hne, l, o', hl, ho', hleads, hsame, ?_⟩
  rw [leader_eq ho', hsame, if_neg hne] at hleads
  rw [leader_concat_length, if_neg hne, hleads]

theorem Merges.not_found
    (hnone : (t.declared.findFinIdx? fun v => !v.isAnonymous && v.name == o.name) = none) :
    Fits os o ∧ leader (os ++ [o]) os.length = os.length := by
  have hlacks : o.name ≠ [] → ∀ o' ∈ os, o'.name ≠ o.name := by
    intro hne o' ho' hsame
    obtain ⟨k, hk⟩ := List.mem_iff_getElem?.mp ho'
    obtain ⟨i, v, -, -, hv, hname⟩ := h.variable hk
    have hfound := List.findFinIdx?_eq_none_iff.mp hnone v (List.mem_of_getElem? hv)
    simp [Variable.isAnonymous, hname, hsame, hne] at hfound
  refine ⟨fun o' ho' hsame hne => absurd hsame (hlacks hne o' ho'), ?_⟩
  rw [leader_concat_length]
  split
  · rfl
  next hne =>
    have hlt : ¬ first os o.name < os.length := fun hlt => by
      obtain ⟨o', ho', hsame⟩ := first_lt_iff.mp hlt
      exact hlacks hne o' ho' hsame
    exact Nat.le_antisymm List.findIdx_le_length (Nat.not_lt.mp hlt)

theorem Merges.addOccurrence (hvalid : ∀ o' ∈ os ++ [o], o'.Valid ignoreCase)
    (hu : t.addOccurrence o = .ok u) : u.Merges (os ++ [o]) := by
  simp only [Template.addOccurrence] at hu
  split at hu
  next hnone =>
    cases hu
    exact h.declare (h.not_found hnone).2
  next i hi =>
    obtain ⟨w, hw, rfl⟩ := map_eq_ok_iff.mp hu
    obtain ⟨-, l, o', hl, -, -, -, hshared⟩ := h.found hi
    exact h.share hvalid hl hshared hw

theorem Merges.exists_addOccurrence_iff : (∃ u, t.addOccurrence o = .ok u) ↔ Fits os o := by
  simp only [Template.addOccurrence]
  split
  next hnone => exact iff_of_true ⟨_, rfl⟩ (h.not_found hnone).1
  next i hi =>
    obtain ⟨hne, l, o', hl, ho', hleads, hname, -⟩ := h.found hi
    have htells := h.tells hl (List.getElem?_eq_getElem i.isLt)
    rw [← htells.exists_merge_iff ho' hleads hname hne]
    simp only [map_eq_ok_iff]
    constructor
    · rintro ⟨-, w, hw, -⟩
      exact ⟨w, hw⟩
    · rintro ⟨w, hw⟩
      exact ⟨_, w, hw, rfl⟩

end Lookup

variable {ss : List Segment}

theorem Merges.addSegments (h : t.Merges os)
    (hvalid : ∀ o ∈ os ++ wildcards ss, o.Valid ignoreCase)
    (hu : t.addSegments ss = .ok u) : u.Merges (os ++ wildcards ss) := by
  induction ss generalizing t os with
  | nil =>
      cases hu
      rwa [wildcards, List.append_nil]
  | cons s ss ih =>
      cases s with
      | text text => exact ih (h.addText text) hvalid hu
      | wildcard o =>
          rw [wildcards, List.append_cons] at hvalid ⊢
          rw [addSegments_cons] at hu
          obtain ⟨next, hnext, hu⟩ := bind_eq_ok_iff.mp hu
          have hfirst := fun o' ho' => hvalid o' (List.mem_append_left _ ho')
          exact ih (h.addOccurrence hfirst hnext) hvalid hu

/-- A template is put together if no two occurrences of a name contradict each other. -/
theorem Merges.exists_addSegments_iff (h : t.Merges os) (hconsistent : Consistent os)
    (hvalid : ∀ o ∈ os ++ wildcards ss, o.Valid ignoreCase) :
    (∃ u, t.addSegments ss = .ok u) ↔ Consistent (os ++ wildcards ss) := by
  induction ss generalizing t os with
  | nil =>
      rw [wildcards, List.append_nil]
      exact iff_of_true ⟨t, rfl⟩ hconsistent
  | cons s ss ih =>
      cases s with
      | text text => exact ih (h.addText text) hconsistent hvalid
      | wildcard o =>
          rw [wildcards, List.append_cons] at hvalid ⊢
          have hfirst := fun o' ho' => hvalid o' (List.mem_append_left _ ho')
          have hstep : (∃ next, t.addOccurrence o = .ok next) ↔ Consistent (os ++ [o]) := by
            rw [h.exists_addOccurrence_iff, consistent_concat_iff]
            exact (and_iff_right hconsistent).symm
          rw [addSegments_cons]
          cases hnext : t.addOccurrence o with
          | error e =>
              have hno : ¬ Consistent (os ++ [o]) := by
                rw [← hstep, hnext]
                rintro ⟨_, ⟨⟩⟩
              refine iff_of_false ?_ fun hall => hno fun a ha b hb => ?_
              · rintro ⟨u, hu⟩
                rw [addSegment, hnext] at hu
                cases hu
              · exact hall a (List.mem_append_left _ ha) b (List.mem_append_left _ hb)
          | ok next =>
              have hmerges := h.addOccurrence hfirst hnext
              rw [addSegment, hnext]
              exact ih hmerges (hstep.mp ⟨next, hnext⟩) hvalid

/-- All that is said of a name, in whatever order it is said. -/
structure Sums (os : List Occurrence) (name : Text) (v : Variable) : Prop where
  occurs : ∃ o ∈ os, o.name = name
  named : v.name = name
  quantifier (q : Quantifier) :
    v.explicitQuantifier = some q ↔ ∃ o ∈ os, o.name = name ∧ o.quantifier = some q
  constraint (c : Constraint) : v.constraint = some c ↔ ∃ o ∈ os, o.name = name ∧ o.constraint = some c

theorem Sums.unique {name : Text} {w : Variable} (hv : Sums os name v) (hw : Sums os name w) :
    v = w := by
  have hname : v.name = w.name := hv.named.trans hw.named.symm
  have hquantifier : v.explicitQuantifier = w.explicitQuantifier :=
    Option.ext fun q => (hv.quantifier q).trans (hw.quantifier q).symm
  have hconstraint : v.constraint = w.constraint :=
    Option.ext fun c => (hv.constraint c).trans (hw.constraint c).symm
  obtain ⟨_, _, _⟩ := v
  obtain ⟨_, _, _⟩ := w
  obtain rfl := hname
  obtain rfl := hquantifier
  obtain rfl := hconstraint
  rfl

theorem Sums.perm {os' : List Occurrence} {name : Text} (h : Sums os name v) (hperm : os'.Perm os) :
    Sums os' name v := by
  obtain ⟨hoccurs, hnamed, hquantifier, hconstraint⟩ := h
  simp only [← hperm.mem_iff] at hoccurs hquantifier hconstraint
  exact ⟨hoccurs, hnamed, hquantifier, hconstraint⟩

theorem Merges.named?_eq_some_iff (h : t.Merges os) {name : Text} (hne : name ≠ []) :
    t.named? name = some v ↔ Sums os name v := by
  have hsums {w : Variable} (hw : t.named? name = some w) : Sums os name w := by
    have hname : w.name = name := by
      have hfound := List.find?_some hw
      simp only [Bool.and_eq_true, beq_iff_eq] at hfound
      exact hfound.2
    obtain ⟨i, hi⟩ := List.mem_iff_getElem?.mp (List.mem_of_find?_eq_some hw)
    obtain ⟨l, o, hl, ho, hleads, hsame⟩ := h.leads hi
    have hon : o.name = name := hsame.symm.trans hname
    have htells := h.tells hl hi
    refine ⟨⟨o, List.mem_of_getElem? ho, hon⟩, hname, fun q => ?_, fun c => ?_⟩
    · rw [htells.quantifier, said_iff_of_named ho hleads (hon ▸ hne), hon]
    · rw [htells.constraint, said_iff_of_named ho hleads (hon ▸ hne), hon]
  refine ⟨hsums, fun hv => ?_⟩
  obtain ⟨o, ho, rfl⟩ := hv.occurs
  obtain ⟨k, hk⟩ := List.mem_iff_getElem?.mp ho
  obtain ⟨i, u, -, -, hu, hname⟩ := h.variable hk
  have hnamed : (t.named? o.name).isSome = true := by
    refine List.find?_isSome.mpr ⟨u, List.mem_of_getElem? hu, ?_⟩
    simpa [Variable.isAnonymous, hname] using hne
  obtain ⟨w, hw⟩ := Option.isSome_iff_exists.mp hnamed
  rw [hw, (hsums hw).unique hv]

theorem Merges.ofSegments (hvalid : ∀ o ∈ wildcards ss, o.Valid ignoreCase)
    (h : Template.ofSegments ss = .ok t) : t.Merges (wildcards ss) :=
  merges_empty.addSegments hvalid h

theorem exists_ofSegments_iff (hvalid : ∀ o ∈ wildcards ss, o.Valid ignoreCase) :
    (∃ t, ofSegments ss = .ok t) ↔ Consistent (wildcards ss) :=
  merges_empty.exists_addSegments_iff (fun _ ho => absurd ho List.not_mem_nil) hvalid

/-- A template is put together from scanned segments if no two occurrences of a name contradict each
other, so that their order does not matter, nor to what is said of a name. The variables are those of
the wildcards as they first come, each with all that is said of it anywhere, and every placeholder
stands for the variable of its wildcard. -/
theorem ofSegments_merges (hss : ∀ s ∈ ss, s.Scanned ignoreCase) :
    ((∃ t, ofSegments ss = .ok t) ↔ Consistent (wildcards ss)) ∧
    (∀ ss' t, ss'.Perm ss → ofSegments ss = .ok t → ∃ t', ofSegments ss' = .ok t' ∧
      ∀ name ≠ [], t'.named? name = t.named? name) ∧
    (∀ o ∈ wildcards ss, ∀ q, o.quantifier = some q → q.min ≤ q.max) ∧
    ∀ t, ofSegments ss = .ok t →
      t.normalised = Segment.emission 0 ss ∧
      t.declared.length = (leaders (wildcards ss)).length ∧
      (∀ (i : Nat) (v : Variable), t.declared[i]? = some v → ∃ l o, (leaders (wildcards ss))[i]? = some l ∧
        (wildcards ss)[l]? = some o ∧ v.name = o.name ∧
        (∀ q, Said (wildcards ss) l (·.quantifier) q → v.quantifier = q) ∧
        ((∀ q, ¬ Said (wildcards ss) l (·.quantifier) q) → v.quantifier = .one) ∧
        (∀ c, v.constraint = some c ↔ Said (wildcards ss) l (·.constraint) c) ∧
        v.quantifier.min ≤ v.quantifier.max) ∧
      ∀ (k : Nat) (o : Occurrence), (wildcards ss)[k]? = some o → ∃ i v, t.occurrences[k]? = some i ∧
        (leaders (wildcards ss))[i]? = some (leader (wildcards ss) k) ∧
        t.declared[i]? = some v ∧
        (k < UInt64.size → t.variableFor? (placeholder k) = some v) := by
  have hvalid := Segment.valid_of_scanned hss
  have hordered : ∀ o ∈ wildcards ss, ∀ q, o.quantifier = some q → q.min ≤ q.max :=
    fun o ho q hq => ((hvalid o ho).quantifier hq).1
  refine ⟨exists_ofSegments_iff hvalid, fun ss' t hperm ht => ?_, hordered, fun t ht => ?_⟩
  · have hperm' := Segment.perm_wildcards hperm
    have hvalid' := fun o' ho' => hvalid o' (hperm'.subset ho')
    have hconsistent := (exists_ofSegments_iff hvalid).mp ⟨t, ht⟩
    obtain ⟨t', ht'⟩ := (exists_ofSegments_iff hvalid').mpr (hconsistent.perm hperm')
    refine ⟨t', ht', fun name hne => Option.ext fun v => ?_⟩
    rw [(Merges.ofSegments hvalid' ht').named?_eq_some_iff hne,
      (Merges.ofSegments hvalid ht).named?_eq_some_iff hne]
    exact ⟨fun h => h.perm hperm'.symm, fun h => h.perm hperm'⟩
  · have h := Merges.ofSegments hvalid ht
    refine ⟨addSegments_emits ht, h.declared, fun i v hv => ?_, fun k o ho => ?_⟩
    · obtain ⟨l, o, hl, ho, -, hname⟩ := h.leads hv
      obtain ⟨-, hquantifier, hconstraint⟩ := h.tells hl hv
      refine ⟨l, o, hl, ho, hname, fun q hq => ?_, fun hnone => ?_, hconstraint, ?_⟩
      · rw [Variable.quantifier, (hquantifier q).mpr hq, Option.getD_some]
      · have hunsaid : v.explicitQuantifier = none :=
          Option.eq_none_iff_forall_ne_some.mpr fun q hq => hnone q ((hquantifier q).mp hq)
        rw [Variable.quantifier, hunsaid, Option.getD_none]
      · rw [Variable.quantifier]
        cases hq : v.explicitQuantifier with
        | none => decide
        | some q =>
            obtain ⟨k, o, ho, -, hq⟩ := (hquantifier q).mp hq
            exact hordered o (List.mem_of_getElem? ho) q hq
    · obtain ⟨i, v, hi, hl, hv, -⟩ := h.variable ho
      refine ⟨i, v, hi, hl, hv, fun hk => ?_⟩
      rw [Pattern.variableFor?_placeholder hk, variableAt?, hi, Option.bind_some, hv]

/-- A quantifier that comes after the name has stood without one, and a constraint after that. -/
def scattered : Text :=
  "('_x, '_, '_x:+, '_y, '_x:[regex(a)])".toList

theorem ofSegments_merges_of_scattered : ∃ ss t t' v,
    Segment.scan false scattered = .ok ss ∧ (∀ s ∈ ss, s.Scanned false) ∧
      ofSegments ss = .ok t ∧ t.named? ['x'] = some v ∧
        v.quantifier = ⟨1, Quantifier.unbounded⟩ ∧ v.constraint.isSome = true ∧
          ofSegments ss.reverse = .ok t' ∧ t'.named? ['x'] = some v := by
  have hread : ((Segment.scan false scattered).toOption.bind fun ss =>
      (ofSegments ss).toOption.bind fun t => (t.named? ['x']).map fun v =>
        (v.quantifier, v.constraint.isSome)) = some (⟨1, Quantifier.unbounded⟩, true) := by
    decide +kernel
  obtain ⟨ss, hss, hread⟩ := Option.bind_eq_some_iff.mp hread
  obtain ⟨t, ht, hread⟩ := Option.bind_eq_some_iff.mp hread
  obtain ⟨v, hv, hread⟩ := Option.map_eq_some_iff.mp hread
  have hss := ok_of_toOption hss
  have ht := ok_of_toOption ht
  have hscanned : ∀ s ∈ ss, s.Scanned false := fun s hs => ⟨scattered, ss, hss, hs⟩
  obtain ⟨t', ht', hnamed⟩ := (ofSegments_merges hscanned).2.1 ss.reverse t (List.reverse_perm ss) ht
  obtain ⟨hquantifier, hconstraint⟩ := Prod.mk.inj hread
  exact ⟨ss, t, t', v, hss, hscanned, ht, hv, hquantifier, hconstraint, ht',
    (hnamed ['x'] (List.cons_ne_nil _ _)).trans hv⟩

end Template

end ShapeSearch
