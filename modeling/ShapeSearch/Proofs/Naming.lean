import ShapeSearch.Proofs.Compilation
import ShapeSearch.Proofs.Looks
import ShapeSearch.Proofs.Respelling

namespace ShapeSearch

def Text.named (name : Text) : List Text :=
  if name = [] then [] else [name]

namespace Segment

def names : Segment → List Text
  | .text _ => []
  | .wildcard o => o.name.named

def written (ignoreCase : Bool) (t : Text) : List Text :=
  ((scan ignoreCase t).toOption.getD []).flatMap names

end Segment

namespace Variable

variable {r : Renaming} {v : Variable} {o : Occurrence} {offset : Nat}

theorem withConstraint_rename (v : Variable) (o : Occurrence) (offset : Nat) :
    SameOutcome (fun w w' => w' = w.rename r) (merge.withConstraint o v)
      (merge.withConstraint { o with name := r.name o.name, offset := offset } (v.rename r)) := by
  obtain ⟨name, quantifier, constraint⟩ := v
  simp only [merge.withConstraint, rename]
  cases constraint with
  | none => exact .ok rfl
  | some c =>
      cases o.constraint with
      | none => exact .ok rfl
      | some d =>
          simp only
          split
          · exact .ok rfl
          · exact .error _ _

theorem merge_rename (v : Variable) (o : Occurrence) (offset : Nat) :
    SameOutcome (fun w w' => w' = w.rename r) (v.merge o)
      ((v.rename r).merge { o with name := r.name o.name, offset := offset }) := by
  obtain ⟨name, quantifier, constraint⟩ := v
  simp only [merge]
  cases quantifier with
  | none => exact withConstraint_rename ⟨name, o.quantifier, constraint⟩ o offset
  | some q =>
      cases o.quantifier with
      | none => exact withConstraint_rename ⟨name, some q, constraint⟩ o offset
      | some q' =>
          simp only [rename]
          split
          · exact withConstraint_rename ⟨name, some q, constraint⟩ o offset
          · exact .error _ _

end Variable

namespace Template

variable {r : Renaming} {t : Template}

def rename (r : Renaming) (t : Template) : Template :=
  { t with declared := t.declared.map (Variable.rename r) }

def names (t : Template) : List Text :=
  (t.declared.map (·.name)).flatMap Text.named

theorem findFinIdx?_map {α β : Type} {f : α → β} {p : α → Bool} {q : β → Bool} {xs : List α}
    (h : ∀ x ∈ xs, q (f x) = p x) : (xs.map f).findFinIdx? q =
      (xs.findFinIdx? p).map (Fin.cast (List.length_map f).symm) := by
  cases hfind : xs.findFinIdx? p with
  | none =>
      rw [List.findFinIdx?_eq_none_iff] at hfind
      refine List.findFinIdx?_eq_none_iff.mpr (List.forall_mem_map.mpr fun x hx => ?_)
      rw [h x hx]
      exact hfind x hx
  | some i =>
      obtain ⟨hi, hbefore⟩ := List.findFinIdx?_eq_some_iff.mp hfind
      have hat (j : Nat) (hj : j < xs.length) (hj' : j < (xs.map f).length) :
          q (xs.map f)[j] = p xs[j] := by
        rw [List.getElem_map, h _ (List.getElem_mem hj)]
      refine List.findFinIdx?_eq_some_iff.mpr ⟨(hat i i.isLt _).trans hi, fun j hj hq => ?_⟩
      have hlt : j.val < xs.length := by simpa using j.isLt
      exact hbefore ⟨j, hlt⟩ hj ((hat j hlt j.isLt).symm.trans hq)

theorem named_rename {o : Occurrence} (honce : r.Once (t.names ++ o.name.named)) {v : Variable}
    (hv : v ∈ t.declared) :
    (!(v.rename r).isAnonymous && (v.rename r).name == r.name o.name) =
      (!v.isAnonymous && v.name == o.name) := by
  simp only [Variable.isAnonymous, Variable.rename]
  by_cases hname : v.name = []
  · rw [hname, r.nameless]
    rfl
  have hmem : v.name ∈ t.names := 
    List.mem_flatMap.mpr ⟨v.name, List.mem_map_of_mem hv, by simp [Text.named, hname]⟩
  by_cases herased : r.Erases v.name
  · have hne : v.name ≠ o.name := by
      intro heq
      refine honce.apart o.name ?_ (heq ▸ herased) (heq ▸ hmem)
      simp [Text.named, ← heq, hname]
    have hnone : r.name v.name = [] := herased
    simp [hnone, hne]
  · have heq : (r.name v.name == r.name o.name) = (v.name == o.name) := by
      rw [Bool.eq_iff_iff, beq_iff_eq, beq_iff_eq]
      exact ⟨fun h => r.injective h herased, fun h => by rw [h]⟩
    have hname' : (r.name v.name).isEmpty = v.name.isEmpty := by
      rw [List.isEmpty_eq_false_iff.mpr hname, List.isEmpty_eq_false_iff.mpr herased]
    rw [heq, hname']

theorem addOccurrence_rename {o : Occurrence} {ns : List Text} (offset : Nat)
    (honce : r.Once (t.names ++ (o.name.named ++ ns))) :
    SameOutcome (fun u u' => u' = u.rename r ∧ r.Once (u.names ++ ns)) (t.addOccurrence o)
      ((t.rename r).addOccurrence { o with name := r.name o.name, offset := offset }) := by
  have honce' : r.Once (t.names ++ o.name.named) := by
    rw [← List.append_assoc] at honce
    exact honce.left
  have hlength : t.declared.length = (t.rename r).declared.length := (List.length_map _).symm
  have hfind : (t.rename r).declared.findFinIdx?
      (fun v => !v.isAnonymous && v.name == r.name o.name) =
      (t.declared.findFinIdx? fun v => !v.isAnonymous && v.name == o.name).map (Fin.cast hlength) :=
    findFinIdx?_map fun v hv => named_rename honce' hv
  cases h : t.declared.findFinIdx? (fun v => !v.isAnonymous && v.name == o.name) with
  | none =>
      rw [h] at hfind
      simp only [addOccurrence, h, hfind, Option.map_none]
      refine .ok ⟨?_, ?_⟩
      · simp [rename, addPlace, Variable.ofOccurrence, Variable.rename]
      · simpa [names, addPlace, Variable.ofOccurrence] using honce
  | some i =>
      rw [h] at hfind
      simp only [addOccurrence, h, hfind, Option.map_some]
      have hmerge := Variable.merge_rename (r := r) t.declared[i] o offset
      have hat : (t.rename r).declared[Fin.cast hlength i] = t.declared[i].rename r :=
        List.getElem_map _
      rw [hat]
      refine hmerge.map fun v v' hv hv' => ⟨?_, ?_⟩
      · rw [hv']
        simp only [rename, addPlace, List.map_set]
        rfl
      · simp only [names, addPlace, map_name_set hv]
        refine honce.of_sublist ((List.Sublist.refl _).append ?_)
        exact List.sublist_append_right _ _

theorem addSegments_cons (t : Template) (s : Segment) (ss : List Segment) :
    t.addSegments (s :: ss) = (t.addSegment s).bind fun u => u.addSegments ss := by
  rw [addSegments]
  cases t.addSegment s <;> rfl

theorem addSegments_rename {ss ss' : List Segment} (h : List.Forall₂ (Segment.Respelt r) ss ss')
    (honce : r.Once (t.names ++ ss.flatMap Segment.names)) :
    SameOutcome (fun u u' => u' = u.rename r) (t.addSegments ss) ((t.rename r).addSegments ss') := by
  induction h generalizing t with
  | nil => exact .ok rfl
  | @cons s s' ss ss' hs _ ih =>
      rw [List.flatMap_cons] at honce
      cases hs with
      | text text => exact ih (t := t.addText text) honce
      | wildcard o offset =>
          rw [addSegments_cons, addSegments_cons]
          refine (addOccurrence_rename offset honce).bind fun u u' _ h => ?_
          obtain ⟨rfl, honce'⟩ := h
          exact ih honce'

theorem read_respell {ignoreCase : Bool} {text : Text}
    (honce : r.Once (Segment.written ignoreCase text)) :
    SameOutcome (fun u u' => u' = u.rename r) (read ignoreCase text)
      (read ignoreCase (Segment.respell r ignoreCase text)) := by
  refine (Segment.scanFrom_respell 0 0 text).bind fun ss ss' hss h => ?_
  have hwritten : Segment.written ignoreCase text = ss.flatMap Segment.names := by
    have hscan : Segment.scan ignoreCase text = .ok ss := hss
    rw [Segment.written, hscan]
    rfl
  rw [hwritten] at honce
  exact SameOutcome.mapError (addSegments_rename (t := empty) h honce) _ _

end Template

namespace Pattern

variable {r : Renaming} {p : Pattern} {config : Config} {t : Text}

def rename (r : Renaming) (p : Pattern) : Pattern :=
  { p with
    written := Segment.respell r (!p.config.caseSensitive) p.written
    template := p.template.rename r }

theorem renamed (r : Renaming) (p : Pattern) : Renamed r p (p.rename r) := by
  refine ⟨rfl, rfl, rfl, fun x => ?_⟩
  simp only [wildcard?, rename, Template.variableFor?, Template.rename]
  cases (Template.placeholderNumber? (x.text p.parsed.text)).bind (p.template.occurrences[·]?) with
  | none => rfl
  | some i =>
      simp only [Option.bind_some, List.getElem?_map, Option.map_map]
      rfl

theorem compile_respell (grammar : Grammar)
    (honce : r.Once (Segment.written (!config.caseSensitive) t)) :
    SameOutcome (fun p p' => p' = p.rename r) (compile grammar config t)
      (compile grammar config (Segment.respell r (!config.caseSensitive) t)) := by
  refine (Template.read_respell honce).bind fun template template' _ h => ?_
  subst h
  have hnormalised : (template.rename r).normalised = template.normalised := rfl
  simp only [hnormalised]
  cases parse grammar template.normalised with
  | error e => exact .error e e
  | ok q =>
      obtain ⟨parsed, wrapped⟩ := q
      have hroots (template : Template) (written : Text) :
          roots ⟨written, template, parsed, wrapped, config⟩ = topLevel parsed wrapped := rfl
      simp only [bind, Except.bind, hroots]
      split
      · exact .error _ _
      · exact .ok rfl

end Pattern

end ShapeSearch
