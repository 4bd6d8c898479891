import ShapeSearch.Proofs.Compilation
import ShapeSearch.Proofs.Correspondence

namespace ShapeSearch

namespace Template

variable {t t' : Template} {i : Nat} {text : Text}

def index? (t : Template) (text : Text) : Option Nat :=
  (placeholderNumber? text).bind (t.occurrences[·]?)

/-- The second template is the first with a constraint for a variable that has none. -/
def Tightens (i : Nat) (t t' : Template) : Prop :=
  ∃ v c, t.declared[i]? = some v ∧ v.constraint = none ∧
    t' = { t with declared := t.declared.set i { v with constraint := some c } }

instance (i : Nat) (t t' : Template) : Decidable (t.Tightens i t') :=
  decidable_of_iff
    (∃ v ∈ t.declared[i]?, ∃ c ∈ t'.declared[i]?.bind (·.constraint), v.constraint = none ∧
      t' = { t with declared := t.declared.set i { v with constraint := some c } }) <| by
    constructor
    · rintro ⟨v, hv, c, -, hnone, ht⟩
      exact ⟨v, c, hv, hnone, ht⟩
    · rintro ⟨v, c, hv, hnone, ht⟩
      obtain ⟨hlt, -⟩ := List.getElem?_eq_some_iff.mp hv
      refine ⟨v, hv, c, ?_, hnone, ht⟩
      rw [ht, List.getElem?_set_self hlt]
      rfl

theorem Tightens.variableFor?_of_ne (h : Tightens i t t') (hne : t.index? text ≠ some i) :
    t'.variableFor? text = t.variableFor? text := by
  obtain ⟨v, c, -, -, rfl⟩ := h
  have hindex (u : Template) : u.variableFor? text = (u.index? text).bind (u.declared[·]?) := rfl
  rw [hindex, hindex]
  change (t.index? text).bind _ = _
  cases hj : t.index? text with
  | none => rfl
  | some j =>
      have hij : i ≠ j := by
        rintro rfl
        exact hne hj
      simp only [Option.bind_some, List.getElem?_set_ne hij]

theorem Tightens.variableFor?_of_eq (h : Tightens i t t') (hi : t.index? text = some i) :
    ∃ v c, v.constraint = none ∧ t.variableFor? text = some v ∧
      t'.variableFor? text = some { v with constraint := some c } := by
  obtain ⟨v, c, hv, hnone, rfl⟩ := h
  have hindex (u : Template) : u.variableFor? text = (u.index? text).bind (u.declared[·]?) := rfl
  refine ⟨v, c, hnone, ?_, ?_⟩
  · rw [hindex, hi, Option.bind_some, hv]
  · rw [hindex]
    change (t.index? text).bind _ = _
    obtain ⟨hlt, -⟩ := List.getElem?_eq_some_iff.mp hv
    rw [hi, Option.bind_some, List.getElem?_set_self hlt]

end Template

namespace Wildcard

variable {w w' : Wildcard} {source : Text} {e : Captures}

/-- The second wildcard stands for no more than the first, and under the same name. -/
structure Tighter (w w' : Wildcard) : Prop where
  parametersOnly : w'.parametersOnly = w.parametersOnly
  name : w'.ofVariable.name = w.ofVariable.name
  quantifier : w'.quantifier = w.quantifier
  text {t : Text} (h : w'.ofVariable.accepts t = true) : w.ofVariable.accepts t = true

theorem Tighter.refl (w : Wildcard) : w.Tighter w := ⟨rfl, rfl, rfl, id⟩

theorem Tighter.accepts (h : w.Tighter w') {skipped : Nat} {n : Node}
    (ha : w'.accepts source skipped n = true) : w.accepts source skipped n = true := by
  simp only [Wildcard.accepts, Bool.and_eq_true, Option.any_eq_true, h.parametersOnly] at ha ⊢
  obtain ⟨hfilter, t, ht, haccepts⟩ := ha
  exact ⟨hfilter, t, ht, h.text haccepts⟩

theorem Tighter.standsFor (h : w.Tighter w') {skipped : Nat} {n : Node}
    (hs : w'.StandsFor source e skipped n) : w.StandsFor source e skipped n where
  possible := h.quantifier ▸ hs.possible
  filtered := h.parametersOnly ▸ hs.filtered
  bound := by
    obtain ⟨t, ht, haccepts, hname⟩ := hs.bound
    exact ⟨t, ht, h.text haccepts, h.name ▸ hname⟩

theorem Tighter.standsForRun (h : w.Tighter w') {ns : List Node}
    (hs : w'.StandsForRun source e ns) : w.StandsForRun source e ns where
  admitted := h.quantifier ▸ hs.admitted
  accepted n hn := h.accepts (hs.accepted n hn)
  bound := h.name ▸ hs.bound

end Wildcard

namespace Pattern

variable {p p' : Pattern} {i : Nat} {source : Text} {e : Captures}

def index? (p : Pattern) (x : Node) : Option Nat :=
  p.template.index? (x.text p.parsed.text)

/-- Two patterns with one tree, whose wildcards differ where they stand for one of the variables. -/
structure Tightened (i : Nat) (p p' : Pattern) : Prop where
  parsed : p'.parsed = p.parsed
  wrapped : p'.wrapped = p.wrapped
  config : p'.config = p.config
  tightens : p.template.Tightens i p'.template

namespace Tightened

theorem wildcard_eq (h : Tightened i p p') {x : Node} (hx : p.index? x ≠ some i) :
    p'.wildcard? x = p.wildcard? x := by
  simp only [wildcard?]
  rw [h.parsed, h.tightens.variableFor?_of_ne hx]

theorem wildcard_cases (h : Tightened i p p') (x : Node) :
    (p.wildcard? x = none ∧ p'.wildcard? x = none) ∨
      ∃ w w', p.wildcard? x = some w ∧ p'.wildcard? x = some w' ∧ w.Tighter w' := by
  by_cases hi : p.index? x = some i
  · obtain ⟨v, c, hnone, hv, hv'⟩ := h.tightens.variableFor?_of_eq hi
    refine .inr ⟨⟨v, x.isGenericParameter⟩, ⟨{ v with constraint := some c }, x.isGenericParameter⟩,
      ?_, ?_, rfl, rfl, rfl, fun _ => ?_⟩
    · rw [wildcard?, hv, Option.map_some]
    · rw [wildcard?, h.parsed, hv', Option.map_some]
    · simp [Variable.accepts, hnone]
  · rw [h.wildcard_eq hi]
    cases p.wildcard? x with
    | none => exact .inl ⟨rfl, rfl⟩
    | some w => exact .inr ⟨w, w, rfl, rfl, .refl w⟩

theorem bind_wildcard_cases (h : Tightened i p p') (o : Option Node) :
    (o.bind p.wildcard? = none ∧ o.bind p'.wildcard? = none) ∨
      ∃ x w w', o = some x ∧ p.wildcard? x = some w ∧ o.bind p'.wildcard? = some w' ∧
        w.Tighter w' := by
  cases o with
  | none => exact .inl ⟨rfl, rfl⟩
  | some x =>
      rcases h.wildcard_cases x with hnone | ⟨w, w', hw, hw', htighter⟩
      · exact .inl hnone
      · exact .inr ⟨x, w, w', rfl, hw, hw', htighter⟩

theorem element_cases {α : Type} [Listed α] (h : Tightened i p p') (a : α) :
    (p.element a = .one a ∧ p'.element a = .one a) ∨
      ∃ x w w', Listed.node? a = some x ∧ p.wildcard? x = some w ∧ w.Tighter w' ∧
        p.element a = .run w ∧ p'.element a = .run w' := by
  simp only [element]
  rcases h.bind_wildcard_cases (Listed.node? a) with ⟨hw, hw'⟩ | ⟨x, w, w', hx, hw, hw', htighter⟩
  · rw [hw, hw']
    exact .inl ⟨rfl, rfl⟩
  · have hbind : (Listed.node? a).bind p.wildcard? = some w := by rw [hx]; exact hw
    rw [hbind, hw']
    simp only [htighter.quantifier]
    split
    · exact .inl ⟨rfl, rfl⟩
    · exact .inr ⟨x, w, w', hx, hw, htighter, rfl, rfl⟩

theorem none (h : Tightened i p p') {x : Node} (hx : p.wildcard? x = none) :
    p'.wildcard? x = none := by
  rcases h.wildcard_cases x with ⟨-, hnone⟩ | ⟨w, w', hw, -, -⟩
  · exact hnone
  · rw [hx] at hw
    cases hw

theorem sameShape (h : Tightened i p p') : SameShape p p' := ⟨h.parsed, h.none⟩

theorem roots_eq (h : Tightened i p p') : p'.roots = p.roots := by
  simp only [roots]
  rw [h.parsed, h.wrapped]

end Tightened

section Lists

variable {α : Type} [Listed α] {r : α → α → Prop} {ps cs : List α}

theorem Tightened.holds (h : Tightened i p p') {a : α} {cs : List α}
    (hs : (p'.element a).Holds r (fun w cs => w.StandsForRun source e (cs.map Listed.bound)) cs) :
    (p.element a).Holds r (fun w cs => w.StandsForRun source e (cs.map Listed.bound)) cs := by
  rcases h.element_cases a with ⟨hone, hone'⟩ | ⟨x, w, w', -, -, htighter, hrun, hrun'⟩
  · rw [hone'] at hs
    rwa [hone]
  · rw [hrun'] at hs
    rw [hrun]
    exact htighter.standsForRun hs

theorem Tightened.listInOrder (h : Tightened i p p') (hs : p'.ListInOrder source e r ps cs) :
    p.ListInOrder source e r ps cs := by
  obtain ⟨runs, hflat, hholds⟩ := hs
  rw [List.forall₂_map_left_iff] at hholds
  exact ⟨runs, hflat, List.forall₂_map_left_iff.mpr (hholds.imp fun _ _ => h.holds)⟩

theorem Tightened.listInAnyOrder (h : Tightened i p p') (hs : p'.ListInAnyOrder source e r ps cs) :
    p.ListInAnyOrder source e r ps cs := by
  rcases hs with hnil | ⟨runs, hperm, hsub, hholds⟩
  · exact .inl (by rw [List.map_eq_nil_iff] at hnil ⊢; exact hnil)
  · rw [List.forall₂_map_left_iff] at hholds
    exact .inr ⟨runs, hperm, hsub, List.forall₂_map_left_iff.mpr (hholds.imp fun _ _ => h.holds)⟩

end Lists

theorem Tightened.demands (h : Tightened i p p') {r : Node → Node → Prop} {a b : Node} {c : Clause}
    (hs : p'.Demands source e r a b c) : p.Demands source e r a b c := by
  cases c with
  | elementsInOrder | childrenInOrder => exact h.listInOrder hs
  | elementsInAnyOrder | attributes => exact h.listInAnyOrder hs
  | tupleFields =>
      refine (h.listInOrder hs).mono fun f g hfg => ?_
      exact ⟨h.listInAnyOrder hfg.1, hfg.2⟩
  | tokenGroups => exact (h.listInAnyOrder hs).mono fun _ _ hgg => h.listInOrder hgg
  | sameText | sameTokens | sameValue | lastSegment =>
      simp only [Demands, h.parsed] at hs ⊢
      exact hs
  | quotedName =>
      simp only [Demands, h.parsed] at hs ⊢
      rcases h.bind_wildcard_cases (a.childOfKind? "identifier") with
        ⟨hw, hw'⟩ | ⟨x, w, w', hx, hw, hw', htighter⟩
      · rw [hw'] at hs
        rwa [hw]
      · have hbind : (a.childOfKind? "identifier").bind p.wildcard? = some w := by rw [hx]; exact hw
        rw [hw'] at hs
        rw [hbind]
        exact htighter.standsFor hs
  | kindAmong | marker | genericParameter | segments | part => exact hs

theorem Tightened.fits (h : Tightened i p p') {a b : Node} (hf : p'.Fits source e a b) :
    p.Fits source e a b := by
  induction hf with
  | @wildcard a b w' hw' hs =>
      rcases h.wildcard_cases a with ⟨-, hnone⟩ | ⟨w, w'', hw, hw'', htighter⟩
      · rw [hnone] at hw'
        cases hw'
      · rw [hw', Option.some.injEq] at hw''
        subst hw''
        exact .wildcard hw (htighter.standsFor hs)
  | @structural a b r _ hw' hs ih =>
      rcases h.wildcard_cases a with ⟨hnone, -⟩ | ⟨w, w'', -, hw'', -⟩
      · exact .structural r ih hnone fun c hc => h.demands (hs c hc)
      · rw [hw'] at hw''
        cases hw''

end Pattern

end ShapeSearch
