import Mathlib.Data.List.Forall2
import ShapeSearch.Matching.Compare

namespace ShapeSearch

section Lists

variable {P W C : Type}

def Element.Holds (one : P → C → Prop) (run : W → List C → Prop) : Element P W → List C → Prop
  | .one p, cs => ∃ c, cs = [c] ∧ one p c
  | .run w, cs => run w cs

/-- The candidates fall into consecutive runs, one for each element. -/
def HoldInOrder (one : P → C → Prop) (run : W → List C → Prop) (es : List (Element P W))
    (cs : List C) : Prop :=
  ∃ runs : List (List C), runs.flatten = cs ∧ List.Forall₂ (Element.Holds one run) es runs

/-- There are no elements, or every candidate is given to one of them. Each element keeps the order
of its candidates. -/
def HoldInAnyOrder (one : P → C → Prop) (run : W → List C → Prop) (es : List (Element P W))
    (cs : List C) : Prop :=
  es = [] ∨ ∃ runs : List (List C), runs.flatten.Perm cs ∧ (∀ r ∈ runs, r.Sublist cs) ∧
    List.Forall₂ (Element.Holds one run) es runs

variable {one one' : P → C → Prop} {run run' : W → List C → Prop}
  {es : List (Element P W)} {cs : List C}

theorem Element.Holds.mono (hone : ∀ p c, one p c → one' p c) (hrun : ∀ w cs, run w cs → run' w cs)
    (e : Element P W) (cs : List C) (h : e.Holds one run cs) : e.Holds one' run' cs := by
  cases e with
  | one p =>
      obtain ⟨c, hc, h⟩ := h
      exact ⟨c, hc, hone p c h⟩
  | run w => exact hrun w cs h

theorem HoldInOrder.mono (hone : ∀ p c, one p c → one' p c) (hrun : ∀ w cs, run w cs → run' w cs)
    (h : HoldInOrder one run es cs) : HoldInOrder one' run' es cs := by
  obtain ⟨runs, hcs, h⟩ := h
  exact ⟨runs, hcs, h.imp (Element.Holds.mono hone hrun)⟩

theorem HoldInOrder.nil : HoldInOrder one run [] [] :=
  ⟨[], rfl, .nil⟩

theorem HoldInOrder.cons_one {p : P} {c : C} (hp : one p c) (h : HoldInOrder one run es cs) :
    HoldInOrder one run (.one p :: es) (c :: cs) := by
  obtain ⟨runs, rfl, h⟩ := h
  exact ⟨[c] :: runs, rfl, .cons ⟨c, rfl, hp⟩ h⟩

theorem HoldInOrder.cons_run {w : W} {taken : List C} (hw : run w taken)
    (h : HoldInOrder one run es cs) : HoldInOrder one run (.run w :: es) (taken ++ cs) := by
  obtain ⟨runs, rfl, h⟩ := h
  exact ⟨taken :: runs, rfl, .cons hw h⟩

theorem HoldInAnyOrder.mono (hone : ∀ p c, one p c → one' p c)
    (hrun : ∀ w cs, run w cs → run' w cs) (h : HoldInAnyOrder one run es cs) :
    HoldInAnyOrder one' run' es cs := by
  rcases h with h | ⟨runs, hcs, hs, h⟩
  · exact .inl h
  · exact .inr ⟨runs, hcs, hs, h.imp (Element.Holds.mono hone hrun)⟩

theorem HoldInAnyOrder.exists_perm {ps : List P} (hps : ps ≠ [])
    (h : HoldInAnyOrder one run (ps.map .one) cs) :
    ∃ partners : List C, partners.Perm cs ∧ List.Forall₂ one ps partners := by
  obtain hnil | ⟨runs, hperm, -, hholds⟩ := h
  · exact absurd (List.map_eq_nil_iff.mp hnil) hps
  · refine ⟨runs.flatten, hperm, ?_⟩
    rw [List.forall₂_map_left_iff] at hholds
    clear hps hperm
    induction hholds with
    | nil => exact .nil
    | cons hp _ ih =>
        obtain ⟨c, rfl, hp⟩ := hp
        exact .cons hp ih

end Lists

namespace Wildcard

/-- What it takes for a wildcard to stand for a node whose text is read from a byte on. -/
structure StandsFor (w : Wildcard) (source : Text) (e : Captures) (skipped : Nat) (n : Node) :
    Prop where
  possible : w.quantifier.max ≠ 0
  filtered : w.parametersOnly = true → n.isGenericParameter = true
  bound : ∃ t, (n.text source).drop? skipped = some t ∧ w.ofVariable.accepts t = true ∧
    (w.ofVariable.name ≠ [] → ∃ f, e.lookup w.ofVariable.name = some (.single f) ∧
      f.label.kind = n.kind ∧ f.text = t)

/-- What it takes for a wildcard to stand for a run of nodes. The texts are compared in the order in
which the nodes start. -/
structure StandsForRun (w : Wildcard) (source : Text) (e : Captures) (ns : List Node) : Prop where
  admitted : w.quantifier.admits ns.length = true
  accepted : ∀ n ∈ ns, w.accepts source 0 n = true
  bound : w.ofVariable.name ≠ [] → ∃ fs start stop t,
    e.lookup w.ofVariable.name = some (.multiple fs start stop t) ∧
      fs.map (·.text) =
        ((ns.map (·.label)).mergeSort fun a b => a.start ≤ b.start).map (·.text source)

end Wildcard

namespace Pattern

variable {α : Type} [Listed α]

def ListInOrder (p : Pattern) (source : Text) (e : Captures) (r : α → α → Prop)
    (patterns candidates : List α) : Prop :=
  HoldInOrder r (fun w cs => w.StandsForRun source e (cs.map Listed.bound))
    (patterns.map p.element) candidates

def ListInAnyOrder (p : Pattern) (source : Text) (e : Captures) (r : α → α → Prop)
    (patterns candidates : List α) : Prop :=
  HoldInAnyOrder r (fun w cs => w.StandsForRun source e (cs.map Listed.bound))
    (patterns.map p.element) candidates

def OptionalHolds (r : Node → Node → Prop) (a b : Option Node) : Prop :=
  ∀ x, a = some x → ∃ y, b = some y ∧ r x y

/-- What a clause demands under the bindings `e`, where smaller nodes are related by `r`. -/
def Demands (p : Pattern) (source : Text) (e : Captures) (r : Node → Node → Prop) (a b : Node) :
    Clause → Prop
  | .kindAmong kinds => b.kind ∈ kinds
  | .marker kind => a.hasChildOfKind kind = b.hasChildOfKind kind
  | .sameText => a.text p.parsed.text = b.text source
  | .sameTokens => a.tree.tokenText p.parsed.text = b.tree.tokenText source
  | .sameValue =>
    (Literal.read a.kind (a.text p.parsed.text)).agrees (Literal.read b.kind (b.text source)) = true
  | .genericParameter => b.isGenericParameter = true
  | .segments => b.isScoped = true ∨ b.isLeaf = true
  | .lastSegment =>
    b.isPath = true ∧ a.text p.parsed.text = b.tree.lastSegment.label.text source
  | .part part => OptionalHolds r (part.of a) (part.of b)
  | .elementsInOrder => p.ListInOrder source e r a.elements b.elements
  | .elementsInAnyOrder => p.ListInAnyOrder source e r a.elements b.elements
  | .childrenInOrder => p.ListInOrder source e r a.significantChildren b.significantChildren
  | .attributes => p.ListInAnyOrder source e r a.outerAttributes b.outerAttributes
  | .tupleFields =>
    p.ListInOrder source e
      (fun f g => p.ListInAnyOrder source e r f.attributes g.attributes ∧
        OptionalHolds r f.visibility g.visibility ∧ r f.type g.type)
      a.tupleFields b.tupleFields
  | .tokenGroups =>
    p.ListInAnyOrder source e (fun g h => p.ListInOrder source e r g.tokens h.tokens)
      a.tokenGroups b.tokenGroups
  | .quotedName =>
    match (a.childOfKind? "identifier").bind p.wildcard? with
    | some w => w.StandsFor source e 1 b
    | none => a.text p.parsed.text = b.text source

/-- When a node of the pattern fits a node of the source under the bindings `e`. No order of
comparison plays a part in it, nor any bindings that are made on the way. -/
inductive Fits (p : Pattern) (source : Text) (e : Captures) : Node → Node → Prop
  | wildcard {a b : Node} {w : Wildcard} (h : p.wildcard? a = some w)
      (hw : w.StandsFor source e 0 b) : Fits p source e a b
  -- `r` is a part of the relation itself, so that the demands of lists can be stated for any relation
  | structural {a b : Node} (r : Node → Node → Prop) (hr : ∀ x y, r x y → Fits p source e x y)
      (h : p.wildcard? a = none) (hs : ∀ c ∈ strategy a b, p.Demands source e r a b c) :
      Fits p source e a b

theorem ListInOrder.mono {p : Pattern} {source : Text} {e : Captures} {r s : α → α → Prop}
    {patterns candidates : List α} (hrs : ∀ x y, r x y → s x y)
    (h : p.ListInOrder source e r patterns candidates) :
    p.ListInOrder source e s patterns candidates :=
  HoldInOrder.mono hrs (fun _ _ hw => hw) h

theorem ListInAnyOrder.mono {p : Pattern} {source : Text} {e : Captures} {r s : α → α → Prop}
    {patterns candidates : List α} (hrs : ∀ x y, r x y → s x y)
    (h : p.ListInAnyOrder source e r patterns candidates) :
    p.ListInAnyOrder source e s patterns candidates :=
  HoldInAnyOrder.mono hrs (fun _ _ hw => hw) h

theorem OptionalHolds.mono {r s : Node → Node → Prop} {a b : Option Node}
    (hrs : ∀ x y, r x y → s x y) (h : OptionalHolds r a b) : OptionalHolds s a b := by
  intro x hx
  obtain ⟨y, hy, hxy⟩ := h x hx
  exact ⟨y, hy, hrs x y hxy⟩

theorem Demands.mono {p : Pattern} {source : Text} {e : Captures} {r s : Node → Node → Prop}
    {a b : Node} {c : Clause} (hrs : ∀ x y, r x y → s x y) (h : p.Demands source e r a b c) :
    p.Demands source e s a b c := by
  cases c with
  | part part => exact OptionalHolds.mono hrs h
  | elementsInOrder => exact ListInOrder.mono hrs h
  | elementsInAnyOrder => exact ListInAnyOrder.mono hrs h
  | childrenInOrder => exact ListInOrder.mono hrs h
  | attributes => exact ListInAnyOrder.mono hrs h
  | tupleFields =>
      refine ListInOrder.mono (fun f g hfg => ?_) h
      exact ⟨hfg.1.mono hrs, hfg.2.1.mono hrs, hrs _ _ hfg.2.2⟩
  | tokenGroups => exact ListInAnyOrder.mono (fun g h hgh => ListInOrder.mono hrs hgh) h
  | kindAmong | marker | sameText | sameTokens | sameValue | genericParameter | segments
  | lastSegment | quotedName => exact h

theorem fits_iff_of_wildcard {p : Pattern} {source : Text} {e : Captures} {a b : Node}
    {w : Wildcard} (h : p.wildcard? a = some w) :
    p.Fits source e a b ↔ w.StandsFor source e 0 b := by
  refine ⟨fun hf => ?_, .wildcard h⟩
  cases hf with
  | wildcard h' hw => rw [h, Option.some.injEq] at h'; exact h' ▸ hw
  | structural _ _ h' _ => rw [h] at h'; cases h'

theorem fits_iff_of_structural {p : Pattern} {source : Text} {e : Captures} {a b : Node}
    (h : p.wildcard? a = none) :
    p.Fits source e a b ↔ ∀ c ∈ strategy a b, p.Demands source e (p.Fits source e) a b c := by
  refine ⟨fun hf c hc => ?_, .structural _ (fun _ _ h => h) h⟩
  cases hf with
  | wildcard h' _ => rw [h] at h'; cases h'
  | structural r hr _ hs => exact (hs c hc).mono hr

end Pattern

end ShapeSearch
