import ShapeSearch.Matching.Lists
import ShapeSearch.Pattern

namespace ShapeSearch

structure Fragment where
  label : Label
  text : Text
  deriving DecidableEq, Repr

inductive Binding where
  | single (fragment : Fragment)
  /-- Siblings in source order, with the bytes from the first to the last. -/
  | multiple (fragments : List Fragment) (start stop : Nat) (text : Text)
  deriving DecidableEq, Repr

namespace Binding

def text : Binding → Text
  | single f => f.text
  | multiple _ _ _ t => t

def start : Binding → Nat
  | single f => f.label.start
  | multiple _ n _ _ => n

def stop : Binding → Nat
  | single f => f.label.stop
  | multiple _ _ n _ => n

def agrees : Binding → Binding → Bool
  | single f, single g => f.label.kind == g.label.kind && f.text == g.text
  | multiple fs _ _ _, multiple gs _ _ _ => fs.map (·.text) == gs.map (·.text)
  | _, _ => false

/-- Binds nodes in the order in which they start. No nodes are bound to nothing at an offset. -/
def ofLabels (source : Text) (offset : Nat) (labels : List Label) : Binding :=
  let sorted := labels.mergeSort fun a b => a.start ≤ b.start
  let start := (sorted.head?.map (·.start)).getD offset
  let stop := (sorted.getLast?.map (·.stop)).getD offset
  multiple (sorted.map fun l => ⟨l, l.text source⟩) start stop (source.slice start stop)

end Binding

abbrev Captures := List (Text × Binding)

/-- Binds a name, or compares with what the name is bound to. Nothing is kept of a wildcard without a
name. -/
def Captures.bind (name : Text) (b : Binding) : Attempt Captures := fun s =>
  if name.isEmpty then (true, s)
  else match s.lookup name with
    | none => (true, s ++ [(name, b)])
    | some a => (a.agrees b, s)

structure Wildcard where
  ofVariable : Variable
  /-- In the place of a generic parameter, only such parameters are taken. -/
  parametersOnly : Bool

namespace Wildcard

def quantifier (w : Wildcard) : Quantifier :=
  w.ofVariable.quantifier

def accepts (w : Wildcard) (source : Text) (skipped : Nat) (n : Node) : Bool :=
  (!w.parametersOnly || n.isGenericParameter)
    && ((n.text source).drop? skipped).any w.ofVariable.accepts

/-- Stands for one node. Whatever else its quantifier asks, it must admit some node. -/
def bindOne (w : Wildcard) (source : Text) (skipped : Nat) (n : Node) : Attempt Captures :=
  if w.quantifier.max != 0 && w.accepts source skipped n then
    Captures.bind w.ofVariable.name
      (.single ⟨n.label, ((n.text source).drop? skipped).getD []⟩)
  else .fail

def bindRun (w : Wildcard) (source : Text) (ns : List Node) (offset : Nat) : Attempt Captures :=
  if w.quantifier.admits ns.length && ns.all (w.accepts source 0) then
    Captures.bind w.ofVariable.name (.ofLabels source offset (ns.map (·.label)))
  else .fail

end Wildcard

/-- The wildcard whose placeholder is the whole text of a node. -/
def Pattern.wildcard? (p : Pattern) (n : Node) : Option Wildcard :=
  (p.template.variableFor? (n.text p.parsed.text)).map (⟨·, n.isGenericParameter⟩)

end ShapeSearch
