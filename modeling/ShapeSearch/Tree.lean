import ShapeSearch.Text

namespace ShapeSearch

/-- What a syntax tree says about one node: its kind, its flags, the bytes it covers and the field
under which it hangs from its parent. -/
structure Label where
  kind : String
  named : Bool
  extra : Bool
  error : Bool
  missing : Bool
  start : Nat
  stop : Nat
  field : Option String
  deriving DecidableEq, Repr

inductive Tree where
  | node (label : Label) (children : List Tree)

/-- A grammar gives every text a tree, which may hold errors. -/
abbrev Grammar := Text → Tree

structure Source where
  text : Text
  tree : Tree

def Source.ofText (grammar : Grammar) (text : Text) : Source :=
  ⟨text, grammar text⟩

namespace Label

def text (l : Label) (source : Text) : Text :=
  source.slice l.start l.stop

/-- Named nodes other than extras, which are comments, take part in a comparison. -/
def isProper (l : Label) : Bool :=
  l.named && !l.extra

def isFault (l : Label) : Bool :=
  l.error || l.missing

end Label

namespace Tree

def label : Tree → Label
  | node l _ => l

def children : Tree → List Tree
  | node _ ts => ts

def childAt? (t : Tree) (field : String) : Option Tree :=
  t.children.find? (·.label.field == some field)

mutual

def size : Tree → Nat
  | node _ ts => sizeAll ts + 1

def sizeAll : List Tree → Nat
  | [] => 0
  | t :: ts => size t + sizeAll ts

end

theorem sizeAll_append (ts us : List Tree) : sizeAll (ts ++ us) = sizeAll ts + sizeAll us := by
  induction ts with
  | nil => simp [sizeAll]
  | cons t ts ih => simp [sizeAll, ih, Nat.add_assoc]

theorem sizeAll_le_of_sublist {ts us : List Tree} (h : ts.Sublist us) : sizeAll ts ≤ sizeAll us := by
  induction h with
  | slnil => exact Nat.le_refl _
  | cons t _ ih => simp only [sizeAll]; omega
  | cons_cons t _ ih => simp only [sizeAll]; omega

theorem size_eq (t : Tree) : t.size = sizeAll t.children + 1 := by
  cases t; rfl

mutual

/-- The text of the leaves without what stands between them. Extras are left out. -/
def tokenText (source : Text) : Tree → Text
  | node l [] => l.text source
  | node _ (t :: ts) => tokenTextAll source (t :: ts)

def tokenTextAll (source : Text) : List Tree → Text
  | [] => []
  | t :: ts => (if t.label.extra then [] else tokenText source t) ++ tokenTextAll source ts

end

end Tree

structure Fault where
  start : Nat
  stop : Nat
  position : Position
  /-- The faulty text, cut after forty characters. -/
  context : Text
  message : Text

namespace Fault

def ofLabel (source : Text) (l : Label) : Fault where
  start := l.start
  stop := l.stop
  position := Position.ofOffset l.start source
  context := (l.text source).take 40
  message := if l.missing then "missing ".toList ++ l.kind.toList else "unexpected syntax".toList

def display (f : Fault) : Text :=
  Text.decimal f.position.line ++ ":".toList ++ Text.decimal f.position.column ++ ": ".toList
    ++ f.message ++ " near `".toList ++ f.context ++ "`".toList

end Fault

namespace Tree

mutual

def hasFault : Tree → Bool
  | node l ts => l.isFault || anyHasFault ts

def anyHasFault : List Tree → Bool
  | [] => false
  | t :: ts => hasFault t || anyHasFault ts

end

mutual

/-- The faulty nodes that lie below no other faulty node, in order. What holds no fault is not
looked through. -/
def faultyLabels : Tree → List Label
  | node l ts =>
    if l.isFault then [l] else if anyHasFault ts then faultyLabelsAll ts else []

def faultyLabelsAll : List Tree → List Label
  | [] => []
  | t :: ts => faultyLabels t ++ faultyLabelsAll ts

end

end Tree

def Source.faults (s : Source) : List Fault :=
  s.tree.faultyLabels.map (Fault.ofLabel s.text)

end ShapeSearch
