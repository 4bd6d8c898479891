import ShapeSearch.Tree

namespace ShapeSearch

/-- A tree at its place: the siblings before it, nearest first, the siblings after it, and the kinds
of the nodes above it, nearest first. -/
structure Node where
  tree : Tree
  before : List Tree
  after : List Tree
  above : List String

def Source.root (s : Source) : Node :=
  ⟨s.tree, [], [], []⟩

namespace Node

def label (n : Node) : Label :=
  n.tree.label

def kind (n : Node) : String :=
  n.label.kind

def start (n : Node) : Nat :=
  n.label.start

def stop (n : Node) : Nat :=
  n.label.stop

def text (n : Node) (source : Text) : Text :=
  n.label.text source

def parentKind? (n : Node) : Option String :=
  n.above.head?

def isLeaf (n : Node) : Bool :=
  n.tree.children.isEmpty

/-- A list of siblings, each at its place, after those in `before`. -/
def row (above : List String) (before : List Tree) : List Tree → List Node
  | [] => []
  | t :: ts => ⟨t, before, ts, above⟩ :: row above (t :: before) ts

/-- A list of siblings, nearest first, each at its place, before those in `after`. -/
def rowBack (above : List String) (after : List Tree) : List Tree → List Node
  | [] => []
  | t :: ts => ⟨t, ts, after, above⟩ :: rowBack above (t :: after) ts

def children (n : Node) : List Node :=
  row (n.kind :: n.above) [] n.tree.children

def earlier (n : Node) : List Node :=
  rowBack n.above (n.tree :: n.after) n.before

def later (n : Node) : List Node :=
  row n.above (n.tree :: n.before) n.after

def properChildren (n : Node) : List Node :=
  n.children.filter (·.label.isProper)

theorem map_tree_row (above : List String) (before ts : List Tree) :
    (row above before ts).map (·.tree) = ts := by
  induction ts generalizing before with
  | nil => rfl
  | cons t ts ih => simp [row, ih]

theorem sizeAll_properChildren_lt (n : Node) :
    Tree.sizeAll (n.properChildren.map (·.tree)) < n.tree.size := by
  have h : (n.properChildren.map (·.tree)).Sublist n.tree.children := by
    have := (List.filter_sublist (l := n.children) (p := (·.label.isProper))).map (·.tree)
    rwa [children, map_tree_row] at this
  have := Tree.sizeAll_le_of_sublist h
  rw [Tree.size_eq]
  omega

/-- All children but comments and the commas between them. -/
def significantChildren (n : Node) : List Node :=
  n.children.filter fun c => !c.label.extra && (c.label.named || c.kind != ",")

def childAt? (n : Node) (field : String) : Option Node :=
  n.children.find? (·.label.field == some field)

def childOfKind? (n : Node) (kind : String) : Option Node :=
  n.properChildren.find? (·.kind == kind)

def hasChildOfKind (n : Node) (kind : String) : Bool :=
  n.children.any (·.kind == kind)

def unfieldedChild? (n : Node) : Option Node :=
  n.children.find? fun c => c.label.isProper && c.label.field.isNone

end Node

namespace Tree

mutual

/-- A tree and all below it, each at its place, parents first. Below a node only the children that
`keep` accepts are entered. -/
def preorder (keep : Label → Bool) (before after : List Tree) (above : List String) :
    Tree → List Node
  | node l ts => ⟨node l ts, before, after, above⟩ :: preorderAll keep (l.kind :: above) [] ts

def preorderAll (keep : Label → Bool) (above : List String) (before : List Tree) :
    List Tree → List Node
  | [] => []
  | t :: ts =>
    (if keep t.label then preorder keep before ts above t else [])
      ++ preorderAll keep above (t :: before) ts

end

end Tree

namespace Node

def preorder (keep : Label → Bool) (n : Node) : List Node :=
  n.tree.preorder keep n.before n.after n.above

theorem preorderAll_eq (keep : Label → Bool) (above : List String) (before ts : List Tree) :
    Tree.preorderAll keep above before ts =
      ((row above before ts).filter (keep ·.label)).flatMap (preorder keep) := by
  induction ts generalizing before with
  | nil => rfl
  | cons t ts ih =>
    by_cases h : keep t.label = true <;>
      simp [Tree.preorderAll, row, label, preorder, h, ih]

theorem preorder_eq (keep : Label → Bool) (n : Node) :
    n.preorder keep = n :: (n.children.filter (keep ·.label)).flatMap (preorder keep) := by
  obtain ⟨⟨l, ts⟩, before, after, above⟩ := n
  simp only [preorder, Tree.preorder, preorderAll_eq]
  rfl

end Node

def Source.nodes (s : Source) : List Node :=
  s.root.preorder fun _ => true

end ShapeSearch
