import ShapeSearch.Matching.Compare

namespace ShapeSearch

/-- A place where a pattern matches: one node for each root, and what the wildcards stand for. -/
structure Match where
  nodes : List Node
  captures : Captures

namespace Match

def first? (m : Match) : Option Node :=
  m.nodes.head?

def start (m : Match) : Nat :=
  (m.nodes.head?.map Node.start).getD 0

def stop (m : Match) : Nat :=
  (m.nodes.getLast?.map Node.stop).getD 0

def text (m : Match) (source : Text) : Text :=
  source.slice m.start m.stop

def sortedCaptures (m : Match) : Captures :=
  m.captures.mergeSort fun a b => Text.inOrder a.1 b.1

end Match

namespace Pattern

def follow (compare : Node → Node → Attempt Captures) : List Node → Option Node → Captures →
    Option Match
  | [], _, s => some ⟨[], s⟩
  | _ :: _, none, _ => none
  | root :: roots, some n, s =>
    match compare root n s with
    | (true, next) => (follow compare roots n.nextItem? next).map fun m => ⟨n :: m.nodes, m.captures⟩
    | (false, _) => none

/-- The match that begins at a node, if there is one. Attributes and comments begin none. -/
def matchAt? (p : Pattern) (source : Text) (n : Node) : Option Match :=
  if n.isAttributeItem || n.label.extra then none
  else follow (p.compare source p.config.maxDepth) p.roots (some n) []

/-- Looks at nodes and what is below them, parents first. Each match is shown to `visit`, which says
whether to look further. -/
def walk {σ : Type} (p : Pattern) (source : Text) (visit : Match → Attempt σ) (s : σ)
    (pending : List Node) : σ :=
  match pending with
  | [] => s
  | n :: rest =>
    match p.matchAt? source n with
    | none => walk p source visit s (n.properChildren ++ rest)
    | some m =>
      match visit m s with
      | (true, next) => walk p source visit next (n.properChildren ++ rest)
      | (false, last) => last
termination_by Tree.sizeAll (pending.map (·.tree))
decreasing_by
  all_goals
    have := n.sizeAll_properChildren_lt
    simp only [List.map_append, List.map_cons, Tree.sizeAll_append, Tree.sizeAll]
    omega

/-- Keeps a match and goes on while fewer than `limit` are kept. -/
def collect (limit : Nat) (m : Match) : Attempt (Array Match) := fun found =>
  ((found.push m).size < limit, found.push m)

def findAll (p : Pattern) (s : Source) : List Match :=
  if p.config.maxMatches = 0 then []
  else (p.walk s.text (collect p.config.maxMatches) #[] [s.root]).toList

def findFirst? (p : Pattern) (s : Source) : Option Match :=
  p.walk s.text (fun m _ => (false, some m)) none [s.root]

end Pattern

end ShapeSearch
