import ShapeSearch.Json.Reading
import ShapeSearch.Tree

namespace ShapeSearch

/-- A tree can be listed with a line for each node, parents first:
depth, flags, start, stop, field and kind, with blanks between. -/
structure ListedNode where
  depth : Nat
  label : Label

namespace ListedNode

def columns : Nat → Text → List Text
  | 0, t => [t]
  | n + 1, t => t.takeWhile (· != ' ') :: columns n ((t.dropWhile (· != ' ')).drop 1)

def read? (line : Text) : Option ListedNode :=
  match columns 5 line with
  | [depth, flags, start, stop, field, kind] => do
    let depth ← Text.readDigits? 10 depth
    let start ← Text.readDigits? 10 start
    let stop ← Text.readDigits? 10 stop
    return ⟨depth,
      { kind := String.ofList kind
        named := flags.contains 'n'
        extra := flags.contains 'x'
        error := flags.contains 'e'
        missing := flags.contains 'm'
        start, stop
        field := if field = ['-'] then none else some (String.ofList field) }⟩
  | _ => none

/-- Puts a node in front of trees with their depths. The deeper ones that come first are its
children. -/
def place (n : ListedNode) (forest : List (Nat × Tree)) : List (Nat × Tree) :=
  (n.depth, .node n.label ((forest.takeWhile (n.depth < ·.1)).map (·.2)))
    :: forest.dropWhile (n.depth < ·.1)

end ListedNode

namespace Text

def lines : Text → List Text
  | [] => []
  | '\n' :: t => [] :: lines t
  | c :: t =>
    match lines t with
    | [] => [[c]]
    | line :: rest => (c :: line) :: rest

end Text

def Tree.ofListing? (t : Text) : Option Tree := do
  let nodes ← t.lines.mapM ListedNode.read?
  match nodes.foldr ListedNode.place [] with
  | [(0, tree)] => return tree
  | _ => none

abbrev Forest := List (Text × Tree)

namespace Forest

/-- A text that was not parsed counts as one syntax error. -/
def unparsed (t : Text) : Tree :=
  .node ⟨"ERROR", true, false, true, false, 0, t.bytes, none⟩ []

def grammar (f : Forest) : Grammar :=
  fun t => (f.lookup t).getD (unparsed t)

/-- Reads a line with a text and the listing of its tree. -/
def readLine? (line : Text) : Option (Text × Tree) := do
  let j ← Json.read? line
  let text ← (j.member? "text".toList).bind Json.text?
  let listing ← (j.member? "tree".toList).bind Json.text?
  return (text, ← Tree.ofListing? listing)

def read? (t : Text) : Option Forest :=
  t.lines.mapM readLine?

end Forest

end ShapeSearch
