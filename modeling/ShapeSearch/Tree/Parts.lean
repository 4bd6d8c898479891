import ShapeSearch.Tree.Node

namespace ShapeSearch

namespace Node

def isAttributeItem (n : Node) : Bool :=
  n.kind == "attribute_item"

def elements (n : Node) : List Node :=
  n.properChildren.filter (!·.isAttributeItem)

/-- The attributes written in front of a node, in source order. They are siblings of the node, with
nothing but comments between. -/
def outerAttributes (n : Node) : List Node :=
  (((n.earlier.filter (·.label.named)).takeWhile fun s => s.isAttributeItem || s.label.extra).filter
    (·.isAttributeItem)).reverse

/-- Whether something follows an attribute that it can belong to. -/
def decoratesSibling (n : Node) : Bool :=
  n.later.any (·.label.isProper)

def items (n : Node) : List Node :=
  n.properChildren.filter fun c => !(c.isAttributeItem && c.decoratesSibling)

def nextItem? (n : Node) : Option Node :=
  n.later.find? fun s => s.label.isProper && !s.isAttributeItem

end Node

namespace Tree

mutual

def lastSegment : Tree → Tree
  | node l ts =>
    if l.kind == "scoped_identifier" || l.kind == "scoped_type_identifier" then
      ((node l ts).childAt? "name").getD (node l ts)
    else if l.kind == "generic_function" then
      (lastSegmentOfFunction? ts).getD (node l ts)
    else node l ts

def lastSegmentOfFunction? : List Tree → Option Tree
  | [] => none
  | t :: ts =>
    if t.label.field == some "function" then some (lastSegment t) else lastSegmentOfFunction? ts

end

end Tree

namespace Node

def isPath (n : Node) : Bool :=
  ["identifier", "scoped_identifier", "self", "generic_function"].contains n.kind

/-- Parents whose identifiers name something and do not evaluate it. -/
def namingParents : List String :=
  ["attribute", "label", "lifetime", "macro_invocation", "scoped_identifier",
    "scoped_type_identifier", "scoped_use_list", "token_tree", "use_as_clause", "use_declaration",
    "use_list", "use_wildcard"]

/-- Fields whose identifiers name something and do not evaluate it. -/
def namingFields : List String :=
  ["alias", "field", "label", "macro", "name", "path", "pattern", "type"]

/-- Whether a node is a path that is evaluated, such as the function of a call. -/
def isPathExpression (n : Node) : Bool :=
  n.isPath && match n.parentKind? with
    | none => false
    | some parent =>
      !(namingParents.contains parent || "pattern".toList.isSuffixOf parent.toList)
        && !(n.label.field.any namingFields.contains)

def isScoped (n : Node) : Bool :=
  n.kind == "scoped_identifier" || n.kind == "scoped_type_identifier"

def pathName? (n : Node) : Option Node :=
  if n.isScoped then n.childAt? "name" else some n

def pathQualifier? (n : Node) : Option Node :=
  if n.isScoped then n.childAt? "path" else none

/-- Whether a node is a type, lifetime or constant parameter. A bare name in a parameter list is
one. -/
def isGenericParameter (n : Node) : Bool :=
  ["type_parameter", "lifetime_parameter", "const_parameter"].contains n.kind
    || (n.kind == "type_identifier" && n.parentKind? == some "type_parameters")

/-- Whether only token trees lie between a node and the attribute around it. -/
def isWithinAttribute (n : Node) : Bool :=
  (n.above.dropWhile (· == "token_tree")).head? == some "attribute"

end Node

structure TupleField where
  attributes : List Node
  visibility : Option Node
  type : Node

namespace TupleField

/-- Gathers the children of a field list into fields. What stands before a type belongs to it, after
the attributes and the visibility that are already in hand. -/
def gather (attributes : List Node) (visibility : Option Node) : List Node → List TupleField
  | [] => []
  | n :: ns =>
    if n.label.field == some "type" then ⟨attributes, visibility, n⟩ :: gather [] none ns
    else if n.isAttributeItem then gather (attributes ++ [n]) visibility ns
    else if n.kind == "visibility_modifier" then gather attributes (some n) ns
    else gather attributes visibility ns

end TupleField

def Node.tupleFields (n : Node) : List TupleField :=
  TupleField.gather [] none n.children

/-- An argument of an attribute: the tokens between two commas of a token tree. -/
structure TokenGroup where
  tokens : List Node
  tree : Node

namespace Node

def isDelimiter (n : Node) : Bool :=
  !n.label.named && ["(", ")", "[", "]", "\x7b", "\x7d"].contains n.kind

def isComma (n : Node) : Bool :=
  !n.label.named && n.kind == ","

/-- A list without its first and last member where both are delimiters. -/
def undelimited (ns : List Node) : List Node :=
  match ns with
  | first :: second :: rest =>
    if first.isDelimiter && ((second :: rest).getLast (by simp)).isDelimiter then
      (second :: rest).dropLast
    else ns
  | _ => ns

/-- Splits a list at its commas, after the members of `group`. A last group without members is
dropped. -/
def splitAtCommas (group : List Node) : List Node → List (List Node)
  | [] => if group.isEmpty then [] else [group]
  | n :: ns => if n.isComma then group :: splitAtCommas [] ns else splitAtCommas (group ++ [n]) ns

def tokenGroups (n : Node) : List TokenGroup :=
  (splitAtCommas [] (undelimited (n.children.filter (!·.label.extra)))).map (⟨·, n⟩)

end Node

end ShapeSearch
