import ShapeSearch.Literal
import ShapeSearch.Tree.Parts

namespace ShapeSearch

inductive Part where
  | field (name : String)
  | childOfKind (kind : String)
  | unfielded
  | value
  | firstElement
  | pathName
  | pathQualifier
  deriving DecidableEq, Repr

def Part.of (n : Node) : Part → Option Node
  | field name => n.childAt? name
  | childOfKind kind => n.childOfKind? kind
  | unfielded => n.unfieldedChild?
  | value => n.properChildren.find? (·.kind != "label")
  | firstElement => n.elements.head?
  | pathName => n.pathName?
  | pathQualifier => n.pathQualifier?

/-- Something that a node of a pattern asks of the node it is compared with. -/
inductive Clause where
  | kindAmong (kinds : List String)
  /-- Both nodes have a child of a kind, or neither has. -/
  | marker (kind : String)
  | sameText
  /-- The same tokens, whatever stands between them. -/
  | sameTokens
  | sameValue
  | genericParameter
  /-- A path with or without a qualifier. -/
  | segments
  /-- A path whose last segment has the pattern's text. -/
  | lastSegment
  | part (p : Part)
  | elementsInOrder
  | elementsInAnyOrder
  /-- All children but comments and commas. -/
  | childrenInOrder
  /-- The attributes in front of the node, in any order. -/
  | attributes
  | tupleFields
  /-- The arguments of an attribute, in any order. -/
  | tokenGroups
  | quotedName
  deriving DecidableEq, Repr

/-- What a node asks of another by its kind, in the order in which it is asked. -/
def strategy (p c : Node) : List Clause :=
  match p.kind with
  | "struct_item" | "union_item" =>
    [.kindAmong ["struct_item", "union_item"], .marker "union", .attributes,
      .part (.childOfKind "visibility_modifier"), .part (.field "name"),
      .part (.field "type_parameters"), .part (.childOfKind "where_clause"), .part (.field "body")]
  | "type_parameters" | "trait_bounds" | "where_clause" =>
    [.kindAmong [p.kind], .elementsInAnyOrder]
  | "type_arguments" | "arguments" | "field_declaration_list" =>
    [.kindAmong [p.kind], .elementsInOrder]
  | "where_predicate" => [.kindAmong [p.kind], .part (.field "left"), .part (.field "bounds")]
  | "type_parameter" =>
    if c.kind == "type_parameter" then
      [.attributes, .part (.field "bounds"), .part (.field "default_type"), .part (.field "name")]
    else [.genericParameter, .sameText]
  | "lifetime_parameter" => [.kindAmong [p.kind], .part (.field "name"), .part (.field "bounds")]
  | "const_parameter" =>
    [.kindAmong [p.kind], .part (.field "type"), .part (.field "name"), .part (.field "value")]
  | "higher_ranked_trait_bound" =>
    [.kindAmong [p.kind], .part (.field "type_parameters"), .part (.field "type")]
  | "const_item" | "static_item" =>
    [.kindAmong ["const_item", "static_item"], .marker "static", .marker "mutable_specifier",
      .part (.field "name"), .part (.childOfKind "visibility_modifier"), .part (.field "type"),
      .part (.field "value"), .attributes]
  | "field_declaration" =>
    [.kindAmong [p.kind], .attributes, .part (.childOfKind "visibility_modifier"),
      .part (.field "name"), .part (.field "type")]
  | "ordered_field_declaration_list" => [.kindAmong [p.kind], .tupleFields]
  | "reference_type" | "pointer_type" =>
    [.kindAmong [p.kind], .marker "mutable_specifier", .marker "const",
      .part (.childOfKind "lifetime"), .part (.field "type")]
  | "lifetime" | "label" => [.kindAmong [p.kind], .quotedName]
  | "visibility_modifier" => [.kindAmong [p.kind], .sameTokens]
  | "continue_expression" => [.kindAmong [p.kind], .part (.childOfKind "label"), .attributes]
  | "break_expression" =>
    [.kindAmong [p.kind], .part (.childOfKind "label"), .attributes, .part .value]
  | "attribute_item" | "inner_attribute_item" =>
    [.kindAmong [p.kind], .part (.childOfKind "attribute")]
  | "attribute" =>
    [.kindAmong [p.kind], .part .unfielded, .part (.field "value"), .part (.field "arguments")]
  | "scoped_identifier" | "scoped_type_identifier" =>
    [.segments, .part .pathName, .part .pathQualifier]
  | "expression_statement" => [.kindAmong [p.kind], .attributes, .part .firstElement]
  | "call_expression" =>
    [.kindAmong [p.kind], .part (.field "function"), .part (.field "arguments")]
  | "identifier" | "self" =>
    if p.isPathExpression then [.lastSegment, .attributes] else [.kindAmong [p.kind], .sameText]
  | kind =>
    if Literal.kinds.contains kind then [.kindAmong Literal.kinds, .sameValue]
    else if kind == "token_tree" && p.isWithinAttribute then [.kindAmong [kind], .tokenGroups]
    else if p.isLeaf then [.kindAmong [kind], .sameText]
    else [.kindAmong [kind], .childrenInOrder]

end ShapeSearch
