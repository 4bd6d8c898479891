import ShapeSearch.Json.Reading
import ShapeSearch.Template
import ShapeSearch.Tree.Parts

namespace ShapeSearch

structure Config where
  maxMatches : Nat
  /-- How deep a comparison may descend below the node at which it begins. -/
  maxDepth : Nat
  caseSensitive : Bool
  deriving DecidableEq, Repr

namespace Config

def default : Config :=
  ⟨10000, 512, true⟩

/-- A limit takes 64 bits. -/
def limit? (j : Json) : Option Nat :=
  j.natural?.filter (· < UInt64.size)

def set? (c : Config) (key : Text) (value : Json) : Option Config :=
  if key = "max_matches".toList then (limit? value).map ({ c with maxMatches := · })
  else if key = "max_depth".toList then (limit? value).map ({ c with maxDepth := · })
  else if key = "case_sensitive".toList then value.bool?.map ({ c with caseSensitive := · })
  else none

/-- Sets one key after another; none may come twice. -/
def setAll? (seen : List Text) (c : Config) : List (Text × Json) → Option Config
  | [] => some c
  | (key, value) :: rest =>
    if seen.contains key then none
    else (c.set? key value).bind (setAll? (key :: seen) · rest)

def keys : List Text :=
  ["max_matches".toList, "max_depth".toList, "case_sensitive".toList]

/-- Reads a configuration from an object, or from an array of its values in the order of the keys.
What is missing is as in the default. -/
def ofJson? : Json → Option Config
  | .object members => default.setAll? [] members
  | .array items =>
    if keys.length < items.length then none else default.setAll? [] (keys.zip items)
  | _ => none

def read? (t : Text) : Option Config :=
  (Json.read? t).bind ofJson?

end Config

structure Pattern where
  written : Text
  template : Template
  /-- The text in which the roots were found, and its tree. -/
  parsed : Source
  /-- Whether the template became the body of a function. -/
  wrapped : Bool
  config : Config

namespace Pattern

/-- Makes a text the body of a function. An expression at its end becomes a statement. -/
def wrap (t : Text) : Text :=
  let trimmed := t.trimEnd
  let statement := match trimmed.getLast? with
    | none => trimmed
    | some c => if c = ';' ∨ c = '\x7d' then trimmed else trimmed ++ [';']
  "fn __ssr_template__() \x7b ".toList ++ statement ++ " \x7d".toList

/-- The items of a source, or the statements of its first function. -/
def topLevel (s : Source) (wrapped : Bool) : List Node :=
  if wrapped then
    ((s.root.items.find? (·.kind == "function_item")).bind (·.childAt? "body")).elim [] Node.items
  else s.root.items

/-- The nodes that a match stands against, one after another. -/
def roots (p : Pattern) : List Node :=
  topLevel p.parsed p.wrapped

/-- Gives a template its tree. A text that is no file is taken for the body of a function. -/
def parse (grammar : Grammar) (t : Text) : Except TemplateError (Source × Bool) :=
  let plain := Source.ofText grammar t
  if plain.tree.hasFault then
    let inner := Source.ofText grammar (wrap t)
    match inner.faults with
    | [] => .ok (inner, true)
    | fault :: _ => .error (.faulty fault)
  else .ok (plain, false)

def compile (grammar : Grammar) (config : Config) (t : Text) : Except TemplateError Pattern := do
  let template ← Template.read (!config.caseSensitive) t
  let (parsed, wrapped) ← parse grammar template.normalised
  let p : Pattern := ⟨t, template, parsed, wrapped, config⟩
  if p.roots.isEmpty then throw .noContent else return p

end Pattern

end ShapeSearch
