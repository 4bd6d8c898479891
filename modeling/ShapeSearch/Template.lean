import ShapeSearch.Template.Segment

namespace ShapeSearch

/-- A wildcard of a template. All places with one name share it; a wildcard without a name has a
single place. -/
structure Variable where
  name : Text
  explicitQuantifier : Option Quantifier
  constraint : Option Constraint
  deriving DecidableEq, Repr

namespace Variable

def isAnonymous (v : Variable) : Bool :=
  v.name.isEmpty

def quantifier (v : Variable) : Quantifier :=
  v.explicitQuantifier.getD .one

def accepts (v : Variable) (t : Text) : Bool :=
  v.constraint.all (·.accepts t)

def ofOccurrence (o : Occurrence) : Variable :=
  ⟨o.name, o.quantifier, o.constraint⟩

/-- Adds what a further occurrence says. It may not say anything else than the earlier ones. -/
def merge (v : Variable) (o : Occurrence) : Except VariableError Variable :=
  match v.explicitQuantifier, o.quantifier with
  | some p, some q =>
    if p = q then withConstraint v else .error (.quantifierConflict o.name o.offset p q)
  | none, q => withConstraint { v with explicitQuantifier := q }
  | some _, none => withConstraint v
where
  withConstraint (w : Variable) : Except VariableError Variable :=
    match w.constraint, o.constraint with
    | some c, some d =>
      if c.sameAs d then .ok w else .error (.constraintConflict o.name o.offset)
    | none, d => .ok { w with constraint := d }
    | some _, none => .ok w

end Variable

structure Template where
  /-- The text with a placeholder for each occurrence. -/
  normalised : Text
  declared : List Variable
  /-- The index of the variable that each placeholder stands for. -/
  occurrences : List Nat
  deriving DecidableEq, Repr

namespace Template

def placeholder (k : Nat) : Text :=
  "__ssr_var_".toList ++ Text.decimal k ++ "__".toList

def placeholderNumber? (t : Text) : Option Nat :=
  ((t.afterFirst? "__ssr_var_".toList).bind (·.beforeLast? "__".toList)).bind
    (Text.readUnsigned? 10 UInt64.size)

def named? (t : Template) (name : Text) : Option Variable :=
  t.declared.find? fun v => !v.isAnonymous && v.name == name

def variableFor? (t : Template) (text : Text) : Option Variable :=
  ((placeholderNumber? text).bind (t.occurrences[·]?)).bind (t.declared[·]?)

def empty : Template :=
  ⟨[], [], []⟩

def addText (t : Template) (text : Text) : Template :=
  { t with normalised := t.normalised ++ text }

def addPlace (t : Template) (i : Nat) : Template :=
  { t with
    normalised := t.normalised ++ placeholder t.occurrences.length
    occurrences := t.occurrences ++ [i] }

def addOccurrence (t : Template) (o : Occurrence) : Except VariableError Template :=
  match t.declared.findFinIdx? fun v => !v.isAnonymous && v.name == o.name with
  | none =>
    let grown : Template := { t with declared := t.declared ++ [Variable.ofOccurrence o] }
    .ok (grown.addPlace t.declared.length)
  | some i =>
    (t.declared[i].merge o).map fun v =>
      let merged : Template := { t with declared := t.declared.set i v }
      merged.addPlace i

def addSegment (t : Template) : Segment → Except VariableError Template
  | .text text => .ok (t.addText text)
  | .wildcard o => t.addOccurrence o

def addSegments (t : Template) : List Segment → Except VariableError Template
  | [] => .ok t
  | s :: rest =>
    match t.addSegment s with
    | .error e => .error e
    | .ok next => next.addSegments rest

def ofSegments (segments : List Segment) : Except VariableError Template :=
  empty.addSegments segments

def read (ignoreCase : Bool) (t : Text) : Except TemplateError Template := do
  let segments ← Segment.scan ignoreCase t
  (ofSegments segments).mapError .badVariable

end Template

/-- What can fail before a search begins, with a description. -/
inductive Failure where
  | grammarUnavailable (message : Text)
  | sourceUnparsed (message : Text)
  | invalidTemplate (message : Text)
  | invalidVariable (message : Text)
  | invalidConstraint (pattern message : Text)

namespace Failure

def heading : Failure → Text
  | grammarUnavailable _ => "failed to initialise the Rust parser".toList
  | sourceUnparsed _ => "failed to parse source".toList
  | invalidTemplate _ => "invalid search template".toList
  | invalidVariable _ => "invalid template variable".toList
  | invalidConstraint pattern _ => "invalid text constraint `".toList ++ pattern ++ ['\x60']

def message : Failure → Text
  | grammarUnavailable m | sourceUnparsed m | invalidTemplate m | invalidVariable m
  | invalidConstraint _ m => m

def display (f : Failure) : Text :=
  f.heading ++ ": ".toList ++ f.message

end Failure

def TemplateError.failure : TemplateError → Failure
  | badVariable cause => .invalidVariable cause.message
  | badConstraint pattern cause => .invalidConstraint pattern cause.message.toList
  | faulty fault =>
    .invalidTemplate ("template does not parse as Rust (".toList ++ fault.display ++ [')'])
  | noContent => .invalidTemplate "template contains no Rust syntax".toList

end ShapeSearch
