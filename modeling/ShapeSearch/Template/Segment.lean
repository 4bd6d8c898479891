import ShapeSearch.Regex.Reading
import ShapeSearch.Tree

namespace ShapeSearch

/-- How many neighbouring nodes a wildcard may stand for. -/
structure Quantifier where
  min : Nat
  max : Nat
  deriving DecidableEq, Repr

namespace Quantifier

/-- The upper bound of quantifiers that have none, and the largest that can be written. -/
def unbounded : Nat := UInt64.size - 1

def one : Quantifier := ⟨1, 1⟩

instance : Inhabited Quantifier := ⟨one⟩

def isSingle (q : Quantifier) : Bool :=
  q.min == 1 && q.max == 1

def admits (q : Quantifier) (count : Nat) : Bool :=
  q.min ≤ count && count ≤ q.max

def display (q : Quantifier) : Text :=
  if q = ⟨0, unbounded⟩ then ['*']
  else if q = ⟨1, unbounded⟩ then ['+']
  else if q = ⟨0, 1⟩ then ['?']
  else if q.max = unbounded then ['\x7b'] ++ Text.decimal q.min ++ [',', '\x7d']
  else if q.min = q.max then ['\x7b'] ++ Text.decimal q.min ++ ['\x7d']
  else ['\x7b'] ++ Text.decimal q.min ++ [','] ++ Text.decimal q.max ++ ['\x7d']

end Quantifier

/-- A demand on the text that a wildcard stands for. -/
structure Constraint where
  pattern : Text
  negated : Bool
  regex : Regex
  deriving DecidableEq, Repr

namespace Constraint

/-- Asks that an expression match from the start of a text to its end. -/
def anchored (pattern : Text) : Text :=
  "^(?:".toList ++ pattern ++ ")$".toList

def compile (ignoreCase : Bool) (pattern : Text) (negated : Bool) :
    Except Regex.Error Constraint :=
  (Regex.read ignoreCase (anchored pattern)).map (⟨pattern, negated, ·⟩)

def accepts (c : Constraint) (t : Text) : Bool :=
  c.regex.matchesWithin t != c.negated

def sameAs (c d : Constraint) : Bool :=
  c.pattern == d.pattern && c.negated == d.negated

end Constraint

/-- What is wrong with a variable of a template. Offsets are those of its quote. -/
inductive VariableError where
  | quantifierForm
  | quantifierBound
  | unterminatedQuantifier
  | reversedQuantifier (min max : Nat)
  | unknownConstraint (offset : Nat)
  | unterminatedConstraint (offset : Nat)
  | secondConstraint (offset : Nat)
  | quantifierConflict (name : Text) (offset : Nat) (earlier later : Quantifier)
  | constraintConflict (name : Text) (offset : Nat)

def VariableError.message : VariableError → Text
  | quantifierForm =>
    "quantifier must have the form \x7bn\x7d, \x7bn,\x7d or \x7bn,m\x7d".toList
  | quantifierBound => "quantifier bound must be a number".toList
  | unterminatedQuantifier => "unterminated quantifier".toList
  | reversedQuantifier min max =>
    "quantifier minimum ".toList ++ Text.decimal min ++ " exceeds maximum ".toList
      ++ Text.decimal max
  | unknownConstraint offset =>
    "unknown constraint for variable at offset ".toList ++ Text.decimal offset
  | unterminatedConstraint offset =>
    "unterminated regex constraint for variable at offset ".toList ++ Text.decimal offset
  | secondConstraint offset =>
    "variable at offset ".toList ++ Text.decimal offset
      ++ " has more than one text constraint".toList
  | quantifierConflict name offset earlier later =>
    "variable `".toList ++ name ++ "` at offset ".toList ++ Text.decimal offset
      ++ " redeclares quantifier ".toList ++ earlier.display ++ " as ".toList ++ later.display
  | constraintConflict name offset =>
    "variable `".toList ++ name ++ "` at offset ".toList ++ Text.decimal offset
      ++ " has conflicting text constraints".toList

inductive TemplateError where
  | badVariable (cause : VariableError)
  | badConstraint (pattern : Text) (cause : Regex.Error)
  | faulty (fault : Fault)
  | noContent

/-- A variable as it stands at one place of a template. -/
structure Occurrence where
  name : Text
  offset : Nat
  quantifier : Option Quantifier
  constraint : Option Constraint
  deriving DecidableEq, Repr

inductive Segment where
  | text (t : Text)
  | wildcard (o : Occurrence)
  deriving DecidableEq, Repr

namespace Segment

def isNameChar (c : Char) : Bool :=
  c.isAlphanum || c == '_'

/-- Whether a quote opens a variable when this text follows it. A name that ends in a quote is a
character literal. -/
def opensVariable : Text → Bool
  | '_' :: t => (t.dropWhile isNameChar).head? != some '\''
  | _ => false

def readBound (digits : Text) : Except VariableError Nat :=
  match (Text.readDigits? 10 digits).filter (· ≤ Quantifier.unbounded) with
  | none => .error .quantifierBound
  | some n => .ok n

def readBraced (t : Text) : Except VariableError (Quantifier × Nat) := do
  let first := t.takeWhile Char.isDigit
  let min ← readBound first
  match t.drop first.length with
  | '\x7d' :: _ => return (⟨min, min⟩, first.length + 1)
  | ',' :: '\x7d' :: _ => return (⟨min, Quantifier.unbounded⟩, first.length + 2)
  | ',' :: rest =>
    let second := rest.takeWhile Char.isDigit
    let max ← readBound second
    if (rest.drop second.length).head? != some '\x7d' then throw .unterminatedQuantifier
    else if max < min then throw (.reversedQuantifier min max)
    else return (⟨min, max⟩, first.length + second.length + 2)
  | _ => throw .quantifierForm

def readQuantifier : Text → Except VariableError (Option Quantifier × Nat)
  | '*' :: _ => .ok (some ⟨0, Quantifier.unbounded⟩, 1)
  | '+' :: _ => .ok (some ⟨1, Quantifier.unbounded⟩, 1)
  | '?' :: _ => .ok (some ⟨0, 1⟩, 1)
  | '\x7b' :: t => (readBraced t).map fun (q, n) => (some q, n + 1)
  | _ => .ok (none, 0)

/-- What stands before the first parenthesis that a bracket follows. -/
def constraintBody? : Text → Option Text
  | [] => none
  | ')' :: ']' :: _ => some []
  | c :: t => (constraintBody? t).map (c :: ·)

/-- Reads the constraints of a variable, of which there may be one. Gives the number of characters
read, too. -/
def readConstraints (ignoreCase : Bool) (offset : Nat) (found : Option Constraint) :
    Text → Except TemplateError (Option Constraint × Nat)
  | '[' :: t =>
    let mark := if t.head? = some '!' then 1 else 0
    match Text.afterFirst? (t.drop mark) "regex(".toList with
    | none => .error (.badVariable (.unknownConstraint offset))
    | some rest =>
      match constraintBody? rest with
      | none => .error (.badVariable (.unterminatedConstraint offset))
      | some body =>
        if found.isSome then .error (.badVariable (.secondConstraint offset))
        else match Constraint.compile ignoreCase body (mark == 1) with
          | .error e => .error (.badConstraint body e)
          | .ok c =>
            (readConstraints ignoreCase offset (some c) (t.drop (mark + body.length + 8))).map
              fun (r, n) => (r, n + mark + body.length + 9)
  | _ => .ok (found, 0)
termination_by t => t.length
decreasing_by simp only [List.length_cons, List.length_drop]; omega

/-- Whether a colon and the beginning of a quantifier or constraint follow a name. -/
def modifiersFollow : Text → Bool
  | ':' :: c :: _ => ['*', '+', '?', '\x7b', '['].contains c
  | _ => false

def readVariable (ignoreCase : Bool) (offset : Nat) (t : Text) :
    Except TemplateError (Occurrence × Nat) := do
  let name := t.takeWhile isNameChar
  let rest := t.drop name.length
  if modifiersFollow rest then
    let (quantifier, n) ← (readQuantifier (rest.drop 1)).mapError .badVariable
    let (constraint, m) ← readConstraints ignoreCase offset none (rest.drop (n + 1))
    return (⟨name, offset, quantifier, constraint⟩, name.length + n + m + 1)
  else return (⟨name, offset, none, none⟩, name.length)

def consChar (c : Char) : List Segment → List Segment
  | text t :: rest => text (c :: t) :: rest
  | segments => text [c] :: segments

def scanFrom (ignoreCase : Bool) (offset : Nat) : Text → Except TemplateError (List Segment)
  | [] => .ok []
  | '\\' :: '\'' :: t => (scanFrom ignoreCase (offset + 2) t).map (consChar '\'')
  | '\\' :: '\\' :: t => (scanFrom ignoreCase (offset + 2) t).map (consChar '\\')
  | '\'' :: t =>
    if opensVariable t then
      match readVariable ignoreCase offset (t.drop 1) with
      | .error e => .error e
      | .ok (o, n) =>
        (scanFrom ignoreCase (offset + 1 + Text.bytes (t.take (n + 1))) (t.drop (n + 1))).map
          (wildcard o :: ·)
    else (scanFrom ignoreCase (offset + 1) t).map (consChar '\'')
  | c :: t => (scanFrom ignoreCase (offset + c.utf8Size) t).map (consChar c)
termination_by t => t.length
decreasing_by all_goals simp only [List.length_cons, List.length_drop]; omega

def scan (ignoreCase : Bool) (t : Text) : Except TemplateError (List Segment) :=
  scanFrom ignoreCase 0 t

end Segment

end ShapeSearch
