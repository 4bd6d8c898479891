import ShapeSearch.Json.Written

namespace ShapeSearch.Json

inductive Token where
  | openArray
  | closeArray
  | openObject
  | closeObject
  | comma
  | colon
  | scalar (value : Json)
  | string (t : Text)

namespace Token

def isBlank (c : Char) : Bool :=
  c == ' ' || c == '\n' || c == '\t' || c == '\r'

def isDigits (t : Text) : Bool :=
  !t.isEmpty && t.all Char.isDigit

/-- Whether a text is a sign, if any, and digits. -/
def isExponent : Text → Bool
  | '+' :: t | '-' :: t => isDigits t
  | t => isDigits t

/-- Whether a text may follow the whole part of a number. -/
def isTail (t : Text) : Bool :=
  match t with
  | [] => true
  | '.' :: rest =>
    isDigits (rest.takeWhile Char.isDigit) && isPower (rest.dropWhile Char.isDigit)
  | _ => isPower t
where
  isPower : Text → Bool
    | [] => true
    | c :: t => (c == 'e' || c == 'E') && isExponent t

def isNumber (t : Text) : Bool :=
  let unsigned := match t with
    | '-' :: rest => rest
    | _ => t
  match unsigned with
  | '0' :: rest => isTail rest
  | _ => isDigits (unsigned.takeWhile Char.isDigit) && isTail (unsigned.dropWhile Char.isDigit)

def isScalarChar (c : Char) : Bool :=
  c.isAlphanum || c == '+' || c == '-' || c == '.'

def scalar? (t : Text) : Option Json :=
  match t with
  | ['n', 'u', 'l', 'l'] => some .null
  | ['t', 'r', 'u', 'e'] => some (.bool true)
  | ['f', 'a', 'l', 's', 'e'] => some (.bool false)
  | _ => if isNumber t then some (.number t) else none

/-- Reads the token that begins with `c` and goes on in `t`. Gives the number of characters read
from `t`, too. -/
def read? (c : Char) (t : Text) : Option (Token × Nat) :=
  match c with
  | '[' => some (.openArray, 0)
  | ']' => some (.closeArray, 0)
  | '\x7b' => some (.openObject, 0)
  | '\x7d' => some (.closeObject, 0)
  | ',' => some (.comma, 0)
  | ':' => some (.colon, 0)
  | '"' => (readQuoted? t).map fun (s, n) => (.string s, n)
  | _ =>
    let rest := t.takeWhile isScalarChar
    (scalar? (c :: rest)).map fun value => (.scalar value, rest.length)

def readAll? : Text → Option (List Token)
  | [] => some []
  | c :: t =>
    if isBlank c then readAll? t
    else match read? c t with
      | none => none
      | some (token, n) => (readAll? (t.drop n)).map (token :: ·)
termination_by t => t.length
decreasing_by all_goals simp only [List.length_cons, List.length_drop]; omega

end Token

/-- An array or object around the value that is being read. -/
inductive Around where
  | array (items : List Json)
  | object (members : List (Text × Json)) (name : Text)

inductive Expecting where
  | value
  | itemOrClose
  | memberOrClose
  | member (members : List (Text × Json))
  | colon (members : List (Text × Json)) (name : Text)
  | done (value : Json)

structure Reading where
  expecting : Expecting
  around : List Around

namespace Reading

def start : Reading :=
  ⟨.value, []⟩

def beginValue? (around : List Around) : Token → Option Reading
  | .openArray => some ⟨.itemOrClose, .array [] :: around⟩
  | .openObject => some ⟨.memberOrClose, around⟩
  | .scalar value => some ⟨.done value, around⟩
  | .string t => some ⟨.done (.string t), around⟩
  | _ => none

def step? (s : Reading) (token : Token) : Option Reading :=
  match s.expecting, s.around, token with
  | .value, around, _ => beginValue? around token
  | .itemOrClose, _ :: around, .closeArray => some ⟨.done (.array []), around⟩
  | .itemOrClose, around, _ => beginValue? around token
  | .memberOrClose, around, .closeObject => some ⟨.done (.object []), around⟩
  | .memberOrClose, around, .string name => some ⟨.colon [] name, around⟩
  | .member members, around, .string name => some ⟨.colon members name, around⟩
  | .colon members name, around, .colon => some ⟨.value, .object members name :: around⟩
  | .done v, .array items :: around, .comma => some ⟨.value, .array (items ++ [v]) :: around⟩
  | .done v, .array items :: around, .closeArray => some ⟨.done (.array (items ++ [v])), around⟩
  | .done v, .object members name :: around, .comma =>
    some ⟨.member (members ++ [(name, v)]), around⟩
  | .done v, .object members name :: around, .closeObject =>
    some ⟨.done (.object (members ++ [(name, v)])), around⟩
  | _, _, _ => none

def steps? (s : Reading) : List Token → Option Reading
  | [] => some s
  | token :: tokens =>
    match s.step? token with
    | none => none
    | some next => next.steps? tokens

def finish? (s : Reading) : Option Json :=
  match s.expecting, s.around with
  | .done value, [] => some value
  | _, _ => none

end Reading

def read? (t : Text) : Option Json :=
  ((Token.readAll? t).bind Reading.start.steps?).bind Reading.finish?

end ShapeSearch.Json
