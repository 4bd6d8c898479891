import ShapeSearch.Regex.Bracket

namespace ShapeSearch.Regex

/-- What is an expression by itself, once the flags in force are known. -/
inductive Atom where
  | set (s : CharSet)
  | char (c : Char) (asByte : Bool)
  | dot
  | caret
  | dollar
  | look (l : Look)

def Atom.ofEscape : Escape → Atom
  | .char c asByte => char c asByte
  | .set s => set s
  | .look l => look l

/-- The smallest pieces of a regular expression that have a meaning of their own. -/
inductive Token where
  | atom (a : Atom)
  | bar
  | repetition (min : Nat) (max : Option Nat)
  | openGroup (name : Option Text) (change : FlagChange)
  | closeGroup
  | flags (change : FlagChange)

namespace Token

def readBound? (t : Text) : Option Nat :=
  (Text.readDigits? 10 (Text.trimEnd (t.dropWhile Text.isBlank))).filter (· < UInt32.size)

def readBounds (t : Text) : Except Error (Nat × Option Nat) :=
  match readBound? (t.takeWhile (· != ',')), t.dropWhile (· != ',') with
  | none, _ => .error .badCount
  | some min, [] => .ok (min, some min)
  | some min, [_] => .ok (min, none)
  | some min, _ :: rest =>
    match readBound? rest with
    | none => .error .badCount
    | some max => if min ≤ max then .ok (min, some max) else .error .reversedCount

/-- One if a question mark follows a repetition, which makes it lazy, else none. -/
def laziness (t : Text) : Nat :=
  if t.head? = some '?' then 1 else 0

def readCount (t : Text) : Except Error (Token × Nat) :=
  let body := t.takeWhile (· != '\x7d')
  if body.length = t.length then .error .badCount
  else (readBounds body).map fun (min, max) =>
    (.repetition min max, body.length + 1 + laziness (t.drop (body.length + 1)))

def isNameStart (c : Char) : Bool :=
  c == '_' || Unicode.alphabetic.contain c.toNat

def isNameRest (c : Char) : Bool :=
  c == '_' || c == '.' || c == '[' || c == ']' || Unicode.isAlphanumeric c.toNat

def readName (t : Text) : Except Error (Token × Nat) :=
  let name := t.takeWhile (· != '>')
  if name.length = t.length then .error .badGroupName
  else match name with
    | [] => .error .badGroupName
    | c :: cs =>
      if isNameStart c && cs.all isNameRest then .ok (.openGroup (some name) [], name.length + 1)
      else .error .badGroupName

def readFlags (t : Text) : Except Error (Token × Nat) :=
  let letters := t.takeWhile fun c => c != ':' && c != ')'
  match t.drop letters.length with
  | [] => .error .unclosedGroup
  | stop :: _ =>
    match FlagChange.read letters with
    | .error e => .error e
    | .ok change =>
      if stop == ':' then .ok (.openGroup none change, letters.length + 1)
      else if change.isEmpty then .error .nothingToRepeat
      else .ok (.flags change, letters.length + 1)

def readOpening : Text → Except Error (Token × Nat)
  | '?' :: '=' :: _ | '?' :: '!' :: _ => .error .lookAround
  | '?' :: '<' :: '=' :: _ | '?' :: '<' :: '!' :: _ => .error .lookAround
  | '?' :: 'P' :: '<' :: t => (readName t).map fun (token, n) => (token, n + 3)
  | '?' :: '<' :: t => (readName t).map fun (token, n) => (token, n + 2)
  | '?' :: t => (readFlags t).map fun (token, n) => (token, n + 1)
  | _ => .ok (.openGroup none [], 0)

/-- Reads the token that begins with `c` and goes on in `t`. Gives the number of characters read
from `t`, too. -/
def read (c : Char) (t : Text) : Except Error (Token × Nat) :=
  match c with
  | '.' => .ok (.atom .dot, 0)
  | '^' => .ok (.atom .caret, 0)
  | '$' => .ok (.atom .dollar, 0)
  | '|' => .ok (.bar, 0)
  | ')' => .ok (.closeGroup, 0)
  | '(' => readOpening t
  | '[' => (Bracket.read t).map fun (s, n) => (.atom (.set s), n)
  | '\\' => (Escape.read t).map fun (e, n) => (.atom (.ofEscape e), n)
  | '*' => .ok (.repetition 0 none, laziness t)
  | '+' => .ok (.repetition 1 none, laziness t)
  | '?' => .ok (.repetition 0 (some 1), laziness t)
  | '\x7b' => readCount t
  | _ => .ok (.atom (.char c false), 0)

def readAll : Text → Except Error (List Token)
  | [] => .ok []
  | c :: t =>
    match read c t with
    | .error e => .error e
    | .ok (token, n) => (readAll (t.drop n)).map (token :: ·)
termination_by t => t.length
decreasing_by simp only [List.length_cons, List.length_drop]; omega

end Token

end ShapeSearch.Regex
