import ShapeSearch.Text

namespace ShapeSearch

/-- A JSON value. A number is kept as it is written. -/
inductive Json where
  | null
  | bool (b : Bool)
  | number (digits : Text)
  | string (t : Text)
  | array (items : List Json)
  | object (members : List (Text × Json))

namespace Json

def natural (n : Nat) : Json :=
  number (Text.decimal n)

def ofOption {α : Type} (f : α → Json) (a : Option α) : Json :=
  (a.map f).getD null

def member? (j : Json) (name : Text) : Option Json :=
  match j with
  | object members => members.lookup name
  | _ => none

/-- The value of a number written without sign, point and exponent. -/
def natural? (j : Json) : Option Nat :=
  match j with
  | number digits => Text.readDigits? 10 digits
  | _ => none

def bool? (j : Json) : Option Bool :=
  match j with
  | bool b => some b
  | _ => none

def text? (j : Json) : Option Text :=
  match j with
  | string t => some t
  | _ => none

def items? (j : Json) : Option (List Json) :=
  match j with
  | array items => some items
  | _ => none

def members? (j : Json) : Option (List (Text × Json)) :=
  match j with
  | object members => some members
  | _ => none

def hexDigit (n : Nat) : Char :=
  Nat.digitChar n

def controlLetters : List (Char × Char) :=
  [('\x08', 'b'), ('\t', 't'), ('\n', 'n'), ('\x0c', 'f'), ('\r', 'r')]

/-- One character between quotes. Only quotes, backslashes and controls need an escape. -/
def escape (c : Char) : Text :=
  if c = '"' then ['\\', '"']
  else if c = '\\' then ['\\', '\\']
  else match controlLetters.lookup c with
    | some letter => ['\\', letter]
    | none =>
      if c.toNat < 32 then ['\\', 'u', '0', '0', hexDigit (c.toNat / 16), hexDigit (c.toNat % 16)]
      else [c]

def quote (t : Text) : Text :=
  '"' :: t.flatMap escape ++ ['"']

def readUnit? (t : Text) : Option Nat :=
  if t.length < 4 then none else Text.readDigits? 16 (t.take 4)

/-- The character of two surrogates. -/
def joinSurrogates (high low : Nat) : Char :=
  Char.ofNat (0x10000 + (high - 0xD800) * 0x400 + (low - 0xDC00))

/-- Reads the digits after `\u`, with a second such escape where the first is half a character.
Gives the number of characters read, too. -/
def readUnits? (t : Text) : Option (Char × Nat) :=
  (readUnit? t).bind fun n =>
    if n < 0xD800 ∨ 0xDFFF < n then some (Char.ofNat n, 4)
    else if n < 0xDC00 then
      match t.drop 4 with
      | '\\' :: 'u' :: rest =>
        (readUnit? rest).bind fun m =>
          if 0xDC00 ≤ m ∧ m ≤ 0xDFFF then some (joinSurrogates n m, 10) else none
      | _ => none
    else none

/-- Reads what follows a backslash. Gives the number of characters read, too. -/
def readEscape? : Text → Option (Char × Nat)
  | '"' :: _ => some ('"', 1)
  | '\\' :: _ => some ('\\', 1)
  | '/' :: _ => some ('/', 1)
  | 'b' :: _ => some ('\x08', 1)
  | 'f' :: _ => some ('\x0c', 1)
  | 'n' :: _ => some ('\n', 1)
  | 'r' :: _ => some ('\r', 1)
  | 't' :: _ => some ('\t', 1)
  | 'u' :: t => (readUnits? t).map fun (c, n) => (c, n + 1)
  | _ => none

def readQuoted? : Text → Option (Text × Nat)
  | [] => none
  | '"' :: _ => some ([], 1)
  | '\\' :: t =>
    (readEscape? t).bind fun (c, k) =>
      (readQuoted? (t.drop k)).map fun (s, n) => (c :: s, n + k + 1)
  | c :: t => if c.toNat < 32 then none else (readQuoted? t).map fun (s, n) => (c :: s, n + 1)
termination_by t => t.length
decreasing_by all_goals simp only [List.length_cons, List.length_drop]; omega

mutual

/-- A value without blanks. -/
def written : Json → Text
  | null => "null".toList
  | bool b => (if b then "true" else "false").toList
  | number digits => digits
  | string t => quote t
  | array items => '[' :: writtenItems items ++ [']']
  | object members => '\x7b' :: writtenMembers members ++ ['\x7d']

def writtenItems : List Json → Text
  | [] => []
  | [j] => written j
  | j :: k :: rest => written j ++ ',' :: writtenItems (k :: rest)

def writtenMembers : List (Text × Json) → Text
  | [] => []
  | [(name, j)] => quote name ++ ':' :: written j
  | (name, j) :: m :: rest => quote name ++ ':' :: written j ++ ',' :: writtenMembers (m :: rest)

end

end Json

end ShapeSearch
