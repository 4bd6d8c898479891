import ShapeSearch.Regex

namespace ShapeSearch.Regex

inductive Escape where
  /-- A character, or the byte of that number. -/
  | char (c : Char) (asByte : Bool)
  | set (s : CharSet)
  | look (l : Look)

namespace Escape

def ofCodePoint (n : Nat) : Except Error Char :=
  if h : n.isValidChar then .ok (Char.ofNatAux n h) else .error .badCodePoint

/-- Reads a code point of `width` hexadecimal digits, or of any number of them in braces. Gives the
number of characters read, too. -/
def readCodePoint (width : Nat) (t : Text) : Except Error (Char × Nat) :=
  match t with
  | '\x7b' :: rest =>
    let hex := rest.takeWhile (· != '\x7d')
    if hex.length = rest.length then .error .unfinishedEscape
    else match Text.readDigits? 16 hex with
      | none => .error .badCodePoint
      | some n => (ofCodePoint n).map (·, hex.length + 2)
  | _ =>
    if t.length < width then .error .unfinishedEscape
    else match Text.readDigits? 16 (t.take width) with
      | none => .error .badCodePoint
      | some n => (ofCodePoint n).map (·, width)

def isEdgeNameChar (c : Char) : Bool :=
  c.isAlpha || c == '-'

/-- Reads the name in braces that may follow the letter of a word edge. Braces that hold no name are
left to be a count. -/
def readWordEdge (t : Text) : Except Error (Look × Nat) :=
  match t with
  | '\x7b' :: rest =>
    let name := rest.takeWhile isEdgeNameChar
    if rest.isEmpty then .error .unknownWordEdge
    else if name.isEmpty then .ok (.wordEdge, 0)
    else if (rest.drop name.length).head? != some '\x7d' then .error .unknownWordEdge
    else match Look.ofName? name with
      | none => .error .unknownWordEdge
      | some edge => .ok (edge, name.length + 2)
  | _ => .ok (.wordEdge, 0)

/-- What a single character after a backslash stands for. All of ASCII but letters, digits and angle
brackets stands for itself. -/
def ofChar? (c : Char) : Option Escape :=
  match c with
  | 'd' => some (.set .digit)
  | 'D' => some (.set (.complement .digit))
  | 's' => some (.set .space)
  | 'S' => some (.set (.complement .space))
  | 'w' => some (.set .word)
  | 'W' => some (.set (.complement .word))
  | 'A' => some (.look .textStart)
  | 'z' => some (.look .textEnd)
  | 'B' => some (.look .noWordEdge)
  | '<' => some (.look .wordStart)
  | '>' => some (.look .wordEnd)
  | 'a' => some (.char '\x07' false)
  | 'f' => some (.char '\x0c' false)
  | 't' => some (.char '\t' false)
  | 'n' => some (.char '\n' false)
  | 'r' => some (.char '\r' false)
  | 'v' => some (.char '\x0b' false)
  | _ => if c.toNat < 128 && !c.isAlphanum then some (.char c false) else none

def read : Text → Except Error (Escape × Nat)
  | [] => .error .unfinishedEscape
  | 'x' :: t => (readCodePoint 2 t).map fun (c, n) => (.char c (t.head? != some '\x7b'), n + 1)
  | 'u' :: t => (readCodePoint 4 t).map fun (c, n) => (.char c false, n + 1)
  | 'U' :: t => (readCodePoint 8 t).map fun (c, n) => (.char c false, n + 1)
  | 'b' :: t => (readWordEdge t).map fun (l, n) => (.look l, n + 1)
  | c :: _ =>
    if c.isDigit then .error .backReference
    else match ofChar? c with
      | none => .error .unknownEscape
      | some e => .ok (e, 1)

end Escape

inductive SetOperator where
  | intersection
  | difference
  | symmetricDifference

def SetOperator.apply (s t : CharSet) : SetOperator → CharSet
  | intersection => .intersection s.caseClosure t.caseClosure
  | difference => .difference s.caseClosure t.caseClosure
  | symmetricDifference => .symmetricDifference s.caseClosure t.caseClosure

/-- A bracket that is not closed yet: what its last operator waits for, and the members since. -/
structure Bracket where
  negated : Bool
  pending : Option (CharSet × SetOperator)
  members : CharSet

namespace Bracket

def add (b : Bracket) (s : CharSet) : Bracket :=
  { b with members := .union b.members s }

def joined (b : Bracket) : CharSet :=
  match b.pending with
  | none => b.members
  | some (s, op) => op.apply s b.members

def operate (b : Bracket) (op : SetOperator) : Bracket :=
  { b with pending := some (b.joined, op), members := .empty }

def close (b : Bracket) : CharSet :=
  if b.negated then .complement b.joined.caseClosure else b.joined.caseClosure

/-- Opens a bracket. Dashes in front stand for themselves, and so does a closing bracket that is the
very first member. Gives the number of characters read, too. -/
def opening (t : Text) : Bracket × Nat :=
  let caret := if t.head? = some '^' then 1 else 0
  let dashes := ((t.drop caret).takeWhile (· == '-')).length
  if dashes = 0 then
    if (t.drop caret).head? = some ']' then (⟨caret == 1, none, .single ']'⟩, caret + 1)
    else (⟨caret == 1, none, .empty⟩, caret)
  else (⟨caret == 1, none, .single '-'⟩, caret + dashes)

def readName? : Text → Option (CharSet × Nat)
  | ':' :: t =>
    let caret := if t.head? = some '^' then 1 else 0
    let name := (t.drop caret).takeWhile (· != ':')
    if (t.drop (caret + name.length)).take 2 = [':', ']'] then
      (CharSet.ofName? name).map fun s =>
        (if caret = 1 then s.caseClosure.complement else s.caseClosure, caret + name.length + 3)
    else none
  | _ => none

def readEnd : Text → Except Error (Escape × Nat)
  | [] => .error .unclosedClass
  | '\\' :: t => (Escape.read t).map fun (e, n) => (e, n + 1)
  | c :: _ => .ok (.char c false, 1)

/-- Reads a range or another member. A dash makes a range unless a dash or the end of the bracket
follows it. -/
def readMember (t : Text) : Except Error (CharSet × Nat) := do
  let (first, n) ← readEnd t
  match t.drop n with
  | '-' :: next :: rest =>
    if next == ']' || next == '-' then
      return (← alone first, n)
    let (last, m) ← readEnd (next :: rest)
    match first, last with
    | .char a _, .char b _ =>
      if a.toNat ≤ b.toNat then return (.range a.toNat b.toNat, n + m + 1)
      else .error .reversedRange
    | _, _ => .error .classOfNoCharacters
  | _ => return (← alone first, n)
where
  alone : Escape → Except Error CharSet
    | .char c _ => .ok (.single c)
    | .set s => .ok s
    | .look _ => .error .classOfNoCharacters

/-- Reads the rest of a bracket inside others, up to where the outermost is closed. -/
def readRest (b : Bracket) (outer : List Bracket) : Text → Except Error (CharSet × Nat)
  | [] => .error .unclosedClass
  | ']' :: t =>
    match outer with
    | [] => .ok (b.close, 1)
    | o :: os => (readRest (o.add b.close) os t).map fun (s, n) => (s, n + 1)
  | '[' :: t =>
    match readName? t with
    | some (s, k) => (readRest (b.add s) outer (t.drop k)).map fun (r, n) => (r, n + k + 1)
    | none =>
      let (inner, k) := opening t
      (readRest inner (b :: outer) (t.drop k)).map fun (r, n) => (r, n + k + 1)
  | '&' :: '&' :: t => (readRest (b.operate .intersection) outer t).map fun (s, n) => (s, n + 2)
  | '-' :: '-' :: t => (readRest (b.operate .difference) outer t).map fun (s, n) => (s, n + 2)
  | '~' :: '~' :: t =>
    (readRest (b.operate .symmetricDifference) outer t).map fun (s, n) => (s, n + 2)
  | c :: t =>
    match readMember (c :: t) with
    | .error e => .error e
    | .ok (s, k) => (readRest (b.add s) outer (t.drop (k - 1))).map fun (r, n) => (r, n + k)
termination_by t => t.length
decreasing_by
  all_goals simp only [List.length_cons, List.length_drop]; omega

/-- Reads what follows an opening bracket. Gives the number of characters read, too. -/
def read (t : Text) : Except Error (CharSet × Nat) :=
  let (b, k) := opening t
  (readRest b [] (t.drop k)).map fun (s, n) => (s, n + k)

end Bracket

end ShapeSearch.Regex
