import ShapeSearch.Unicode.Classes

namespace ShapeSearch

/-- Templates, sources and messages are lists of characters. Offsets into them count UTF-8 bytes. -/
abbrev Text := List Char

namespace Text

def bytes : Text → Nat
  | [] => 0
  | c :: t => c.utf8Size + bytes t

/-- What follows the first `n` bytes; nothing if they end inside a character or past the end. -/
def drop? : Nat → Text → Option Text
  | 0, t => some t
  | _ + 1, [] => none
  | n + 1, c :: t => if c.utf8Size ≤ n + 1 then drop? (n + 1 - c.utf8Size) t else none

def take? : Nat → Text → Option Text
  | 0, _ => some []
  | _ + 1, [] => none
  | n + 1, c :: t =>
    if c.utf8Size ≤ n + 1 then (take? (n + 1 - c.utf8Size) t).map (c :: ·) else none

def slice? (start stop : Nat) (t : Text) : Option Text :=
  if start ≤ stop then (drop? start t).bind (take? (stop - start)) else none

/-- The bytes from `start` up to `stop`, empty where they are no text of their own. -/
def slice (start stop : Nat) (t : Text) : Text :=
  (slice? start stop t).getD []

def afterFirst? (t start : Text) : Option Text :=
  if start.isPrefixOf t then some (t.drop start.length) else none

def beforeLast? (t final : Text) : Option Text :=
  if final.isSuffixOf t then some (t.take (t.length - final.length)) else none

/-- Whether two texts stand in the order of a dictionary. Characters are ordered by their code points,
which is also the order of their bytes. -/
def inOrder : Text → Text → Bool
  | [], _ => true
  | _ :: _, [] => false
  | c :: t, d :: u => c.toNat < d.toNat || (c == d && inOrder t u)

end Text

/-- A line and a column in it, both counted from one. Columns count bytes. -/
structure Position where
  line : Nat
  column : Nat
  deriving DecidableEq, Repr

namespace Position

def next (p : Position) (c : Char) : Position :=
  if c = '\n' then ⟨p.line + 1, 1⟩ else ⟨p.line, p.column + c.utf8Size⟩

def advance (p : Position) : Nat → Text → Position
  | 0, _ => p
  | _ + 1, [] => p
  | n + 1, c :: t => advance (p.next c) (n + 1 - c.utf8Size) t

def ofOffset (offset : Nat) (t : Text) : Position :=
  advance ⟨1, 1⟩ offset t

end Position

namespace Text

def isBlank (c : Char) : Bool :=
  Unicode.whiteSpace.contain c.toNat

def trimEnd (t : Text) : Text :=
  (t.reverse.dropWhile isBlank).reverse

def decimal (n : Nat) : Text :=
  Nat.toDigits 10 n

def digitValue? (c : Char) : Option Nat :=
  if '0' ≤ c ∧ c ≤ '9' then some (c.toNat - 48)
  else if 'a' ≤ c ∧ c ≤ 'f' then some (c.toNat - 87)
  else if 'A' ≤ c ∧ c ≤ 'F' then some (c.toNat - 55)
  else none

def readDigitsAfter? (radix n : Nat) : Text → Option Nat
  | [] => some n
  | c :: t =>
    match digitValue? c with
    | some d => if d < radix then readDigitsAfter? radix (n * radix + d) t else none
    | none => none

def readDigits? (radix : Nat) : Text → Option Nat
  | [] => none
  | t => readDigitsAfter? radix 0 t

def readUnsigned? (radix bound : Nat) (t : Text) : Option Nat :=
  let digits := match t with
    | '+' :: rest => rest
    | _ => t
  (readDigits? radix digits).filter (· < bound)

end Text

end ShapeSearch
