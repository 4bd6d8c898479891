import ShapeSearch.Text

namespace ShapeSearch

namespace Escape

def codePoint? (bound : Nat) (hex : Text) : Option Char :=
  (Text.readUnsigned? 16 bound hex).bind fun n =>
    if h : n.isValidChar then some (Char.ofNatAux n h) else none

def letter? (c : Char) : Option Char :=
  match c with
  | 'n' => some '\n'
  | 'r' => some '\r'
  | 't' => some '\t'
  | '0' => some '\x00'
  | '\\' => some '\\'
  | '\'' => some '\''
  | '"' => some '"'
  | _ => none

theorem length_dropWhile_le (p : Char → Bool) (t : Text) : (t.dropWhile p).length ≤ t.length :=
  (List.dropWhile_suffix p).length_le

/-- Resolves the escapes of a quoted text; nothing if one is malformed. A backslash before a line
end takes away the white space that follows. -/
def decode? : Text → Option Text
  | [] => some []
  | '\\' :: 'x' :: t =>
    (codePoint? 256 (t.take 2)).bind fun c => (decode? (t.drop 2)).map (c :: ·)
  | '\\' :: 'u' :: '\x7b' :: t =>
    (codePoint? UInt32.size ((t.takeWhile (· != '\x7d')).filter (· != '_'))).bind fun c =>
      (decode? ((t.dropWhile (· != '\x7d')).drop 1)).map (c :: ·)
  | '\\' :: '\n' :: t => decode? (t.dropWhile Text.isBlank)
  | '\\' :: c :: t => (letter? c).bind fun d => (decode? t).map (d :: ·)
  | ['\\'] => none
  | c :: t => (decode? t).map (c :: ·)
termination_by t => t.length
decreasing_by
  · simp; omega
  · have := length_dropWhile_le (· != '\x7d') t; simp; omega
  · have := length_dropWhile_le Text.isBlank t; simp; omega
  all_goals simp only [List.length_cons]; omega

end Escape

namespace Real

/-- The double next to `m · 10^e`. Numbers past either end of the range need no digits. -/
def scaled (m : Nat) (e : Int) : Float :=
  let magnitude := e + (Text.decimal m).length
  if m = 0 ∨ magnitude < -330 then 0
  else if 310 < magnitude then 1 / 0
  else Float.ofScientific m (e < 0) e.natAbs

def unsigned : Text → Bool × Text
  | '-' :: t => (true, t)
  | '+' :: t => (false, t)
  | t => (false, t)

def readExponent? : Text → Option Int
  | [] => some 0
  | c :: t =>
    if c == 'e' || c == 'E' then
      let (negative, digits) := unsigned t
      (Text.readDigits? 10 digits).map fun n => if negative then -(n : Int) else n
    else none

/-- Reads a number without a sign, with digits before or after its point. -/
def readMagnitude? (t : Text) : Option Float :=
  let name := t.map Char.toLower
  if name = "inf".toList ∨ name = "infinity".toList then some (1 / 0)
  else if name = "nan".toList then some (0 / 0)
  else
    let whole := t.takeWhile Char.isDigit
    let (fraction, rest) := match t.dropWhile Char.isDigit with
      | '.' :: r => (r.takeWhile Char.isDigit, r.dropWhile Char.isDigit)
      | r => ([], r)
    (Text.readDigits? 10 (whole ++ fraction)).bind fun m =>
      (readExponent? rest).map fun e => scaled m (e - fraction.length)

def read? (t : Text) : Option Float :=
  let (negative, magnitude) := unsigned t
  (readMagnitude? magnitude).map fun x => if negative then -x else x

end Real

/-- What the text of a literal denotes. Nothing is known of a text that breaks the rules of its
kind. -/
inductive Literal where
  | boolean (value : Bool)
  | integer (value : Nat)
  | real (value : Float)
  | character (value : Char)
  | string (value : Text)
  | unknown

namespace Literal

/-- Literals agree in flavour and value; a real that is not a number agrees with none, not even
itself. -/
def agrees : Literal → Literal → Bool
  | boolean a, boolean b => a == b
  | integer a, integer b => a == b
  | real a, real b => a == b
  | character a, character b => a == b
  | string a, string b => a == b
  | unknown, unknown => true
  | _, _ => false

def kinds : List String :=
  ["integer_literal", "float_literal", "boolean_literal", "char_literal", "string_literal",
    "raw_string_literal"]

def integerTypes : List Text :=
  ["u128", "i128", "usize", "isize", "u64", "i64", "u32", "i32", "u16", "i16", "u8", "i8"].map
    String.toList

def withoutIntegerType (t : Text) : Text :=
  (integerTypes.findSome? fun type => t.beforeLast? type).getD t

/-- Integers take at most 128 bits. -/
def integerBound : Nat := UInt64.size * UInt64.size

def readInteger? (t : Text) : Option Nat :=
  match (withoutIntegerType t).filter (· != '_') with
  | '0' :: 'x' :: digits => Text.readUnsigned? 16 integerBound digits
  | '0' :: 'o' :: digits => Text.readUnsigned? 8 integerBound digits
  | '0' :: 'b' :: digits => Text.readUnsigned? 2 integerBound digits
  | digits => Text.readUnsigned? 10 integerBound digits

/-- Whether an integer text ends in a real type. The end of a hexadecimal number is digits. -/
def hasRealType (t : Text) : Bool :=
  !"0x".toList.isPrefixOf t && ("f32".toList.isSuffixOf t || "f64".toList.isSuffixOf t)

def withoutRealType (t : Text) : Text :=
  ((t.beforeLast? "f32".toList).or (t.beforeLast? "f64".toList)).getD t

def readReal? (t : Text) : Option Float :=
  Real.read? ((withoutRealType t).filter (· != '_'))

def withoutFlavour (t : Text) : Text :=
  t.dropWhile fun c => c == 'b' || c == 'c'

def quotedBody? (quote : Char) (t : Text) : Option Text :=
  ((withoutFlavour t).afterFirst? [quote]).bind (·.beforeLast? [quote])

/-- What stands between the delimiters of a raw string, which has as many hashes in front as
behind. -/
def rawBody? (t : Text) : Option Text :=
  ((withoutFlavour t).afterFirst? ['r']).bind fun marked =>
    let hashes := marked.takeWhile (· == '#')
    (Text.afterFirst? (marked.dropWhile (· == '#')) ['"']).bind (·.beforeLast? ('"' :: hashes))

def ofOption {α : Type} (make : α → Literal) (value : Option α) : Literal :=
  (value.map make).getD unknown

def read (kind : String) (t : Text) : Literal :=
  match kind with
  | "boolean_literal" =>
    if t = "true".toList then boolean true
    else if t = "false".toList then boolean false
    else unknown
  | "integer_literal" =>
    if hasRealType t then ofOption real (readReal? t) else ofOption integer (readInteger? t)
  | "float_literal" => ofOption real (readReal? t)
  | "char_literal" =>
    match (quotedBody? '\'' t).bind Escape.decode? with
    | some [c] => character c
    | _ => unknown
  | "string_literal" => ofOption string ((quotedBody? '"' t).bind Escape.decode?)
  | "raw_string_literal" => ofOption string (rawBody? t)
  | _ => unknown

end Literal

end ShapeSearch
