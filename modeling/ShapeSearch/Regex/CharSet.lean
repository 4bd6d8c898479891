import ShapeSearch.Text
import ShapeSearch.Unicode.CaseFolding

namespace ShapeSearch.Regex

inductive Error where
  | unknownEscape
  | unfinishedEscape
  | backReference
  | badCodePoint
  | unknownWordEdge
  | unclosedClass
  | classOfNoCharacters
  | reversedRange
  | notUtf8
  | lookAround
  | badGroupName
  | repeatedGroupName
  | unknownFlag
  | repeatedFlag
  | unclosedGroup
  | unopenedGroup
  | nothingToRepeat
  | badCount
  | reversedCount
  deriving DecidableEq, Repr

def Error.message : Error → String
  | unknownEscape => "unrecognized escape sequence"
  | unfinishedEscape => "incomplete escape sequence"
  | backReference => "backreferences are not supported"
  | badCodePoint => "escape does not name a code point"
  | unknownWordEdge => "unknown word boundary"
  | unclosedClass => "unclosed character class"
  | classOfNoCharacters => "escape is not allowed in a character class"
  | reversedRange => "character range ends before it starts"
  | notUtf8 => "pattern can match invalid UTF-8"
  | lookAround => "look-around is not supported"
  | badGroupName => "invalid group name"
  | repeatedGroupName => "group name is used twice"
  | unknownFlag => "unrecognized flag"
  | repeatedFlag => "flag is given twice"
  | unclosedGroup => "unclosed group"
  | unopenedGroup => "unopened group"
  | nothingToRepeat => "repetition operator without an operand"
  | badCount => "malformed repetition count"
  | reversedCount => "repetition count ends before it starts"

structure Flags where
  ignoreCase : Bool
  multiLine : Bool
  dotMatchesNewline : Bool
  /-- Lines end with a carriage return and a line feed, or with one of them. -/
  crlf : Bool
  unicode : Bool
  deriving DecidableEq, Repr

inductive Flag where
  | ignoreCase
  | multiLine
  | dotMatchesNewline
  | swapGreed
  | crlf
  | unicode
  deriving DecidableEq, Repr

abbrev FlagChange := List (Flag × Bool)

namespace Flag

def ofChar? : Char → Option Flag
  | 'i' => some ignoreCase
  | 'm' => some multiLine
  | 's' => some dotMatchesNewline
  | 'U' => some swapGreed
  | 'R' => some crlf
  | 'u' => some unicode
  | _ => none

/-- Which texts match does not hang on greed. -/
def set (value : Bool) (flags : Flags) : Flag → Flags
  | ignoreCase => { flags with ignoreCase := value }
  | multiLine => { flags with multiLine := value }
  | dotMatchesNewline => { flags with dotMatchesNewline := value }
  | swapGreed => flags
  | crlf => { flags with crlf := value }
  | unicode => { flags with unicode := value }

end Flag

namespace Flags

/-- The flags at the start of an expression. -/
def start (ignoreCase : Bool) : Flags :=
  ⟨ignoreCase, false, false, false, true⟩

def change (flags : Flags) (change : FlagChange) : Flags :=
  change.foldl (fun flags (flag, value) => flag.set value flags) flags

/-- Without Unicode, a code point outside of ASCII has no properties and no case. -/
def sees (flags : Flags) (n : Nat) : Bool :=
  flags.unicode || n < 128

end Flags

namespace FlagChange

/-- Reads letters after those in `seen`. Behind a dash, of which there is at most one and never at
the end, flags are turned off. -/
def readAfter (value : Bool) (seen : FlagChange) : Text → Except Error FlagChange
  | [] => .ok seen
  | '-' :: t =>
    if !value then .error .repeatedFlag
    else if t.isEmpty then .error .unknownFlag
    else readAfter false seen t
  | c :: t =>
    match Flag.ofChar? c with
    | none => .error .unknownFlag
    | some flag =>
      if seen.any (·.1 == flag) then .error .repeatedFlag
      else readAfter value (seen ++ [(flag, value)]) t

def read (t : Text) : Except Error FlagChange :=
  readAfter true [] t

end FlagChange

end ShapeSearch.Regex

namespace ShapeSearch

/-- A set of code points, as a regular expression describes it. -/
inductive CharSet where
  | range (first last : Nat)
  | digit
  | space
  | word
  | complement (s : CharSet)
  | union (s t : CharSet)
  | intersection (s t : CharSet)
  | difference (s t : CharSet)
  | symmetricDifference (s t : CharSet)
  /-- Where case is ignored, the set and all that differs from its members in case only. -/
  | caseClosure (s : CharSet)
  deriving DecidableEq, Repr

/-- The code points that differ from `n` in case only, itself among them. -/
def Regex.Flags.variants (flags : Flags) (n : Nat) : List Nat :=
  if flags.ignoreCase then
    (Unicode.caseVariants n).filter fun m => m == n || flags.sees m && flags.sees n
  else [n]

namespace CharSet

open Regex (Flags)

def contains (flags : Flags) : CharSet → Nat → Bool
  | range first last, n => first ≤ n && n ≤ last
  | digit, n => flags.sees n && Unicode.decimalDigits.contain n
  | space, n => flags.sees n && Unicode.whiteSpace.contain n
  | word, n => flags.sees n && Unicode.isWord n
  | complement s, n => !contains flags s n
  | union s t, n => contains flags s n || contains flags t n
  | intersection s t, n => contains flags s n && contains flags t n
  | difference s t, n => contains flags s n && !contains flags t n
  | symmetricDifference s t, n => contains flags s n != contains flags t n
  | caseClosure s, n => (flags.variants n).any (contains flags s)

/-- Whether a set is written in ASCII alone. Without Unicode a complement has bytes in it that are
no characters. -/
def isAscii : CharSet → Bool
  | range _ last => last < 128
  | digit | space | word => true
  | complement _ => false
  | union s t | intersection s t | difference s t | symmetricDifference s t =>
    isAscii s && isAscii t
  | caseClosure s => isAscii s

def single (c : Char) : CharSet :=
  range c.toNat c.toNat

def empty : CharSet :=
  range 1 0

def ofRanges (ranges : List (Char × Char)) : CharSet :=
  ranges.foldr (fun (a, b) s => union (range a.toNat b.toNat) s) empty

def ofName? (name : List Char) : Option CharSet :=
  match String.ofList name with
  | "alnum" => some (ofRanges [('0', '9'), ('A', 'Z'), ('a', 'z')])
  | "alpha" => some (ofRanges [('A', 'Z'), ('a', 'z')])
  | "ascii" => some (ofRanges [('\x00', '\x7f')])
  | "blank" => some (ofRanges [('\t', '\t'), (' ', ' ')])
  | "cntrl" => some (ofRanges [('\x00', '\x1f'), ('\x7f', '\x7f')])
  | "digit" => some (ofRanges [('0', '9')])
  | "graph" => some (ofRanges [('!', '~')])
  | "lower" => some (ofRanges [('a', 'z')])
  | "print" => some (ofRanges [(' ', '~')])
  | "punct" => some (ofRanges [('!', '/'), (':', '@'), ('[', '\x60'), ('\x7b', '~')])
  | "space" => some (ofRanges [('\t', '\r'), (' ', ' ')])
  | "upper" => some (ofRanges [('A', 'Z')])
  | "word" => some (ofRanges [('0', '9'), ('A', 'Z'), ('_', '_'), ('a', 'z')])
  | "xdigit" => some (ofRanges [('0', '9'), ('A', 'F'), ('a', 'f')])
  | _ => none

end CharSet

end ShapeSearch
