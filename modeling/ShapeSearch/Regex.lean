import ShapeSearch.Regex.CharSet

namespace ShapeSearch.Regex

/-- What a regular expression can ask of a place between two characters. -/
inductive Look where
  | textStart
  | textEnd
  | lineStart
  | lineEnd
  | crlfLineStart
  | crlfLineEnd
  | wordEdge
  | noWordEdge
  | wordStart
  | wordEnd
  | afterNoWord
  | beforeNoWord
  deriving DecidableEq, Repr

namespace Look

def isWordAt (flags : Flags) (c : Option Char) : Bool :=
  c.any fun c => flags.sees c.toNat && Unicode.isWord c.toNat

/-- A carriage return and a line feed end a line together, and no place between them does. -/
def holds (flags : Flags) (before after : Option Char) : Look → Bool
  | textStart => before.isNone
  | textEnd => after.isNone
  | lineStart => before.all (· == '\n')
  | lineEnd => after.all (· == '\n')
  | crlfLineStart => before.all fun c => c == '\n' || c == '\r' && after != some '\n'
  | crlfLineEnd => after.all fun c => c == '\r' || c == '\n' && before != some '\r'
  | wordEdge => isWordAt flags before != isWordAt flags after
  | noWordEdge => isWordAt flags before == isWordAt flags after
  | wordStart => !isWordAt flags before && isWordAt flags after
  | wordEnd => isWordAt flags before && !isWordAt flags after
  | afterNoWord => !isWordAt flags before
  | beforeNoWord => !isWordAt flags after

def ofName? (name : List Char) : Option Look :=
  match String.ofList name with
  | "start" => some wordStart
  | "end" => some wordEnd
  | "start-half" => some afterNoWord
  | "end-half" => some beforeNoWord
  | _ => none

end Look

end ShapeSearch.Regex

namespace ShapeSearch

/-- A regular expression whose flags are resolved. -/
inductive Regex where
  | empty
  | set (flags : Regex.Flags) (s : CharSet)
  | look (flags : Regex.Flags) (l : Regex.Look)
  | seq (r s : Regex)
  | alt (r s : Regex)
  | repetition (r : Regex) (min : Nat) (max : Option Nat)
  deriving DecidableEq, Repr

namespace Regex

abbrev Places := List Bool

namespace Places

def union (p q : Places) : Places :=
  List.zipWith (· || ·) p q

def advance (member : Char → Bool) (t : Text) (p : Places) : Places :=
  false :: List.zipWith (fun c here => here && member c) t p

def sift (holds : Option Char → Option Char → Bool) : Option Char → Text → Places → Places
  | _, _, [] => []
  | before, [], here :: _ => [here && holds before none]
  | before, c :: t, here :: p => (here && holds before (some c)) :: sift holds (some c) t p

/-- Takes `n` steps, or fewer where further ones change nothing. -/
def iterate (step : Places → Places) : Nat → Places → Places
  | 0, p => p
  | n + 1, p =>
    let q := step p
    if q = p then p else iterate step n q

def widen (step : Places → Places) (n : Nat) (p : Places) : Places :=
  iterate (fun q => union q (step q)) n p

end Places

/-- Where a match of an expression can end that begins at one of the given places. -/
def ends (t : Text) : Regex → Places → Places
  | empty, p => p
  | set flags s, p => p.advance (fun c => s.contains flags c.toNat) t
  | look flags l, p => p.sift (fun before after => l.holds flags before after) none t
  | seq r s, p => ends t s (ends t r p)
  | alt r s, p => (ends t r p).union (ends t s p)
  | repetition r min max, p =>
    Places.widen (ends t r) (max.elim (t.length + 1) (· - min)) (Places.iterate (ends t r) min p)

def matchesWithin (r : Regex) (t : Text) : Bool :=
  (r.ends t (List.replicate (t.length + 1) true)).any id

end Regex

end ShapeSearch
