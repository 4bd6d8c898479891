import ShapeSearch.Regex.Token

namespace ShapeSearch.Regex

/-- A group that is not closed yet, or the whole expression. -/
structure Group where
  flags : Flags
  alternatives : Option Regex
  /-- What the current alternative holds, last first. A change of flags leaves nothing that can be
  repeated. -/
  items : List (Option Regex)

namespace Group

def opening (flags : Flags) : Group :=
  ⟨flags, none, []⟩

def add (g : Group) (r : Regex) : Group :=
  { g with items := some r :: g.items }

def change (g : Group) (c : FlagChange) : Group :=
  { g with flags := g.flags.change c, items := none :: g.items }

def sequence (g : Group) : Regex :=
  match g.items.filterMap id with
  | [] => .empty
  | last :: earlier => earlier.foldl (fun later r => .seq r later) last

def regex (g : Group) : Regex :=
  match g.alternatives with
  | none => g.sequence
  | some r => .alt r g.sequence

def bar (g : Group) : Group :=
  { g with alternatives := some g.regex, items := [] }

def repeatLast (g : Group) (min : Nat) (max : Option Nat) : Except Error Group :=
  match g.items with
  | some r :: rest => .ok { g with items := some (.repetition r min max) :: rest }
  | _ => .error .nothingToRepeat

end Group

/-- The groups around the place up to which an expression is read, innermost first, and the names of
all groups before it. -/
structure Reading where
  group : Group
  outer : List Group
  names : List Text

namespace Atom

/-- Whether all that an atom can match is characters, and no single bytes of them. -/
def isUtf8 (flags : Flags) : Atom → Bool
  | set s => flags.unicode || s.isAscii
  | char c asByte => !asByte || flags.sees c.toNat
  | dot => flags.unicode
  | _ => true

/-- What ends the run of characters that a dot matches. -/
def lineBreak (flags : Flags) : CharSet :=
  if flags.dotMatchesNewline then .empty
  else if flags.crlf then .union (.single '\r') (.single '\n')
  else .single '\n'

def expression (flags : Flags) : Atom → Regex
  | set s => .set flags s
  | char c _ => .set flags (CharSet.single c).caseClosure
  | dot => .set flags (lineBreak flags).complement
  | caret =>
    .look flags (if flags.multiLine then if flags.crlf then .crlfLineStart else .lineStart
      else .textStart)
  | dollar =>
    .look flags (if flags.multiLine then if flags.crlf then .crlfLineEnd else .lineEnd
      else .textEnd)
  | look l => .look flags l

def regex (flags : Flags) (a : Atom) : Except Error Regex :=
  if a.isUtf8 flags then .ok (a.expression flags) else .error .notUtf8

end Atom

namespace Reading

def start (flags : Flags) : Reading :=
  ⟨.opening flags, [], []⟩

def add (s : Reading) (r : Regex) : Reading :=
  { s with group := s.group.add r }

def step (s : Reading) : Token → Except Error Reading
  | .atom a => (a.regex s.group.flags).map s.add
  | .bar => .ok { s with group := s.group.bar }
  | .repetition min max => (s.group.repeatLast min max).map fun g => { s with group := g }
  | .flags change => .ok { s with group := s.group.change change }
  | .openGroup name change =>
    if name.any s.names.contains then .error .repeatedGroupName
    else .ok ⟨.opening (s.group.flags.change change), s.group :: s.outer, name.toList ++ s.names⟩
  | .closeGroup =>
    match s.outer with
    | [] => .error .unopenedGroup
    | g :: gs => .ok ⟨g.add s.group.regex, gs, s.names⟩

def steps (s : Reading) : List Token → Except Error Reading
  | [] => .ok s
  | token :: tokens =>
    match s.step token with
    | .error e => .error e
    | .ok next => next.steps tokens

def finish (s : Reading) : Except Error Regex :=
  if s.outer.isEmpty then .ok s.group.regex else .error .unclosedGroup

end Reading

def read (ignoreCase : Bool) (t : Text) : Except Error Regex := do
  let tokens ← Token.readAll t
  let last ← (Reading.start (.start ignoreCase)).steps tokens
  last.finish

end ShapeSearch.Regex
