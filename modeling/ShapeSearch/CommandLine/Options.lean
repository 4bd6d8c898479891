import ShapeSearch.Search

namespace ShapeSearch

/-- A match as it is reported: where it is, its text, and what the names stand for, in their
order. -/
structure Record where
  path : Text
  position : Position
  text : Text
  bindings : List (Text × Text)
  deriving DecidableEq, Repr

namespace Record

def ofMatch (path source : Text) (m : Match) : Record where
  path := path
  position := Position.ofOffset m.start source
  text := m.text source
  bindings := m.sortedCaptures.map fun (name, b) => (name, b.text)

def human (r : Record) : Text :=
  r.path ++ [':'] ++ Text.decimal r.position.line ++ [':'] ++ Text.decimal r.position.column
    ++ [':', ' '] ++ r.text ++ ['\n']
    ++ r.bindings.flatMap fun (name, t) => "    ".toList ++ name ++ " = ".toList ++ t ++ ['\n']

def json (r : Record) : Json :=
  .object [("path".toList, .string r.path), ("line".toList, .natural r.position.line),
    ("column".toList, .natural r.position.column), ("text".toList, .string r.text),
    ("bindings".toList, .object (r.bindings.map fun (name, t) => (name, .string t)))]

def jsonLine (r : Record) : Text :=
  r.json.written ++ ['\n']

end Record

inductive OutputFormat where
  | human
  | json
  deriving DecidableEq, Repr

def OutputFormat.write : OutputFormat → Record → Text
  | human => Record.human
  | json => Record.jsonLine

/-- The flags that take a value, and `ignoreCase`, which takes none. -/
inductive Switch where
  | format
  | maxMatches
  | maxDepth
  | ignoreCase
  | logFilter
  | logFormat
  deriving DecidableEq, Repr

namespace Switch

def ofName? (name : Text) : Option Switch :=
  match String.ofList name with
  | "format" => some format
  | "max-matches" => some maxMatches
  | "max-depth" => some maxDepth
  | "ignore-case" => some ignoreCase
  | "log-filter" => some logFilter
  | "log-format" => some logFormat
  | _ => none

def isLimit (value : Text) : Bool :=
  (Text.readUnsigned? 10 UInt64.size value).isSome

def name : Switch → Text
  | format => "format".toList
  | maxMatches => "max-matches".toList
  | maxDepth => "max-depth".toList
  | ignoreCase => "ignore-case".toList
  | logFilter => "log-filter".toList
  | logFormat => "log-format".toList

def allows (value : Text) : Switch → Bool
  | format => value == "human".toList || value == "json".toList
  | maxMatches | maxDepth => isLimit value
  | ignoreCase => value.isEmpty
  | logFilter => true
  | logFormat =>
    value.map Char.toLower == "json".toList || value.map Char.toLower == "compact".toList

end Switch

inductive UsageError where
  | unknownFlag (argument : Text)
  | missingValue (switch : Switch)
  | unexpectedValue (argument : Text)
  | badValue (switch : Switch) (value : Text)
  | repeatedFlag (switch : Switch)
  | emptyFileName
  | noTemplate
  | noFile
  deriving DecidableEq, Repr

def UsageError.message : UsageError → Text
  | unknownFlag argument => "unexpected argument ".toList ++ argument
  | missingValue switch => "a value is required for --".toList ++ switch.name
  | unexpectedValue argument => "unexpected value in ".toList ++ argument
  | badValue switch value => "invalid value for --".toList ++ switch.name ++ ": ".toList ++ value
  | repeatedFlag switch => "flag is given twice: --".toList ++ switch.name
  | emptyFileName => "a file name is empty".toList
  | noTemplate => "the template is missing".toList
  | noFile => "no file is given".toList

structure Options where
  template : Text
  files : List Text
  format : OutputFormat
  maxMatches : Option Nat
  maxDepth : Option Nat
  ignoreCase : Bool
  deriving DecidableEq, Repr

def Options.config (o : Options) : Config where
  maxMatches := o.maxMatches.getD Config.default.maxMatches
  maxDepth := o.maxDepth.getD Config.default.maxDepth
  caseSensitive := !o.ignoreCase

inductive Interruption where
  | usage (cause : UsageError)
  | version
  | help
  deriving DecidableEq, Repr

structure Arguments where
  switches : List (Switch × Text)
  positionals : List Text
  pending : Option Switch
  /-- Whether all that follows is positional. -/
  switchesDone : Bool

namespace Arguments

def none : Arguments :=
  ⟨[], [], .none, false⟩

def looksLikeFlag (argument : Text) : Bool :=
  argument.head? == some '-' && argument != ['-']

def addPositional (a : Arguments) (argument : Text) : Except Interruption Arguments :=
  if argument.isEmpty && !a.positionals.isEmpty then .error (.usage .emptyFileName)
  else .ok { a with positionals := a.positionals ++ [argument] }

def set (a : Arguments) (switch : Switch) (value : Text) : Except Interruption Arguments :=
  if a.switches.any (·.1 == switch) then .error (.usage (.repeatedFlag switch))
  else if switch.allows value then
    .ok { a with switches := a.switches ++ [(switch, value)], pending := .none }
  else .error (.usage (.badValue switch value))

/-- Reads an argument with two dashes in front, which may bring its value behind a sign of
equality. -/
def addLong (a : Arguments) (argument : Text) : Except Interruption Arguments :=
  let name := (argument.drop 2).takeWhile (· != '=')
  let value := (argument.drop 2).dropWhile (· != '=')
  match Switch.ofName? name with
  | .none =>
    if name = "version".toList ∧ value.isEmpty then .error .version
    else if name = "help".toList ∧ value.isEmpty then .error .help
    else .error (.usage (.unknownFlag argument))
  | some .ignoreCase =>
    if value.isEmpty then a.set .ignoreCase [] else .error (.usage (.unexpectedValue argument))
  | some switch =>
    if value.isEmpty then .ok { a with pending := some switch } else a.set switch (value.drop 1)

def addShort (argument : Text) : Interruption :=
  match argument with
  | _ :: 'V' :: _ => .version
  | _ :: 'h' :: _ => .help
  | _ => .usage (.unknownFlag argument)

def add (a : Arguments) (argument : Text) : Except Interruption Arguments :=
  if a.switchesDone then a.addPositional argument
  else match a.pending with
    | some switch =>
      if looksLikeFlag argument then .error (.usage (.missingValue switch))
      else a.set switch argument
    | .none =>
      if argument = ['-', '-'] then .ok { a with switchesDone := true }
      else if "--".toList.isPrefixOf argument then a.addLong argument
      else if looksLikeFlag argument then .error (addShort argument)
      else a.addPositional argument

def addAll (a : Arguments) : List Text → Except Interruption Arguments
  | [] => .ok a
  | argument :: rest =>
    match a.add argument with
    | .error e => .error e
    | .ok next => next.addAll rest

def limit? (a : Arguments) (switch : Switch) : Option Nat :=
  (a.switches.lookup switch).bind (Text.readUnsigned? 10 UInt64.size)

def finish (a : Arguments) : Except Interruption Options :=
  match a.pending, a.positionals with
  | some switch, _ => .error (.usage (.missingValue switch))
  | .none, [] => .error (.usage .noTemplate)
  | .none, [_] => .error (.usage .noFile)
  | .none, template :: files =>
    .ok {
      template, files
      format := if a.switches.lookup .format = some "json".toList then .json else .human
      maxMatches := a.limit? .maxMatches
      maxDepth := a.limit? .maxDepth
      ignoreCase := (a.switches.lookup .ignoreCase).isSome }

end Arguments

def Options.read (arguments : List Text) : Except Interruption Options :=
  (Arguments.none.addAll arguments).bind Arguments.finish

end ShapeSearch
