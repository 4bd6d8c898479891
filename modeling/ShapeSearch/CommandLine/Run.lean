import ShapeSearch.CommandLine.Options

namespace ShapeSearch

inductive ReadError where
  | notFound
  | isDirectory
  | notUnicode
  | other (message : Text)
  deriving DecidableEq, Repr

def ReadError.message : ReadError → Text
  | notFound => "No such file or directory (os error 2)".toList
  | isDirectory => "Is a directory (os error 21)".toList
  | notUnicode => "stream did not contain valid UTF-8".toList
  | other message => message

abbrev Files := Text → Except ReadError Text

inductive Complaint where
  | usage (cause : UsageError)
  | template (failure : Failure)
  | unreadable (path : Text) (cause : ReadError)

def Complaint.display : Complaint → Text
  | usage cause => "error: ".toList ++ cause.message ++ ['\n']
  | template failure => failure.display ++ ['\n']
  | unreadable path cause => "failed to read ".toList ++ path ++ ": ".toList ++ cause.message ++ ['\n']

structure Outcome where
  exitCode : Nat
  output : Text
  complaints : List Complaint

namespace Outcome

def messages (o : Outcome) : Text :=
  o.complaints.flatMap Complaint.display

/-- Something went wrong before any file was searched. -/
def refused (complaint : Complaint) : Outcome :=
  ⟨2, [], [complaint]⟩

structure Tally where
  output : Text
  complaints : List Complaint
  found : Nat

def ofTally (t : Tally) : Outcome where
  exitCode := if t.complaints.isEmpty then if t.found = 0 then 1 else 0 else 2
  output := t.output
  complaints := t.complaints

end Outcome

namespace Options

def searchFile (o : Options) (grammar : Grammar) (files : Files) (p : Pattern) (path : Text) :
    Outcome.Tally :=
  match files path with
  | .error cause => ⟨[], [.unreadable path cause], 0⟩
  | .ok text =>
    let found := p.findAll (Source.ofText grammar text)
    ⟨found.flatMap fun m => o.format.write (.ofMatch path text m), [], found.length⟩

def searchFiles (o : Options) (grammar : Grammar) (files : Files) (p : Pattern) :
    List Text → Outcome.Tally
  | [] => ⟨[], [], 0⟩
  | path :: rest =>
    let first := o.searchFile grammar files p path
    let others := o.searchFiles grammar files p rest
    ⟨first.output ++ others.output, first.complaints ++ others.complaints,
      first.found + others.found⟩

def run (o : Options) (grammar : Grammar) (files : Files) : Outcome :=
  match Pattern.compile grammar o.config o.template with
  | .error e => .refused (.template e.failure)
  | .ok p => .ofTally (o.searchFiles grammar files p o.files)

end Options

namespace CommandLine

def version : Text :=
  "rssr 0.1.0\n".toList

def help : Text :=
  "Search Rust source files for code shaped like a template\n\n".toList
    ++ "Usage: rssr [OPTIONS] <TEMPLATE> <FILE>...\n".toList

def run (grammar : Grammar) (files : Files) (arguments : List Text) : Outcome :=
  match Options.read arguments with
  | .ok o => o.run grammar files
  | .error .version => ⟨0, version, []⟩
  | .error .help => ⟨0, help, []⟩
  | .error (.usage cause) => .refused (.usage cause)

end CommandLine

end ShapeSearch
