import ShapeSearch.CommandLine.Run
import ShapeSearch.Tree.Forest

namespace ShapeSearch.Main

def readFile (path : Text) : IO (Except ReadError Text) := do
  try
    let bytes ← IO.FS.readBinFile (String.ofList path)
    match String.fromUTF8? bytes with
    | some s => return .ok s.toList
    | none => return .error .notUnicode
  catch
    | .noFileOrDirectory .. => return .error .notFound
    | .inappropriateType .. => return .error .isDirectory
    | e => return .error (.other (toString e).toList)

def readFiles (arguments : List Text) : IO Files := do
  match Options.read arguments with
  | .error _ => return fun _ => .error .notFound
  | .ok o =>
    let read ← o.files.mapM fun path => return (path, ← readFile path)
    return fun path => (read.lookup path).getD (.error .notFound)

def print (stream : IO.FS.Stream) (t : Text) : IO Unit := do
  stream.putStr (String.ofList t)
  stream.flush

end ShapeSearch.Main

open ShapeSearch ShapeSearch.Main in
/-- Searches the files that the arguments name. The trees of their texts, and of the template, come
on standard input, a JSON object on each line. -/
def main (arguments : List String) : IO UInt32 := do
  let input ← (← IO.getStdin).readToEnd
  match Forest.read? input.toList with
  | none =>
    print (← IO.getStderr) "error: standard input does not hold trees\n".toList
    return 2
  | some forest =>
    let arguments := arguments.map String.toList
    let outcome := CommandLine.run forest.grammar (← readFiles arguments) arguments
    print (← IO.getStdout) outcome.output
    print (← IO.getStderr) outcome.messages
    return outcome.exitCode.toUInt32
