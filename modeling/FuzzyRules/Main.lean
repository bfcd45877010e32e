import FuzzyRules.CommandLine.Run

namespace FuzzyRules.CommandLine

def print (report : Report) : IO Unit := do
  let output ← IO.getStdout
  output.putStr report.output
  output.flush
  for diagnostic in report.log do
    IO.eprintln diagnostic.text
  IO.eprint report.errors

def readFile (file : String) : IO (Except ReadError ByteArray) := do
  try
    return .ok (← IO.FS.readBinFile file)
  catch error =>
    match error with
    | .noFileOrDirectory .. => return .error .notFound
    | .inappropriateType _ 21 _ => return .error .isDirectory
    | .inappropriateType .. => return .error .notDirectory
    | error => return .error (.other (toString error))

/-- The next line with its line feed, or nothing at the end. -/
partial def readLine (input : IO.FS.Stream) (line : ByteArray) :
    IO ByteArray := do
  let next ← input.read 1
  if next.isEmpty then return line
  else if next.toList = [10] then return line ++ next
  else readLine input (line ++ next)

/-- Answers each block as soon as its blank line is read. -/
partial def converse (listsTokens : Bool) (filter : Filter) (block : String) :
    IO UInt8 := do
  match Session.decodeLines (← readLine (← IO.getStdin) .empty) with
  | .ok line :: _ =>
      let (block, report) := Session.feed listsTokens block line
      print (report.filterLog filter)
      converse listsTokens filter block
  | lines =>
      let report := Session.run listsTokens block lines
      print report
      return report.exitCode

end FuzzyRules.CommandLine

open FuzzyRules.CommandLine in
def main (arguments : List String) : IO UInt32 := do
  match Options.parse arguments with
  | .error halt =>
      print halt.report
      return halt.report.exitCode.toUInt32
  | .ok options =>
      let filter := Filter.choose (← IO.getEnv "RUST_LOG") options.verbosity
      match options.input with
      | none => return (← converse options.listsTokens filter "").toUInt32
      | some file =>
          let report := compileFile options.listsTokens file (← readFile file)
          print (report.filterLog filter)
          return report.exitCode.toUInt32
