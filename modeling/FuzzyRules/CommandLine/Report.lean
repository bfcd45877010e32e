import FuzzyRules.CommandLine.Filter
import FuzzyRules.Compilation

namespace FuzzyRules.CommandLine

structure Report where
  exitCode : UInt8 := 0
  output : String := ""
  errors : String := ""
  log : List Diagnostic := []

namespace Report

/-- One run after another; the last one decides on the exit code. -/
def andThen (first second : Report) : Report :=
  { exitCode := second.exitCode
    output := first.output ++ second.output
    errors := first.errors ++ second.errors
    log := first.log ++ second.log }

def filterLog (report : Report) (filter : Filter) : Report :=
  { report with log := report.log.filter filter.passes }

/-- A run that ends on an error, with its cause, if one is known, in indented
lines. -/
def failure (headline : String) (cause : Option String) : Report :=
  { exitCode := 1
    errors := "Error: " ++ headline ++ "\n" ++
      match cause with
      | none => ""
      | some cause =>
          "\nCaused by:\n    " ++
            "\n    ".intercalate (cause.splitOn "\n") ++ "\n" }

end Report

/-- What a source comes to, its token listing or its script, and the diagnostics
on the way. -/
structure Answer where
  result : Except SourceError String
  log : List Diagnostic := []

def Answer.ofTokens (listsTokens : Bool) (tokens : List Token) : Answer :=
  if listsTokens then { result := .ok (Token.listing tokens) }
  else
    let compilation := compile tokens
    { result := (compilation.result.mapError .compile).map Script.text
      log := compilation.diagnostics }

def Answer.ofSource (listsTokens : Bool) (source : String) : Answer :=
  match Token.scan source with
  | .error error => { result := .error (.scan error) }
  | .ok tokens => Answer.ofTokens listsTokens tokens

inductive ReadError where
  | notFound
  | isDirectory
  | notDirectory
  | notText
  | other (message : String)
  deriving DecidableEq, Repr

def ReadError.message : ReadError → String
  | notFound => "No such file or directory (os error 2)"
  | isDirectory => "Is a directory (os error 21)"
  | notDirectory => "Not a directory (os error 20)"
  | notText => "stream did not contain valid UTF-8"
  | other message => message

def decodeText (bytes : ByteArray) : Except ReadError String :=
  match String.fromUTF8? bytes with
  | none => .error .notText
  | some text => .ok text

def compileFile (listsTokens : Bool) (file : String)
    (content : Except ReadError ByteArray) : Report :=
  match content.bind decodeText with
  | .error error => .failure ("Failed to read " ++ file) (some error.message)
  | .ok source =>
      let answer := Answer.ofSource listsTokens source
      match answer.result with
      | .ok text => { output := text, log := answer.log }
      | .error error =>
          { Report.failure error.headline error.cause with log := answer.log }

end FuzzyRules.CommandLine
