import FuzzyRules.CommandLine.Arguments
import FuzzyRules.CommandLine.Report

namespace FuzzyRules.Text

def isBlank (c : Char) : Bool :=
  let code := c.toNat
  (0x9 ≤ code && code ≤ 0xd) || code == 0x20 || code == 0x85 || code == 0xa0 ||
    code == 0x1680 || (0x2000 ≤ code && code ≤ 0x200a) || code == 0x2028 ||
    code == 0x2029 || code == 0x202f || code == 0x205f || code == 0x3000

/-- A line is blank when it shows nothing: every character of it is blank. -/
def isBlankLine (line : String) : Bool :=
  line.toList.all isBlank

end FuzzyRules.Text

namespace FuzzyRules.CommandLine

/-- The lines of a byte stream. A line ends at a line feed, which is removed
with a carriage return before it, or at the end of the stream, if anything
follows the last line feed. -/
def splitLines (bytes : List UInt8) : List (List UInt8) :=
  if _empty : bytes = [] then []
  else
    let line := bytes.takeWhile (· ≠ 10)
    match _ended : bytes.dropWhile (· ≠ 10) with
    | [] => [line]
    | _ :: rest =>
        (if line.getLast? = some 13 then line.dropLast else line) ::
          splitLines rest
termination_by bytes.length
decreasing_by
  have shorter : (bytes.dropWhile (· ≠ 10)).length ≤ bytes.length :=
    (List.dropWhile_sublist _).length_le
  rw [_ended] at shorter
  exact shorter

namespace Session

/-- What a block is answered with; errors are part of the output. -/
def answerBlock (listsTokens : Bool) (block : String) : Report :=
  let answer := Answer.ofSource listsTokens block
  let output := match answer.result with
    | .ok text => text
    | .error error => "Error: " ++ error.message ++ "\n"
  { output := output, log := answer.log }

/-- Takes one line: the block so far is extended, or answered and emptied. -/
def feed (listsTokens : Bool) (block line : String) : String × Report :=
  if !Text.isBlankLine line then (block ++ line ++ "\n", {})
  else if block.isEmpty then (block, {})
  else ("", answerBlock listsTokens block)

/-- The run from a block on over lines, of which one that is not text ends
it. -/
def run (listsTokens : Bool) (block : String) :
    List (Except ReadError String) → Report
  | [] => {}
  | .error error :: _ => .failure "Failed to read input" (some error.message)
  | .ok line :: lines =>
      let (block, report) := feed listsTokens block line
      report.andThen (run listsTokens block lines)

def decodeLines (input : ByteArray) : List (Except ReadError String) :=
  (splitLines input.toList).map fun line => decodeText ⟨line.toArray⟩

def ofInput (listsTokens : Bool) (input : ByteArray) : Report :=
  run listsTokens "" (decodeLines input)

end Session

def Halt.report : Halt → Report
  | help => { output := helpText }
  | version => { output := versionText }
  | usage => { exitCode := 1, errors := "usage" }

/-- `environment` is the log filter that the environment names, if it names
one. -/
def run (arguments : List String) (environment : Option String)
    (readFile : String → Except ReadError ByteArray) (input : ByteArray) :
    Report :=
  match Options.parse arguments with
  | .error halt => halt.report
  | .ok options =>
      let report := match options.input with
        | some file => compileFile options.listsTokens file (readFile file)
        | none => Session.ofInput options.listsTokens input
      report.filterLog (.choose environment options.verbosity)

end FuzzyRules.CommandLine
