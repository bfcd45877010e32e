namespace FuzzyRules.CommandLine

structure Options where
  /-- The file to compile; without one, blocks of lines are read from standard
  input. -/
  input : Option String := none
  /-- How often the token listing was asked for. -/
  listings : Nat := 0
  /-- How often more log was asked for, counted in eight bits. -/
  verbosity : UInt8 := 0
  deriving DecidableEq, Repr

/-- Why nothing is compiled. -/
inductive Halt where
  | help
  | version
  | usage
  deriving DecidableEq, Repr

namespace Options

def listsTokens (options : Options) : Bool :=
  options.listings ≠ 0

def addInput (options : Options) (file : String) : Except Halt Options :=
  match options.input with
  | none => .ok { options with input := some file }
  | some _ => .error .usage

def addLetters (options : Options) : List Char → Except Halt Options
  | [] => .ok options
  | 'v' :: letters =>
      addLetters { options with verbosity := options.verbosity + 1 } letters
  | 'h' :: _ => .error .help
  | 'V' :: _ => .error .version
  | _ :: _ => .error .usage

/-- The name that a long flag stands for: what follows its dashes, up to an
equals sign. A value after the sign has no meaning. -/
def flagName (argument : List Char) : String :=
  String.ofList ((argument.dropWhile (· == '-')).takeWhile (· != '='))

def addFlag (options : Options) : String → Except Halt Options
  | "tokens" => .ok { options with listings := options.listings + 1 }
  | "verbose" => .ok { options with verbosity := options.verbosity + 1 }
  | "help" => .error .help
  | "version" => .error .version
  | _ => .error .usage

/-- Reads one argument before `--`. Two dashes or more begin a long flag, and a
single dash alone is the name of a file. -/
def addArgument (options : Options) (argument : String) : Except Halt Options :=
  match argument.toList with
  | '-' :: '-' :: flag => options.addFlag (flagName flag)
  | '-' :: letter :: letters => options.addLetters (letter :: letters)
  | _ => options.addInput argument

/-- Reads arguments after the first `--`, each the name of a file. -/
def addInputs (options : Options) : List String → Except Halt Options
  | [] => .ok options
  | file :: files => do (← options.addInput file).addInputs files

def addAll (options : Options) : List String → Except Halt Options
  | [] => .ok options
  | "--" :: files => options.addInputs files
  | argument :: rest => do (← options.addArgument argument).addAll rest

/-- The options that the arguments stand for. The token listing can be asked for
once. -/
def parse (arguments : List String) : Except Halt Options := do
  let options ← addAll {} arguments
  if options.listings ≤ 1 then return options else .error .usage

end Options

def versionText : String :=
  "fbdlc 0.1.0\n"

def helpText : String :=
  versionText ++
    "Compiles FBDL universes and rulebases into FRI initialization calls\n\n" ++
    "USAGE:\n" ++
    "    fbdlc [FLAGS] [input]\n\n" ++
    "FLAGS:\n" ++
    "    -h, --help       Prints help information\n" ++
    "        --tokens     Print the scanned tokens instead of compiling\n" ++
    "    -V, --version    Prints version information\n" ++
    "    -v, --verbose    Log more (-v info, -vv debug, -vvv trace). " ++
    "RUST_LOG takes precedence\n\n" ++
    "ARGS:\n" ++
    "    <input>    FBDL source file. " ++
    "Starts an interactive session when omitted\n"

end FuzzyRules.CommandLine
