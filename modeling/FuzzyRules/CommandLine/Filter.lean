import FuzzyRules.Diagnostic

namespace FuzzyRules.CommandLine

structure Filter where
  limit : Option Level
  deriving DecidableEq, Repr

namespace Filter

def ofVerbosity (verbosity : UInt8) : Filter :=
  if verbosity = 0 then ⟨some .warn⟩
  else if verbosity = 1 then ⟨some .info⟩
  else if verbosity = 2 then ⟨some .debug⟩
  else ⟨some .trace⟩

/-- The filter with a given name, in letters of either case. -/
def ofName? (name : String) : Option Filter :=
  match name.toLower with
  | "off" => some ⟨none⟩
  | "error" => some ⟨some .error⟩
  | "warn" => some ⟨some .warn⟩
  | "info" => some ⟨some .info⟩
  | "debug" => some ⟨some .debug⟩
  | "trace" => some ⟨some .trace⟩
  | _ => none

/-- The filter that the environment names, or else the one that the arguments
ask for. -/
def choose (environment : Option String) (verbosity : UInt8) : Filter :=
  (environment.bind ofName?).getD (ofVerbosity verbosity)

def passes (filter : Filter) (diagnostic : Diagnostic) : Bool :=
  match filter.limit with
  | none => false
  | some limit => diagnostic.level.detail ≤ limit.detail

end Filter

end FuzzyRules.CommandLine
