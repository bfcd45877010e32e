import FuzzyRules.Token.Scan

namespace FuzzyRules

inductive CompileError where
  | duplicateRulebase (name : String)
  deriving DecidableEq, Repr

def CompileError.message : CompileError → String
  | duplicateRulebase name =>
      "duplicate rulebase name " ++ Text.quote name ++ ", aborting generation"

inductive SourceError where
  | scan (error : ScanError)
  | compile (error : CompileError)
  deriving DecidableEq, Repr

namespace SourceError

def headline : SourceError → String
  | scan _ => "Failed to scan input"
  | compile error => error.message

/-- What led to it, where the headline does not tell. -/
def cause : SourceError → Option String
  | scan error => some error.detail
  | compile _ => none

def message (error : SourceError) : String :=
  match error.cause with
  | none => error.headline
  | some cause => error.headline ++ ": " ++ cause

end SourceError

end FuzzyRules
