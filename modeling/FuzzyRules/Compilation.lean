import FuzzyRules.Rulebase.Read
import FuzzyRules.Script.Basic
import FuzzyRules.Universe.Read

namespace FuzzyRules

/-! Blocks are compiled as their keywords are met; tokens between blocks are
passed over. -/

/-- How far a compilation has come: what is left to read, the names declared,
the lines written and the diagnostics raised. -/
structure Progress where
  cursor : Cursor
  scope : Scope := {}
  lines : Array Script.Line := #[]
  diagnostics : Array Diagnostic := #[]

namespace Progress

def compileUniverse (progress : Progress) : Progress :=
  let reading := Universe.read progress.scope progress.cursor
  let u := reading.value
  { cursor := reading.cursor
    scope := progress.scope.declare u.name u.elements
    lines := progress.lines ++ u.lines
    diagnostics := progress.diagnostics ++ reading.diagnostics }

def compileRulebase (progress : Progress) : Except CompileError Progress :=
  (Rulebase.read progress.scope progress.cursor).map fun (scope, reading) =>
    let rulebase := reading.value
    { cursor := reading.cursor
      scope := scope
      lines := progress.lines ++ rulebase.lines scope
      diagnostics :=
        progress.diagnostics ++
          (reading.diagnostics ++ rulebase.unresolved scope) }

/-- Compiles the block at the cursor, or passes over one token. -/
def step (progress : Progress) : Except CompileError Progress :=
  if progress.cursor.peek.isKeyword "universe" then .ok progress.compileUniverse
  else if progress.cursor.peek.isKeyword "rulebase" then
    progress.compileRulebase
  else .ok { progress with cursor := progress.cursor.advance 1 }

theorem exists_cursor_of_step {progress next : Progress}
    (h : progress.step = .ok next) :
    ∃ n, next.cursor = progress.cursor.advance (1 + n) := by
  rw [step] at h
  split at h
  · obtain ⟨n, hn⟩ := Universe.exists_read_cursor progress.scope progress.cursor
    cases h
    exact ⟨2 + n, hn.trans (by congr 1; omega)⟩
  · split at h
    · rw [compileRulebase] at h
      cases hread : Rulebase.read progress.scope progress.cursor with
      | error error => simp [hread, Except.map] at h
      | ok block =>
          obtain ⟨n, hn⟩ := Rulebase.exists_cursor_of_read hread
          simp only [hread, Except.map, Except.ok.injEq] at h
          subst h
          exact ⟨2 + n, hn.trans (by congr 1; omega)⟩
    · cases h
      exact ⟨0, rfl⟩

theorem rest_length_lt_of_step {progress next : Progress}
    (inside : progress.cursor.isAtEnd = false) (h : progress.step = .ok next) :
    next.cursor.rest.length < progress.cursor.rest.length := by
  obtain ⟨n, hn⟩ := exists_cursor_of_step h
  rw [hn]
  exact Cursor.rest_length_advance_lt inside (by omega)

structure Failure where
  error : CompileError
  progress : Progress

def run (progress : Progress) : Except Failure Progress :=
  if _atEnd : progress.cursor.isAtEnd then .ok progress
  else
    match _step : progress.step with
    | .error error => .error ⟨error, progress⟩
    | .ok next => next.run
termination_by progress.cursor.rest.length
decreasing_by exact rest_length_lt_of_step (by simpa using _atEnd) _step

def start (tokens : List Token) : Progress :=
  { cursor := .start tokens
    diagnostics :=
      #[.compiling tokens.length (Token.countKeyword tokens "universe")
        (Token.countKeyword tokens "rulebase")] }

end Progress

/-- A script or the reason why there is none, and all diagnostics in the order
of their causes. -/
structure Compilation where
  result : Except CompileError Script
  diagnostics : List Diagnostic

/-- The script announces as many blocks as there are block keywords, read as
blocks or not. -/
def compile (tokens : List Token) : Compilation :=
  match (Progress.start tokens).run with
  | .error failure =>
      { result := .error failure.error
        diagnostics :=
          failure.progress.diagnostics.toList ++ [.failure failure.error] }
  | .ok finish =>
      { result := .ok (Script.program (Token.countKeyword tokens "universe")
          (Token.countKeyword tokens "rulebase") finish.lines.toList)
        diagnostics := finish.diagnostics.toList }

def compileSource (source : String) : Except SourceError String := do
  let tokens ← (Token.scan source).mapError .scan
  let script ← (compile tokens).result.mapError .compile
  return script.text

end FuzzyRules
