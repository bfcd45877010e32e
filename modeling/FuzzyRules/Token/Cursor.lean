import FuzzyRules.Diagnostic

namespace FuzzyRules

/-- The tokens still to be read and how many were passed. A cursor may be moved
past the end, where only empty tokens are read. -/
structure Cursor where
  rest : List Token
  position : Nat
  deriving DecidableEq, Repr

namespace Cursor

def start (tokens : List Token) : Cursor :=
  ⟨tokens, 0⟩

def isAtEnd (cursor : Cursor) : Bool :=
  cursor.rest.isEmpty

def peekNth (cursor : Cursor) (n : Nat) : Token :=
  cursor.rest.getD n .empty

def peek (cursor : Cursor) : Token :=
  cursor.peekNth 0

def advance (cursor : Cursor) (n : Nat) : Cursor :=
  ⟨cursor.rest.drop n, cursor.position + n⟩

@[simp] theorem advance_rest (cursor : Cursor) (n : Nat) :
    (cursor.advance n).rest = cursor.rest.drop n := rfl

@[simp] theorem advance_position (cursor : Cursor) (n : Nat) :
    (cursor.advance n).position = cursor.position + n := rfl

@[simp] theorem advance_advance (cursor : Cursor) (m n : Nat) :
    (cursor.advance m).advance n = cursor.advance (m + n) := by
  simp [advance, Nat.add_assoc]

/-- Every step forward from a cursor that is not at the end leaves less to
read. -/
theorem rest_length_advance_lt {cursor : Cursor}
    (inside : cursor.isAtEnd = false) {n : Nat} (forward : 0 < n) :
    (cursor.advance n).rest.length < cursor.rest.length := by
  cases h : cursor.rest with
  | nil => simp [isAtEnd, h] at inside
  | cons token rest => simp [h]; omega

theorem isAtEnd_of_peek_ne_empty {cursor : Cursor}
    (h : cursor.peek.kind ≠ .empty) : cursor.isAtEnd = false := by
  cases hrest : cursor.rest with
  | nil => simp [peek, peekNth, hrest, Token.empty] at h
  | cons token rest => simp [isAtEnd, hrest]

theorem peekNth_of_rest {cursor : Cursor} {tokens : List Token}
    (rest : cursor.rest = tokens) (n : Nat) :
    cursor.peekNth n = tokens.getD n .empty := by
  rw [peekNth, rest]

theorem peek_of_rest {cursor : Cursor} {token : Token} {tokens : List Token}
    (rest : cursor.rest = token :: tokens) : cursor.peek = token :=
  peekNth_of_rest rest 0

theorem isAtEnd_of_rest {cursor : Cursor} {token : Token} {tokens : List Token}
    (rest : cursor.rest = token :: tokens) : cursor.isAtEnd = false := by
  rw [isAtEnd, rest]
  rfl

end Cursor

structure Reading (α : Type) where
  value : α
  cursor : Cursor
  diagnostics : List Diagnostic

/-- Nothing, if the token at the cursor has the expected value; otherwise the
note that another is passed over. -/
def Cursor.mismatch (cursor : Cursor) (expected : String) : List Diagnostic :=
  if cursor.peek.value = expected then []
  else [.unexpectedToken cursor.position expected cursor.peek]

end FuzzyRules
