import TopDown.Definition.Error
import TopDown.Definition.Gap
import TopDown.Definition.Lexeme

/-!
# Cursors

A cursor moves through the text of a definition and reads one token at a time. It also moves when no
token can be read: it then stands where the reading stopped. The main statement says that every
token but the end of the text shortens what lies ahead.
-/

namespace TopDown.Definition

/-- A location and the text that lies ahead of it. -/
structure Cursor where
  location : Location
  ahead : List Char
deriving DecidableEq, Repr

namespace Cursor

def ofText (text : List Char) : Cursor :=
  { location := .start, ahead := text }

/-- Moves over the characters of `passed` to where `rest` lies ahead. -/
def move (cursor : Cursor) (passed rest : List Char) : Cursor :=
  { location := cursor.location.past passed, ahead := rest }

/-- Moves over the gap that lies ahead. -/
def skipGap (cursor : Cursor) : Cursor :=
  let split := splitGap .blank cursor.ahead
  cursor.move split.1 split.2

/-- Reads the token that comes after the gap ahead. A fault moves the cursor over the characters
that were read before it was noticed. -/
def scan (cursor : Cursor) : Except Error Token × Cursor :=
  let start := cursor.skipGap
  match Lexeme.read start.ahead with
  | (.ok lexeme, rest) =>
      (.ok { lexeme := lexeme, location := start.location }, start.move lexeme.source rest)
  | (.error (.invalidCharacter char), rest) =>
      (.error (.invalidCharacter char start.location), start.move [] rest)
  | (.error (.unclosedTerminal name), rest) =>
      (.error (.unclosedTerminal start.location),
        start.move (LexicalFault.unclosedTerminal name).passed rest)

theorem length_skipGap_le (cursor : Cursor) :
    cursor.skipGap.ahead.length ≤ cursor.ahead.length := by
  have hlength := congrArg List.length (splitGap_append .blank cursor.ahead)
  simp only [List.length_append] at hlength
  simp only [skipGap, move]
  omega

theorem length_scan_lt {cursor next : Cursor} {token : Token}
    (hscan : cursor.scan = (.ok token, next)) (hend : token.lexeme ≠ .endOfText) :
    next.ahead.length < cursor.ahead.length := by
  have hgap := cursor.length_skipGap_le
  unfold scan at hscan
  dsimp only at hscan
  split at hscan
  · rename_i lexeme rest hread
    cases hscan
    have hsource := List.length_pos_iff.mpr (Lexeme.source_ne_nil_of_read hread hend)
    have hlength := congrArg List.length (Lexeme.read_ok hread)
    simp only [List.length_append] at hlength
    simp only [move]
    omega
  all_goals simp at hscan

end Cursor

end TopDown.Definition
