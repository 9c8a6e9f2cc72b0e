import TopDown.Definition.Token
import TopDown.Unicode.Alphabetic
import TopDown.Unicode.Numeric

/-!
# Reading a lexeme

The lexeme at the front of a text that does not begin with a gap. The main statement says that the
characters of a lexeme and the text behind it make up the text that was read.
-/

namespace TopDown.Definition

/-- The characters of the names of nonterminals. -/
def isNameChar (char : Char) : Bool :=
  Unicode.isAlphabetic char || Unicode.isNumeric char || char = '_'

/-- The characters that can stand between the quotes of a terminal. -/
def isQuotable (char : Char) : Bool :=
  char ≠ quoteMark && char ≠ '\n'

/-- Why no lexeme can be read. -/
inductive LexicalFault where
  | invalidCharacter (char : Char)
  | unclosedTerminal (name : List Char)
deriving DecidableEq, Repr

namespace LexicalFault

/-- The characters that are passed over before a fault is noticed. -/
def passed : LexicalFault → List Char
  | .invalidCharacter _ => []
  | .unclosedTerminal name => quoteMark :: name

end LexicalFault

namespace Lexeme

/-- The lexemes of a single character. -/
def ofMark? (char : Char) : Option Lexeme :=
  if char = ':' then some .colon
  else if char = ';' then some .semicolon
  else if char = '|' then some .pipe
  else if char = '!' then some .empty
  else none

/-- Reads a terminal behind its opening quote. -/
def readTerminal (text : List Char) : Except LexicalFault Lexeme × List Char :=
  let name := text.takeWhile isQuotable
  match text.dropWhile isQuotable with
  | '\x27' :: rest => (.ok (.terminal (String.ofList name)), rest)
  | rest => (.error (.unclosedTerminal name), rest)

/-- Reads the longest lexeme that a text begins with, and gives the text behind what was read. -/
def read : List Char → Except LexicalFault Lexeme × List Char
  | [] => (.ok .endOfText, [])
  | char :: rest =>
      if isNameChar char then
        (.ok (.nonterminal (String.ofList ((char :: rest).takeWhile isNameChar))),
          (char :: rest).dropWhile isNameChar)
      else if char = quoteMark then readTerminal rest
      else
        match ofMark? char with
        | some lexeme => (.ok lexeme, rest)
        | none => (.error (.invalidCharacter char), char :: rest)

theorem source_of_ofMark? {char : Char} {lexeme : Lexeme} (hmark : ofMark? char = some lexeme) :
    lexeme.source = [char] := by
  grind [ofMark?, source]

theorem readTerminal_ok {text rest : List Char} {lexeme : Lexeme}
    (hread : readTerminal text = (.ok lexeme, rest)) :
    lexeme.source ++ rest = quoteMark :: text := by
  unfold readTerminal at hread
  split at hread
  · rename_i after hafter
    cases hread
    have := List.takeWhile_append_dropWhile (p := isQuotable) (l := text)
    simp only [source, String.toList_ofList, List.cons_append, List.append_assoc, List.nil_append,
      List.cons.injEq, true_and]
    rw [← hafter, this]
  · simp at hread

theorem readTerminal_error {text rest : List Char} {fault : LexicalFault}
    (hread : readTerminal text = (.error fault, rest)) :
    fault.passed ++ rest = quoteMark :: text := by
  unfold readTerminal at hread
  split at hread
  · simp at hread
  · cases hread
    simp [LexicalFault.passed]

theorem read_ok {text rest : List Char} {lexeme : Lexeme}
    (hread : read text = (.ok lexeme, rest)) : lexeme.source ++ rest = text := by
  cases text with
  | nil =>
      cases hread
      rfl
  | cons char tail =>
      simp only [read] at hread
      split at hread
      · cases hread
        simp [source]
      · split at hread
        · rw [readTerminal_ok hread]
          simp_all
        · split at hread
          · rename_i hmark
            cases hread
            simp [source_of_ofMark? hmark]
          · simp at hread

theorem read_error {text rest : List Char} {fault : LexicalFault}
    (hread : read text = (.error fault, rest)) : fault.passed ++ rest = text := by
  cases text with
  | nil => simp [read] at hread
  | cons char tail =>
      simp only [read] at hread
      split at hread
      · simp at hread
      · split at hread
        · rw [readTerminal_error hread]
          simp_all
        · split at hread
          · simp at hread
          · cases hread
            simp [LexicalFault.passed]

/-- Only the end of the text is written with no character. -/
theorem source_ne_nil_of_read {text rest : List Char} {lexeme : Lexeme}
    (hread : read text = (.ok lexeme, rest)) (hend : lexeme ≠ .endOfText) :
    lexeme.source ≠ [] := by
  cases text with
  | nil =>
      cases hread
      exact absurd rfl hend
  | cons char tail =>
      simp only [read] at hread
      split at hread
      · rename_i hname
        cases hread
        simp [source, hname]
      · split at hread
        · unfold readTerminal at hread
          split at hread
          · cases hread
            simp [source]
          · simp at hread
        · split at hread
          · rename_i hmark
            cases hread
            simp [source_of_ofMark? hmark]
          · simp at hread

end Lexeme

end TopDown.Definition
