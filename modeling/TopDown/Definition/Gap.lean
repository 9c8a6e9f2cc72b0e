import TopDown.Unicode.WhiteSpace

/-!
# Gaps

The text between two tokens: white space, line comments from `#` to the end of the line, and block
comments from `~#` to `#~`. The main statement says that splitting a text behind its gap loses
nothing.
-/

namespace TopDown.Definition

/-- What the characters of a gap are read as. -/
inductive GapMode where
  | blank
  | lineComment
  | blockComment
deriving DecidableEq, Repr

/-- Puts a run of characters in front of a gap. -/
def extendGap (run : List Char) (split : List Char × List Char) : List Char × List Char :=
  (run ++ split.1, split.2)

theorem extendGap_extendGap (first second : List Char) (split : List Char × List Char) :
    extendGap first (extendGap second split) = extendGap (first ++ second) split := by
  simp [extendGap]

/-- Splits a text into the gap that it begins with and what follows. The two marks of a block
comment do not share a character, and a comment that is not closed runs to the end of the text. -/
def splitGap : GapMode → List Char → List Char × List Char
  | _, [] => ([], [])
  | .blank, '~' :: '#' :: rest => extendGap ['~', '#'] (splitGap .blockComment rest)
  | .blank, '#' :: rest => extendGap ['#'] (splitGap .lineComment rest)
  | .blank, char :: rest =>
      if Unicode.isWhiteSpace char then extendGap [char] (splitGap .blank rest)
      else ([], char :: rest)
  | .lineComment, '\n' :: rest => extendGap ['\n'] (splitGap .blank rest)
  | .lineComment, char :: rest => extendGap [char] (splitGap .lineComment rest)
  | .blockComment, '#' :: '~' :: rest => extendGap ['#', '~'] (splitGap .blank rest)
  | .blockComment, char :: rest => extendGap [char] (splitGap .blockComment rest)

theorem splitGap_append (mode : GapMode) (text : List Char) :
    (splitGap mode text).1 ++ (splitGap mode text).2 = text := by
  fun_induction splitGap mode text <;> simp_all [extendGap]

theorem splitGap_openLineComment {comment : List Char} (hcomment : '\n' ∉ comment) :
    splitGap .lineComment comment = (comment, []) := by
  induction comment with
  | nil => rfl
  | cons char comment ih =>
      rw [List.mem_cons, not_or] at hcomment
      rw [splitGap.eq_6 _ _ (fun heq => hcomment.1 heq.symm), ih hcomment.2]
      rfl

end TopDown.Definition
