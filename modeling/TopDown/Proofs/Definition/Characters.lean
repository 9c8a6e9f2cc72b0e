import TopDown.Definition.Lexeme
import TopDown.Unicode.WhiteSpace

/-!
# Characters of a definition

A character that can be part of a name is neither white space nor one of the marks that a
definition is written with. This follows from the tables of the character classes.
-/

namespace TopDown

namespace Unicode

variable {ranges left right : List (Nat × Nat)} {first last point : Nat}

theorem exists_range_of_inRanges (hpoint : inRanges ranges point = true) :
    ∃ range ∈ ranges, range.1 ≤ point ∧ point ≤ range.2 := by
  induction ranges with
  | nil => cases hpoint
  | cons range rest ih =>
      rw [inRanges] at hpoint
      split at hpoint
      · cases hpoint
      · split at hpoint
        · exact ⟨range, List.mem_cons_self, by omega⟩
        · obtain ⟨other, hother, hbounds⟩ := ih hpoint
          exact ⟨other, List.mem_cons_of_mem range hother, hbounds⟩

/-- Whether a search for the points from `first` to `last` would find one of them. -/
def meetsRanges (first last : Nat) : List (Nat × Nat) → Bool
  | [] => false
  | range :: rest =>
      if last < range.1 then false
      else if range.2 < first then meetsRanges first last rest
      else true

theorem inRanges_eq_false_of_meetsRanges (hmeets : meetsRanges first last ranges = false)
    (hfirst : first ≤ point) (hlast : point ≤ last) : inRanges ranges point = false := by
  induction ranges with
  | nil => rfl
  | cons range rest ih =>
      rw [meetsRanges] at hmeets
      rw [inRanges]
      split at hmeets
      · rw [if_pos (by omega)]
      · split at hmeets
        · rw [ih hmeets, if_neg (show ¬point ≤ range.2 by omega), ite_self]
        · cases hmeets

theorem inRanges_eq_false_of_apart
    (hapart : left.all (fun range => !meetsRanges range.1 range.2 right) = true)
    (hpoint : inRanges left point = true) : inRanges right point = false := by
  obtain ⟨range, hrange, hfirst, hlast⟩ := exists_range_of_inRanges hpoint
  have hmeets := List.all_eq_true.mp hapart range hrange
  rw [Bool.not_eq_true'] at hmeets
  exact inRanges_eq_false_of_meetsRanges hmeets hfirst hlast

theorem isAlphabetic_eq_false_of_isWhiteSpace {char : Char} (hblank : isWhiteSpace char = true) :
    isAlphabetic char = false :=
  inRanges_eq_false_of_apart (by decide +kernel) hblank

theorem isNumeric_eq_false_of_isWhiteSpace {char : Char} (hblank : isWhiteSpace char = true) :
    isNumeric char = false :=
  inRanges_eq_false_of_apart (by decide +kernel) hblank

end Unicode

namespace Definition

theorem isNameChar_eq_false_of_isWhiteSpace {char : Char}
    (hblank : Unicode.isWhiteSpace char = true) : isNameChar char = false := by
  have hunderscore : char ≠ '_' := by
    rintro rfl
    revert hblank
    decide
  simp [isNameChar, Unicode.isAlphabetic_eq_false_of_isWhiteSpace hblank,
    Unicode.isNumeric_eq_false_of_isWhiteSpace hblank, hunderscore]

/-- The marks of the notation: those of comments, and the characters that lexemes other than names
begin with. -/
def marks : List Char :=
  ['#', '~', quoteMark, ':', ';', '|', '!']

theorem isNameChar_eq_false_of_mem_marks : ∀ mark ∈ marks, isNameChar mark = false := by
  have hall : marks.all (fun mark => !isNameChar mark) = true := by decide
  simpa only [List.all_eq_true, Bool.not_eq_true'] using hall

theorem isWhiteSpace_eq_false_of_mem_marks :
    ∀ mark ∈ marks, Unicode.isWhiteSpace mark = false := by
  have hall : marks.all (fun mark => !Unicode.isWhiteSpace mark) = true := by decide
  simpa only [List.all_eq_true, Bool.not_eq_true'] using hall

end Definition

end TopDown
