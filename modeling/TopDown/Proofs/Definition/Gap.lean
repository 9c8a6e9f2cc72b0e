import TopDown.Definition.Gap
import TopDown.Proofs.Definition.Characters

/-!
# What gaps are made of

A gap is a sequence of white space and comments; the last gap of a text may end in a comment that is
not closed. The main statements say that splitting a text takes off exactly such a gap.
-/

namespace TopDown.Definition

/-- What closes a block comment. -/
abbrev blockEnd : List Char := ['#', '~']

/-- White space, line comments with the line breaks behind them, and block comments. A block comment
ends where it is closed first. -/
inductive IsGap : List Char → Prop
  | nil : IsGap []
  | blank {char : Char} {gap : List Char} (hblank : Unicode.isWhiteSpace char = true)
      (hgap : IsGap gap) : IsGap (char :: gap)
  | lineComment {comment gap : List Char} (hcomment : '\n' ∉ comment) (hgap : IsGap gap) :
      IsGap ('#' :: (comment ++ '\n' :: gap))
  | blockComment {comment gap : List Char} (hcomment : ¬blockEnd <:+: comment)
      (hgap : IsGap gap) : IsGap ('~' :: '#' :: (comment ++ '#' :: '~' :: gap))

/-- A comment that is not closed before the text ends. -/
inductive IsOpenComment : List Char → Prop
  | line {comment : List Char} (hcomment : '\n' ∉ comment) : IsOpenComment ('#' :: comment)
  | block {comment : List Char} (hcomment : ¬blockEnd <:+: comment) :
      IsOpenComment ('~' :: '#' :: comment)

/-- A gap in front of the end of the text. -/
inductive IsLastGap : List Char → Prop
  | closed {gap : List Char} (hgap : IsGap gap) : IsLastGap gap
  | unclosed {gap comment : List Char} (hgap : IsGap gap) (hcomment : IsOpenComment comment) :
      IsLastGap (gap ++ comment)

variable {text gap comment rest : List Char} {char : Char}

theorem not_blockEnd_infix_cons :
    ¬blockEnd <:+: char :: text ↔
      (∀ rest, char = '#' → text = '~' :: rest → False) ∧ ¬blockEnd <:+: text := by
  rw [List.infix_cons_iff, not_or, blockEnd, List.cons_prefix_cons]
  constructor
  · rintro ⟨hstart, htext⟩
    refine ⟨fun rest hchar hrest => hstart ⟨hchar.symm, ?_⟩, htext⟩
    rw [hrest]
    exact ⟨rest, rfl⟩
  · rintro ⟨hstart, htext⟩
    refine ⟨?_, htext⟩
    rintro ⟨hchar, rest, hrest⟩
    exact hstart rest hchar.symm hrest.symm

theorem splitGap_blank (hblank : Unicode.isWhiteSpace char = true) :
    splitGap .blank (char :: text) = extendGap [char] (splitGap .blank text) := by
  have hmark : char ∉ marks := fun hmem => by
    rw [isWhiteSpace_eq_false_of_mem_marks char hmem] at hblank
    cases hblank
  have htilde : char ≠ '~' := fun heq => hmark (heq ▸ by decide)
  have hhash : char ≠ '#' := fun heq => hmark (heq ▸ by decide)
  rw [splitGap.eq_4 _ _ (fun _ heq _ => htilde heq) hhash, if_pos hblank]

/-- Nothing is taken off a text that does not begin with a gap. -/
theorem splitGap_eq_nil (hblank : Unicode.isWhiteSpace char = false) (hhash : char ≠ '#')
    (htilde : char ≠ '~') : splitGap .blank (char :: text) = ([], char :: text) := by
  rw [splitGap.eq_4 _ _ (fun _ heq _ => htilde heq) hhash, if_neg (by simp [hblank])]

theorem splitGap_lineComment (hcomment : '\n' ∉ comment) :
    splitGap .lineComment (comment ++ '\n' :: text) =
      extendGap (comment ++ ['\n']) (splitGap .blank text) := by
  induction comment with
  | nil => exact splitGap.eq_5 text
  | cons char comment ih =>
      rw [List.mem_cons, not_or] at hcomment
      rw [List.cons_append, splitGap.eq_6 _ _ (fun heq => hcomment.1 heq.symm), ih hcomment.2,
        extendGap_extendGap]
      rfl

theorem splitGap_blockComment (hcomment : ¬blockEnd <:+: comment) :
    splitGap .blockComment (comment ++ '#' :: '~' :: text) =
      extendGap (comment ++ blockEnd) (splitGap .blank text) := by
  induction comment with
  | nil => exact splitGap.eq_7 text
  | cons char comment ih =>
      obtain ⟨hstart, hrest⟩ := not_blockEnd_infix_cons.mp hcomment
      have hopen : ∀ rest, char = '#' → comment ++ '#' :: '~' :: text = '~' :: rest → False := by
        intro rest hchar hnext
        cases comment with
        | nil => simp at hnext
        | cons next comment =>
            rw [List.cons_append, List.cons.injEq] at hnext
            exact hstart comment hchar (by rw [hnext.1])
      rw [List.cons_append, splitGap.eq_8 _ _ hopen, ih hrest, extendGap_extendGap]
      rfl

theorem splitGap_openBlockComment (hcomment : ¬blockEnd <:+: comment) :
    splitGap .blockComment comment = (comment, []) := by
  induction comment with
  | nil => rfl
  | cons char comment ih =>
      obtain ⟨hstart, hrest⟩ := not_blockEnd_infix_cons.mp hcomment
      rw [splitGap.eq_8 _ _ hstart, ih hrest]
      rfl

theorem IsGap.splitGap_append (hgap : IsGap gap) :
    splitGap .blank (gap ++ text) = extendGap gap (splitGap .blank text) := by
  induction hgap with
  | nil => rfl
  | blank hblank _ ih =>
      rw [List.cons_append, splitGap_blank hblank, ih, extendGap_extendGap]
      rfl
  | lineComment hcomment _ ih =>
      rw [List.cons_append, List.append_assoc, List.cons_append, splitGap.eq_3,
        splitGap_lineComment hcomment, ih, extendGap_extendGap, extendGap_extendGap]
      simp
  | blockComment hcomment _ ih =>
      rw [List.cons_append, List.cons_append, List.append_assoc, List.cons_append,
        List.cons_append, splitGap.eq_2, splitGap_blockComment hcomment, ih, extendGap_extendGap,
        extendGap_extendGap]
      simp

theorem IsOpenComment.splitGap_eq (hcomment : IsOpenComment comment) :
    splitGap .blank comment = (comment, []) := by
  cases hcomment with
  | line hcomment =>
      rw [splitGap.eq_3, splitGap_openLineComment hcomment]
      rfl
  | block hcomment =>
      rw [splitGap.eq_2, splitGap_openBlockComment hcomment]
      rfl

theorem IsLastGap.splitGap_eq (hgap : IsLastGap gap) : splitGap .blank gap = (gap, []) := by
  cases hgap with
  | closed hgap =>
      rw [← List.append_nil gap, hgap.splitGap_append, splitGap.eq_1, extendGap]
  | unclosed hgap hcomment => rw [hgap.splitGap_append, hcomment.splitGap_eq, extendGap]

/-! ### Splitting any text

Whatever a text begins with, what is taken off is a gap, or the last gap of the text if nothing is
left. The induction goes through the text in the way that it is split. -/

/-- A text without an end of a block comment, or one split where the first such end stands. -/
theorem not_blockEnd_or_split (text : List Char) :
    ¬blockEnd <:+: text ∨
      ∃ before after, text = before ++ '#' :: '~' :: after ∧ ¬blockEnd <:+: before := by
  induction text with
  | nil => exact .inl (by simp)
  | cons char text ih =>
      by_cases hstart : ∃ after, char = '#' ∧ text = '~' :: after
      · obtain ⟨after, rfl, rfl⟩ := hstart
        exact .inr ⟨[], after, rfl, by simp⟩
      · have hopen : ∀ rest, char = '#' → text = '~' :: rest → False :=
          fun rest hchar htext => hstart ⟨rest, hchar, htext⟩
        rcases ih with hnone | ⟨before, after, rfl, hbefore⟩
        · exact .inl (not_blockEnd_infix_cons.mpr ⟨hopen, hnone⟩)
        · refine .inr ⟨char :: before, after, rfl, not_blockEnd_infix_cons.mpr ⟨?_, hbefore⟩⟩
          rintro rest hchar rfl
          exact hopen _ hchar rfl

theorem splitGap_eq_extend_blank (ahead : List Char) :
    splitGap .blank ahead = extendGap (ahead.takeWhile Unicode.isWhiteSpace)
      (splitGap .blank (ahead.dropWhile Unicode.isWhiteSpace)) := by
  induction ahead with
  | nil => rfl
  | cons char rest ih =>
      rw [List.takeWhile_cons, List.dropWhile_cons]
      by_cases hblank : Unicode.isWhiteSpace char = true
      · rw [if_pos hblank, if_pos hblank, splitGap_blank hblank, ih, extendGap_extendGap]
        rfl
      · rw [if_neg hblank, if_neg hblank]
        rfl

/-- If no comment begins behind white space, the gap ends there. -/
theorem splitGap_dropWhile (ahead : List Char)
    (hblock : ¬['~', '#'] <+: ahead.dropWhile Unicode.isWhiteSpace)
    (hline : ¬['#'] <+: ahead.dropWhile Unicode.isWhiteSpace) :
    splitGap .blank (ahead.dropWhile Unicode.isWhiteSpace) =
      ([], ahead.dropWhile Unicode.isWhiteSpace) := by
  induction ahead with
  | nil => rfl
  | cons char rest ih =>
      rw [List.dropWhile_cons] at hblock hline ⊢
      by_cases hblank : Unicode.isWhiteSpace char = true
      · rw [if_pos hblank] at hblock hline ⊢
        exact ih hblock hline
      · rw [if_neg hblank] at hblock hline ⊢
        rw [splitGap.eq_4, if_neg hblank]
        · rintro inner rfl rfl
          exact hblock (List.prefix_append ['~', '#'] inner)
        · rintro rfl
          exact hline (List.prefix_append ['#'] rest)

/-- Behind a line comment the gap goes on with the end of the line. -/
theorem splitGap_eq_extend_lineComment (ahead : List Char) :
    splitGap .lineComment ahead = extendGap (ahead.takeWhile (· ≠ '\n'))
      (splitGap .blank (ahead.dropWhile (· ≠ '\n'))) := by
  induction ahead with
  | nil => rfl
  | cons char rest ih =>
      rw [List.takeWhile_cons, List.dropWhile_cons]
      by_cases hend : char = '\n'
      · subst hend
        exact (splitGap_blank (by decide)).symm
      · have hline : decide (char ≠ '\n') = true := by simpa using hend
        rw [if_pos hline, if_pos hline, splitGap.eq_6 _ _ hend, ih, extendGap_extendGap]
        rfl

/-- Behind a gap there is no other one. -/
theorem splitGap_splitGap (mode : GapMode) (text : List Char) :
    splitGap .blank (splitGap mode text).2 = ([], (splitGap mode text).2) := by
  fun_induction splitGap mode text with
  | case1 => rfl
  | case5 char rest hopen hline hblank => rw [splitGap.eq_4 _ _ hopen hline, if_neg hblank]
  | _ => assumption

theorem IsGap.append {left right : List Char} (hleft : IsGap left) (hright : IsGap right) :
    IsGap (left ++ right) := by
  induction hleft with
  | nil => exact hright
  | blank hblank _ ih => exact .blank hblank ih
  | lineComment hcomment _ ih =>
      rw [List.cons_append, List.append_assoc]
      exact .lineComment hcomment ih
  | blockComment hcomment _ ih =>
      rw [List.cons_append, List.cons_append, List.append_assoc]
      exact .blockComment hcomment ih

theorem IsLastGap.append {left right : List Char} (hleft : IsGap left) (hright : IsLastGap right) :
    IsLastGap (left ++ right) := by
  cases hright with
  | closed hright => exact .closed (hleft.append hright)
  | unclosed hright hcomment =>
      rw [← List.append_assoc]
      exact .unclosed (hleft.append hright) hcomment

/-- The first part is a gap, and one that can only be the last if nothing is left. -/
def TakesGap (split : List Char × List Char) : Prop :=
  IsGap split.1 ∨ IsLastGap split.1 ∧ split.2 = []

theorem TakesGap.extend {split : List Char × List Char} (hgap : IsGap gap)
    (hsplit : TakesGap split) : TakesGap (extendGap gap split) := by
  rcases hsplit with hclosed | ⟨hlast, hrest⟩
  · exact .inl (hgap.append hclosed)
  · exact .inr ⟨hlast.append hgap, hrest⟩

theorem takesGap_openComment (hcomment : IsOpenComment comment) : TakesGap (comment, []) :=
  .inr ⟨.unclosed .nil hcomment, rfl⟩

/-- What is taken off a text is a gap. -/
theorem takesGap_splitGap (text : List Char) : TakesGap (splitGap .blank text) := by
  -- a block comment, a line comment, white space, or no gap at all
  by_cases hblock : ∃ rest, text = '~' :: '#' :: rest
  · obtain ⟨text, rfl⟩ := hblock
    rcases not_blockEnd_or_split text with hopen | ⟨comment, rest, rfl, hcomment⟩
    · rw [(IsOpenComment.block hopen).splitGap_eq]
      exact takesGap_openComment (.block hopen)
    · rw [splitGap.eq_2, splitGap_blockComment hcomment, extendGap_extendGap]
      exact (takesGap_splitGap rest).extend (.blockComment hcomment .nil)
  by_cases hline : ∃ rest, text = '#' :: rest
  · obtain ⟨text, rfl⟩ := hline
    by_cases hend : '\n' ∈ text
    · obtain ⟨comment, rest, rfl, hcomment⟩ := List.eq_append_cons_of_mem hend
      rw [splitGap.eq_3, splitGap_lineComment hcomment, extendGap_extendGap]
      exact (takesGap_splitGap rest).extend (.lineComment hcomment .nil)
    · rw [(IsOpenComment.line hend).splitGap_eq]
      exact takesGap_openComment (.line hend)
  cases text with
  | nil => exact .inl .nil
  | cons char text =>
      by_cases hblank : Unicode.isWhiteSpace char = true
      · rw [splitGap_blank hblank]
        exact (takesGap_splitGap text).extend (.blank hblank .nil)
      · rw [splitGap.eq_4 _ _ (fun rest hchar htext => hblock ⟨rest, by rw [hchar, htext]⟩)
          (fun hchar => hline ⟨text, by rw [hchar]⟩), if_neg hblank]
        exact .inl .nil
termination_by text.length

end TopDown.Definition
