import Mathlib.Logic.ExistsUnique
import TopDown.Proofs.Definition.Gap
import TopDown.Proofs.Definition.Lexeme
import TopDown.Proofs.Definition.Tokens

/-!
# The lexical format

A text in the lexical format is made of the sources of lexemes with gaps before, between and behind
them. The main statement says that the tokens of a text are the lexemes that it spells, so a text
spells no two sequences of lexemes.
-/

namespace TopDown.Definition

/-- The text spells the lexemes behind a lexeme of the kind `previous`. Only between two names the
gap cannot be empty. -/
inductive Spells : Option TokenKind → List Lexeme → List Char → Prop
  | last {previous : Option TokenKind} {gap : List Char} (hgap : IsLastGap gap) :
      Spells previous [] gap
  | next {previous : Option TokenKind} {gap rest : List Char} {lexeme : Lexeme}
      {lexemes : List Lexeme} (hgap : IsGap gap)
      (hapart : previous = some .nonterminal → lexeme.kind = .nonterminal → gap ≠ [])
      (hlexeme : lexeme.WellFormed) (hrest : Spells (some lexeme.kind) lexemes rest) :
      Spells previous (lexeme :: lexemes) (gap ++ (lexeme.source ++ rest))

variable {previous : Option TokenKind} {gap text rest : List Char} {lexeme : Lexeme}
  {lexemes : List Lexeme}

theorem beginsName_of_mem_marks {char : Char} (hmark : char ∈ marks) :
    beginsName (char :: text) = false :=
  isNameChar_eq_false_of_mem_marks char hmark

theorem IsGap.beginsName_append (hgap : IsGap gap) (hne : gap ≠ []) :
    beginsName (gap ++ text) = false := by
  cases hgap with
  | nil => exact absurd rfl hne
  | blank hblank _ => exact isNameChar_eq_false_of_isWhiteSpace hblank
  | lineComment _ _ => exact beginsName_of_mem_marks (by decide)
  | blockComment _ _ => exact beginsName_of_mem_marks (by decide)

theorem IsOpenComment.beginsName_eq_false {comment : List Char} (hcomment : IsOpenComment comment) :
    beginsName comment = false := by
  cases hcomment with
  | line _ => exact beginsName_of_mem_marks (by decide)
  | block _ => exact beginsName_of_mem_marks (by decide)

theorem IsLastGap.beginsName_eq_false (hgap : IsLastGap gap) : beginsName gap = false := by
  cases hgap with
  | closed hgap =>
      cases gap with
      | nil => rfl
      | cons char gap =>
          rw [← List.append_nil (char :: gap)]
          exact hgap.beginsName_append (by simp)
  | @unclosed gap comment hgap hcomment =>
      cases gap with
      | nil => exact hcomment.beginsName_eq_false
      | cons char gap => exact hgap.beginsName_append (by simp)

theorem Lexeme.WellFormed.beginsName_source (hlexeme : lexeme.WellFormed) :
    beginsName (lexeme.source ++ text) = decide (lexeme.kind = .nonterminal) := by
  cases lexeme with
  | nonterminal name =>
      obtain ⟨char, rest, hcons⟩ := List.exists_cons_of_ne_nil hlexeme.1
      rw [source, hcons]
      exact hlexeme.2 char (by simp [hcons])
  | endOfText => exact hlexeme.elim
  | _ => exact beginsName_of_mem_marks (by decide)

/-- No gap begins with the source of a lexeme. -/
theorem Lexeme.WellFormed.splitGap_source (hlexeme : lexeme.WellFormed) :
    splitGap .blank (lexeme.source ++ text) = ([], lexeme.source ++ text) := by
  cases lexeme with
  | nonterminal name =>
      obtain ⟨char, rest, hcons⟩ := List.exists_cons_of_ne_nil hlexeme.1
      have hchar : isNameChar char = true := hlexeme.2 char (by simp [hcons])
      have hmark : char ∉ marks := fun hmem => by
        rw [isNameChar_eq_false_of_mem_marks char hmem] at hchar
        cases hchar
      have hblank : Unicode.isWhiteSpace char = false := by
        rw [Bool.eq_false_iff]
        intro hblank
        rw [isNameChar_eq_false_of_isWhiteSpace hblank] at hchar
        cases hchar
      rw [source, hcons]
      exact splitGap_eq_nil hblank (fun heq => hmark (heq ▸ by decide))
        (fun heq => hmark (heq ▸ by decide))
  | endOfText => exact hlexeme.elim
  | _ =>
      exact splitGap_eq_nil (isWhiteSpace_eq_false_of_mem_marks _ (by decide)) (by decide)
        (by decide)

theorem Spells.beginsName_eq_false (hspells : Spells (some .nonterminal) lexemes text) :
    beginsName text = false := by
  cases hspells with
  | last hgap => exact hgap.beginsName_eq_false
  | @next _ gap rest lexeme _ hgap hapart hlexeme _ =>
      by_cases hempty : gap = []
      · have hkind : lexeme.kind ≠ .nonterminal := fun hkind => hapart rfl hkind hempty
        rw [hempty, List.nil_append, hlexeme.beginsName_source, decide_eq_false hkind]
      · exact hgap.beginsName_append hempty

theorem Cursor.ahead_skipGap (cursor : Cursor) :
    cursor.skipGap.ahead = (splitGap .blank cursor.ahead).2 := rfl

theorem Cursor.append_ahead_skipGap (cursor : Cursor) :
    (splitGap .blank cursor.ahead).1 ++ cursor.skipGap.ahead = cursor.ahead :=
  splitGap_append .blank cursor.ahead

section Steps

variable {cursor next : Cursor} {token : Token}

/-- A scan takes a gap and a well-formed lexeme off what lies ahead. -/
theorem Cursor.exists_gap_of_scan (hscan : cursor.scan = (.ok token, next))
    (hend : token.lexeme ≠ .endOfText)
    (hapart : previous = some .nonterminal → beginsName cursor.ahead = false) :
    ∃ gap, cursor.ahead = gap ++ (token.lexeme.source ++ next.ahead) ∧
      next.location = cursor.location.past (gap ++ token.lexeme.source) ∧ IsGap gap ∧
      (previous = some .nonterminal → token.lexeme.kind = .nonterminal → gap ≠ []) ∧
      token.lexeme.WellFormed ∧
      (some token.lexeme.kind = some .nonterminal → beginsName next.ahead = false) := by
  obtain ⟨hread, _, hlocation⟩ := scan_eq_ok_iff.mp hscan
  have hsource := Lexeme.read_ok hread
  have hne := Lexeme.source_ne_nil_of_read hread hend
  obtain ⟨hlexeme, hbehind⟩ := Lexeme.wellFormed_of_read hread hend
  have hahead := cursor.append_ahead_skipGap
  rw [← hsource] at hahead
  refine ⟨_, hahead.symm, ?_, ?_, fun hprevious hkind hempty => ?_, hlexeme,
    fun hkind => hbehind (Option.some.inj hkind)⟩
  · rw [hlocation, Location.past_append]
    rfl
  · rcases takesGap_splitGap cursor.ahead with hgap | ⟨_, hrest⟩
    · exact hgap
    -- an open comment would leave nothing to read the lexeme from
    · rw [← cursor.ahead_skipGap, ← hsource] at hrest
      exact absurd (List.append_eq_nil_iff.mp hrest).1 hne
  · have hname := hapart hprevious
    rw [← hahead, hempty, List.nil_append, hlexeme.beginsName_source,
      decide_eq_true hkind] at hname
    cases hname

/-- A well-formed lexeme is scanned behind a gap, when no name goes on behind it. -/
theorem Cursor.exists_scan_of_gap (hgap : IsGap gap) (hlexeme : lexeme.WellFormed)
    (hrest : lexeme.kind = .nonterminal → beginsName rest = false) (location : Location) :
    ∃ token, (Cursor.mk location (gap ++ (lexeme.source ++ rest))).scan =
        (.ok token, { location := location.past (gap ++ lexeme.source), ahead := rest }) ∧
      token.lexeme = lexeme ∧ token.lexeme ≠ .endOfText := by
  have hsplit : splitGap .blank (gap ++ (lexeme.source ++ rest)) =
      (gap, lexeme.source ++ rest) := by
    rw [hgap.splitGap_append, hlexeme.splitGap_source, extendGap, List.append_nil]
  refine ⟨{ lexeme := lexeme, location := location.past gap }, scan_eq_ok_iff.mpr ?_, rfl, ?_⟩
  · rw [skipGap, hsplit]
    exact ⟨Lexeme.read_source_append hlexeme hrest, rfl, Location.past_append _ _ _⟩
  · rintro rfl
    exact hlexeme

end Steps

theorem Cursor.Scans.spells {cursor : Cursor} {tokens : List Token} (hscans : cursor.Scans tokens)
    (hapart : previous = some .nonterminal → beginsName cursor.ahead = false) :
    ∃ lexemes, tokens.map Token.lexeme = lexemes ++ [.endOfText] ∧
      Spells previous lexemes cursor.ahead := by
  -- the lexeme in front decides whether the first gap can be empty, so it varies with the cursor
  induction hscans generalizing previous with
  | @last cursor next token hscan hend =>
      have hread := (scan_eq_ok_iff.mp hscan).1
      rw [hend] at hread
      have hahead := Lexeme.eq_nil_of_read_endOfText hread
      refine ⟨[], by rw [List.map_singleton, hend, List.nil_append], ?_⟩
      rw [← cursor.append_ahead_skipGap, hahead, List.append_nil]
      rcases takesGap_splitGap cursor.ahead with hgap | ⟨hgap, _⟩
      · exact .last (.closed hgap)
      · exact .last hgap
  | @next cursor next token tokens hscan hend _ ih =>
      obtain ⟨gap, hahead, _, hgap, hapart, hlexeme, hbehind⟩ :=
        exists_gap_of_scan hscan hend hapart
      obtain ⟨lexemes, hlexemes, hspells⟩ := ih hbehind
      refine ⟨token.lexeme :: lexemes, by rw [List.map_cons, hlexemes, List.cons_append], ?_⟩
      rw [hahead]
      exact .next hgap hapart hlexeme hspells

theorem Spells.exists_scans (hspells : Spells previous lexemes text) (location : Location) :
    ∃ tokens, (Cursor.mk location text).Scans tokens ∧
      tokens.map Token.lexeme = lexemes ++ [.endOfText] := by
  induction hspells generalizing location with
  | @last previous gap hgap =>
      have hread : Lexeme.read (Cursor.mk location gap).skipGap.ahead = (.ok .endOfText, []) := by
        rw [Cursor.ahead_skipGap, hgap.splitGap_eq]
        rfl
      obtain ⟨token, after, hscan, hend⟩ := Cursor.exists_scan_of_read hread
      exact ⟨[token], .last hscan hend, by rw [List.map_singleton, hend, List.nil_append]⟩
  | @next previous gap rest lexeme lexemes hgap _ hlexeme hrest ih =>
      have hbehind : lexeme.kind = .nonterminal → beginsName rest = false := fun hkind =>
        (hkind ▸ hrest).beginsName_eq_false
      obtain ⟨token, hscan, rfl, hend⟩ := Cursor.exists_scan_of_gap hgap hlexeme hbehind location
      obtain ⟨tokens, hscans, hlexemes⟩ := ih _
      exact ⟨token :: tokens, .next hscan hend hscans,
        by rw [List.map_cons, hlexemes, List.cons_append]⟩

variable {source : String}

theorem exists_spells_of_tokenize {tokens : List Token} (htokens : tokenize source = .ok tokens) :
    ∃ lexemes, tokens.map Token.lexeme = lexemes ++ [.endOfText] ∧
      Spells none lexemes source.toList :=
  (tokenize_eq_ok_iff_scans.mp htokens).spells fun hnone => nomatch hnone

theorem exists_tokenize_of_spells (hspells : Spells none lexemes source.toList) :
    ∃ tokens, tokenize source = .ok tokens ∧
      tokens.map Token.lexeme = lexemes ++ [.endOfText] := by
  obtain ⟨tokens, hscans, hlexemes⟩ := hspells.exists_scans .start
  exact ⟨tokens, tokenize_eq_ok_iff_scans.mpr hscans, hlexemes⟩

/-- The tokens of a text are the lexemes that it spells, and the end of the text. So a text is
accepted if it spells lexemes, and then it spells no others. -/
theorem tokenize_iff_spells (text : String) :
    (∀ lexemes, (∃ tokens, tokenize text = .ok tokens ∧
        tokens.map Token.lexeme = lexemes ++ [.endOfText]) ↔ Spells none lexemes text.toList) ∧
      ((∃ tokens, tokenize text = .ok tokens) ↔ ∃! lexemes, Spells none lexemes text.toList) := by
  refine ⟨fun lexemes => ⟨?_, exists_tokenize_of_spells⟩, ?_, ?_⟩
  · rintro ⟨tokens, htokens, hlexemes⟩
    obtain ⟨others, hothers, hspells⟩ := exists_spells_of_tokenize htokens
    rw [hlexemes, List.append_left_inj] at hothers
    rw [hothers]
    exact hspells
  · rintro ⟨tokens, htokens⟩
    obtain ⟨lexemes, hlexemes, hspells⟩ := exists_spells_of_tokenize htokens
    refine ⟨lexemes, hspells, fun others hothers => ?_⟩
    obtain ⟨tokens', htokens', hlexemes'⟩ := exists_tokenize_of_spells hothers
    cases htokens.symm.trans htokens'
    rw [hlexemes, List.append_left_inj] at hlexemes'
    exact hlexemes'.symm
  · rintro ⟨lexemes, hspells, _⟩
    obtain ⟨tokens, htokens, _⟩ := exists_tokenize_of_spells hspells
    exact ⟨tokens, htokens⟩

/-- The `#` that opens a block comment does not close it. -/
example : (tokenize "~#~ : #~").toOption.map (List.map Token.kind) = some [.endOfText] := by
  decide +kernel

end TopDown.Definition
