import TopDown.Proofs.Definition.EarliestError
import TopDown.Proofs.Definition.LexicalFormat
import TopDown.Proofs.Definition.Places

/-!
# The first fault

A fault is a place where neither a gap nor a lexeme begins. The main statement says that a text is
refused exactly if it has a fault behind a text that is accepted and does not end in a comment, and
that this fault is reported.
-/

namespace TopDown.Definition

/-- Neither a gap nor a lexeme begins with the character, in front of the rest. -/
structure IsInvalid (char : Char) (rest : List Char) : Prop where
  not_blank : Unicode.isWhiteSpace char = false
  not_name : isNameChar char = false
  not_mark : char ∉ [quoteMark, ':', ';', '|', '!', '#']
  not_block : ¬(char = '~' ∧ rest.head? = some '#')

/-- Behind an opening quote the line ends, or the text, before there is another quote. -/
def IsUnclosed (rest : List Char) : Prop :=
  quoteMark ∉ rest.takeWhile (· ≠ '\n')

/-- The text begins with the fault that the error reports. -/
inductive BeginsWithFault : List Char → Error → Prop
  | invalidCharacter {char : Char} {rest : List Char} {location : Location}
      (hinvalid : IsInvalid char rest) :
      BeginsWithFault (char :: rest) (.invalidCharacter char location)
  | unclosedTerminal {rest : List Char} {start : Location} (hunclosed : IsUnclosed rest) :
      BeginsWithFault (quoteMark :: rest) (.unclosedTerminal start)

variable {char : Char} {text rest front gap comment : List Char} {error : Error}
  {previous : Option TokenKind} {lexeme : Lexeme} {lexemes others : List Lexeme}

theorem splitGap_cons_eq_nil_iff :
    splitGap .blank (char :: rest) = ([], char :: rest) ↔
      Unicode.isWhiteSpace char = false ∧ char ≠ '#' ∧ ¬(char = '~' ∧ rest.head? = some '#') := by
  constructor
  · intro hsplit
    refine ⟨?_, ?_, ?_⟩
    · rw [Bool.eq_false_iff]
      intro hblank
      rw [splitGap_blank hblank] at hsplit
      cases hsplit
    · rintro rfl
      rw [splitGap.eq_3] at hsplit
      cases hsplit
    · rintro ⟨rfl, hrest⟩
      obtain ⟨others, rfl⟩ := List.head?_eq_some_iff.mp hrest
      rw [splitGap.eq_2] at hsplit
      cases hsplit
  · rintro ⟨hblank, hhash, hblock⟩
    have hopen : ∀ others, char = '~' → rest = '#' :: others → False := by
      rintro others hchar rfl
      exact hblock ⟨hchar, rfl⟩
    rw [splitGap.eq_4 _ _ hopen hhash, if_neg (by simp [hblank])]

theorem isUnclosed_iff :
    IsUnclosed rest ↔ (rest.dropWhile isQuotable).head? ≠ some quoteMark := by
  rw [IsUnclosed, not_iff_not]
  induction rest with
  | nil => simp
  | cons char rest ih =>
      rw [List.takeWhile_cons, List.dropWhile_cons]
      by_cases hbreak : char = '\n'
      · subst hbreak
        rw [if_neg (by decide), if_neg (by decide), List.head?_cons]
        exact iff_of_false List.not_mem_nil (by decide)
      · rw [if_pos (by simpa using hbreak), List.mem_cons]
        by_cases hquote : char = quoteMark
        · rw [if_neg (by simp [isQuotable, hquote]), hquote]
          exact iff_of_true (.inl rfl) rfl
        · rw [if_pos (by simp [isQuotable, hquote, hbreak]), ← ih]
          exact or_iff_right (Ne.symm hquote)

theorem ofMark?_eq_none_iff :
    Lexeme.ofMark? char = none ↔ char ∉ [':', ';', '|', '!'] := by
  unfold Lexeme.ofMark?
  grind

theorem IsInvalid.read_eq (hinvalid : IsInvalid char rest) :
    Lexeme.read (char :: rest) = (.error (.invalidCharacter char), char :: rest) := by
  have hmark := hinvalid.not_mark
  simp only [List.mem_cons, not_or] at hmark
  have hnone : Lexeme.ofMark? char = none := by
    rw [ofMark?_eq_none_iff]
    simp [hmark]
  rw [Lexeme.read, if_neg (by simp [hinvalid.not_name]), if_neg hmark.1, hnone]

theorem IsUnclosed.read_eq (hunclosed : IsUnclosed rest) :
    Lexeme.read (quoteMark :: rest) =
      (.error (.unclosedTerminal (rest.takeWhile isQuotable)), rest.dropWhile isQuotable) := by
  have hname := isNameChar_eq_false_of_mem_marks quoteMark (by decide)
  rw [Lexeme.read, if_neg (by simp [hname]), if_pos rfl,
    Lexeme.readTerminal_of_no_quote (isUnclosed_iff.mp hunclosed)]

/-- The faults are what a text begins with if it begins with no gap and no lexeme can be read. -/
theorem beginsWithFault_iff :
    BeginsWithFault text error ↔
      splitGap .blank text = ([], text) ∧
        ∃ fault remaining location, Lexeme.read text = (.error fault, remaining) ∧
          error = fault.error location := by
  constructor
  · intro hfault
    cases hfault with
    | invalidCharacter hinvalid =>
        refine ⟨splitGap_cons_eq_nil_iff.mpr ⟨hinvalid.not_blank, ?_, hinvalid.not_block⟩,
          _, _, _, hinvalid.read_eq, rfl⟩
        rintro rfl
        exact hinvalid.not_mark (by decide)
    | unclosedTerminal hunclosed =>
        refine ⟨splitGap_eq_nil (isWhiteSpace_eq_false_of_mem_marks _ (by decide)) (by decide)
          (by decide), _, _, _, hunclosed.read_eq, rfl⟩
  · rintro ⟨hsplit, fault, remaining, location, hread, rfl⟩
    cases text with
    | nil => cases hread
    | cons char rest =>
        obtain ⟨hblank, hhash, hblock⟩ := splitGap_cons_eq_nil_iff.mp hsplit
        rw [Lexeme.read] at hread
        split at hread
        · cases hread
        · rename_i hname
          split at hread
          · rename_i hquote
            subst hquote
            by_cases hclosed : (rest.dropWhile isQuotable).head? = some quoteMark
            · rw [Lexeme.readTerminal_of_quote hclosed] at hread
              cases hread
            · rw [Lexeme.readTerminal_of_no_quote hclosed] at hread
              cases hread
              exact .unclosedTerminal (isUnclosed_iff.mpr hclosed)
          · rename_i hquote
            split at hread
            · cases hread
            · rename_i hnone
              cases hread
              have hmark := ofMark?_eq_none_iff.mp hnone
              exact .invalidCharacter ⟨hblank, by simpa using hname, by simp_all, hblock⟩

theorem BeginsWithFault.beginsName_eq_false (hfault : BeginsWithFault text error) :
    beginsName text = false := by
  cases hfault with
  | invalidCharacter hinvalid => exact hinvalid.not_name
  | unclosedTerminal _ => exact beginsName_of_mem_marks (by decide)

theorem BeginsWithFault.beginsName_append (hfault : BeginsWithFault rest error) (hgap : IsGap gap) :
    beginsName (gap ++ rest) = false := by
  by_cases hempty : gap = []
  · rw [hempty]
    exact hfault.beginsName_eq_false
  · exact hgap.beginsName_append hempty

theorem BeginsWithFault.scanAll_eq (hfault : BeginsWithFault rest error) (hgap : IsGap gap)
    {location : Location} (hlocation : error.location = location.past gap) :
    (Cursor.mk location (gap ++ rest)).scanAll = .fault error := by
  obtain ⟨hsplit, fault, remaining, start, hread, rfl⟩ := beginsWithFault_iff.mp hfault
  rw [LexicalFault.location_error] at hlocation
  have hskip : (Cursor.mk location (gap ++ rest)).skipGap =
      { location := start, ahead := rest } := by
    rw [Cursor.skipGap, hgap.splitGap_append, hsplit, extendGap, List.append_nil, hlocation]
    rfl
  have hscan : (Cursor.mk location (gap ++ rest)).scan =
      (.error (fault.error start), ⟨start.past fault.passed, remaining⟩) := by
    rw [Cursor.scan_eq_error_iff, hskip]
    exact ⟨fault, hread, rfl, rfl⟩
  exact Cursor.scanAll_of_error hscan

/-! ### What lies in front of a fault

Lexemes with gaps between them lead to a place of a text. Cut off at that place the text is
accepted, and it does not end in a comment. -/

/-- The text is made of the lexemes with gaps in front of them, behind a lexeme of the kind
`previous`. -/
inductive Leads : Option TokenKind → List Lexeme → List Char → Prop
  | nil {previous : Option TokenKind} : Leads previous [] []
  | next {previous : Option TokenKind} {gap rest : List Char} {lexeme : Lexeme}
      {lexemes : List Lexeme} (hgap : IsGap gap)
      (hapart : previous = some .nonterminal → lexeme.kind = .nonterminal → gap ≠ [])
      (hlexeme : lexeme.WellFormed) (hrest : Leads (some lexeme.kind) lexemes rest) :
      Leads previous (lexeme :: lexemes) (gap ++ (lexeme.source ++ rest))

/-- Behind its last lexeme the text comes to a comment that is not closed. -/
def EndsInComment (text : List Char) : Prop :=
  ∃ lexemes front gap comment, text = front ++ (gap ++ comment) ∧ Leads none lexemes front ∧
    IsGap gap ∧ IsOpenComment comment

theorem Leads.spells (hleads : Leads previous lexemes front) (hgap : IsLastGap gap) :
    Spells previous lexemes (front ++ gap) := by
  induction hleads with
  | nil => exact .last hgap
  | next hbefore hapart hlexeme _ ih =>
      rw [List.append_assoc, List.append_assoc]
      exact .next hbefore hapart hlexeme ih

theorem Spells.exists_leads (hspells : Spells previous lexemes text) :
    ∃ front gap, text = front ++ gap ∧ Leads previous lexemes front ∧ IsLastGap gap := by
  induction hspells with
  | last hgap => exact ⟨[], _, rfl, .nil, hgap⟩
  | next hbefore hapart hlexeme _ ih =>
      obtain ⟨front, gap, rfl, hleads, hgap⟩ := ih
      refine ⟨_, gap, ?_, .next hbefore hapart hlexeme hleads, hgap⟩
      rw [List.append_assoc, List.append_assoc]

/-- Behind any lexeme a mark can come, after any gap. -/
theorem Leads.snoc (hleads : Leads previous lexemes front) (hgap : IsGap gap)
    (hlexeme : lexeme.WellFormed) (hkind : lexeme.kind ≠ .nonterminal) :
    Leads previous (lexemes ++ [lexeme]) (front ++ (gap ++ lexeme.source)) := by
  induction hleads with
  | @nil previous =>
      have hnext : Leads previous [lexeme] (gap ++ (lexeme.source ++ [])) :=
        .next hgap (fun _ hname => absurd hname hkind) hlexeme .nil
      rw [List.append_nil] at hnext
      exact hnext
  | next hbefore hapart hother _ ih =>
      rw [List.append_assoc, List.append_assoc, List.cons_append]
      exact .next hbefore hapart hother ih

theorem IsOpenComment.concat (hcomment : IsOpenComment comment) (hbreak : char ≠ '\n')
    (hclose : char ≠ '~') : IsOpenComment (comment ++ [char]) := by
  cases hcomment with
  | @line comment hcomment =>
      have hline : '\n' ∉ comment ++ [char] := by
        rw [List.mem_append, List.mem_singleton]
        exact not_or_intro hcomment (Ne.symm hbreak)
      exact .line hline
  | block hcomment =>
      refine .block fun hinfix => ?_
      rcases List.infix_concat_iff.mp hinfix with hsuffix | hinfix
      · have hlast := hsuffix.getLast (by simp)
        rw [List.getLast_concat] at hlast
        exact hclose hlast.symm
      · exact hcomment hinfix

theorem Spells.unique (hspells : Spells none lexemes text) (hothers : Spells none others text) :
    lexemes = others := by
  rw [← String.toList_ofList (l := text)] at hspells hothers
  obtain ⟨tokens, htokens, hlexemes⟩ := exists_tokenize_of_spells hspells
  obtain ⟨tokens', htokens', hlexemes'⟩ := exists_tokenize_of_spells hothers
  cases htokens.symm.trans htokens'
  rw [hlexemes, List.append_left_inj] at hlexemes'
  exact hlexemes'

/-- A comment that is open would take up a mark that a lexeme is read from. -/
theorem Leads.not_endsInComment (hleads : Leads none lexemes front) (hgap : IsGap gap) :
    ¬EndsInComment (front ++ gap) := by
  rintro ⟨others, before, opening, comment, htext, hothers, hopening, hcomment⟩
  have hspells := hothers.spells (.unclosed hopening hcomment)
  rw [← htext] at hspells
  obtain rfl := (hleads.spells (.closed hgap)).unique hspells
  have hmarked := (hleads.snoc hgap (show Lexeme.semicolon.WellFormed from trivial)
    (by decide)).spells (.closed .nil)
  have hcommented : IsOpenComment (comment ++ [';']) := hcomment.concat (by decide) (by decide)
  have hspells := hothers.spells (.unclosed hopening hcommented)
  have hsame : before ++ (opening ++ (comment ++ [';'])) =
      front ++ (gap ++ Lexeme.semicolon.source) ++ [] := by
    have happended := congrArg (· ++ [';']) htext
    simpa [Lexeme.source] using happended.symm
  rw [hsame] at hspells
  have hlength := congrArg List.length (hmarked.unique hspells)
  simp at hlength

theorem Leads.beginsName_append (hleads : Leads (some .nonterminal) lexemes front)
    (hrest : beginsName rest = false) : beginsName (front ++ rest) = false := by
  cases hleads with
  | nil => exact hrest
  | @next _ gap others lexeme _ hgap hapart hlexeme _ =>
      rw [List.append_assoc, List.append_assoc]
      by_cases hempty : gap = []
      · have hkind : lexeme.kind ≠ .nonterminal := fun hkind => hapart rfl hkind hempty
        rw [hempty, List.nil_append, hlexeme.beginsName_source, decide_eq_false hkind]
      · exact hgap.beginsName_append hempty

/-- Whatever error comes behind the lexemes ends the scan of the text. -/
theorem Leads.result_eq_error_iff (hleads : Leads previous lexemes front)
    (hrest : beginsName rest = false) (location : Location) :
    (Cursor.mk location (front ++ rest)).scanAll.result = .error error ↔
      (Cursor.mk (location.past front) rest).scanAll.result = .error error := by
  induction hleads generalizing location with
  | nil => rfl
  | @next _ gap others lexeme _ hgap _ hlexeme hleads ih =>
      have hbehind : lexeme.kind = .nonterminal → beginsName (others ++ rest) = false :=
        fun hkind => (hkind ▸ hleads).beginsName_append hrest
      obtain ⟨token, hscan, -, hend⟩ := Cursor.exists_scan_of_gap hgap hlexeme hbehind location
      rw [List.append_assoc, List.append_assoc, Cursor.scanAll_of_ok hscan hend,
        Scanned.result_next_eq_error_iff, ih, ← Location.past_append, List.append_assoc]

/-- A scan that ends with an error has come to a fault behind the lexemes that it has read. -/
theorem Cursor.exists_leads_of_error {cursor : Cursor}
    (hresult : cursor.scanAll.result = .error error)
    (hapart : previous = some .nonterminal → beginsName cursor.ahead = false) :
    ∃ lexemes front gap rest, cursor.ahead = front ++ (gap ++ rest) ∧
      Leads previous lexemes front ∧ IsGap gap ∧ BeginsWithFault rest error ∧
      error.location = cursor.location.past (front ++ gap) := by
  fun_induction Cursor.scanAll cursor generalizing previous with
  | case1 cursor error' next hscan =>
      cases hresult
      obtain ⟨fault, hread, rfl, _⟩ := scan_eq_error_iff.mp hscan
      refine ⟨[], [], _, cursor.skipGap.ahead, cursor.append_ahead_skipGap.symm, .nil, ?_,
        beginsWithFault_iff.mpr ⟨splitGap_splitGap .blank cursor.ahead, _, _, _, hread, rfl⟩,
        LexicalFault.location_error _ _⟩
      rcases takesGap_splitGap cursor.ahead with hgap | ⟨_, hnil⟩
      · exact hgap
      -- the end of the text is no fault
      · rw [ahead_skipGap, hnil] at hread
        cases hread
  | case2 cursor token next hscan hend => cases hresult
  | case3 cursor token next hscan hend ih =>
      obtain ⟨gap, hahead, hlocation, hgap, hapart, hlexeme, hbehind⟩ :=
        exists_gap_of_scan hscan hend hapart
      obtain ⟨lexemes, front, gap', rest, hnext, hleads, hgap', hfault, herror⟩ :=
        ih (Scanned.result_next_eq_error_iff.mp hresult) hbehind
      refine ⟨token.lexeme :: lexemes, gap ++ (token.lexeme.source ++ front), gap', rest, ?_,
        .next hgap hapart hlexeme hleads, hgap', hfault, ?_⟩
      · rw [hahead, hnext]
        simp only [List.append_assoc]
      · rw [herror, hlocation, ← Location.past_append]
        simp only [List.append_assoc]

/-- A text is refused exactly if it is split in front of a fault, behind a text that is accepted and
does not end in a comment; and the error names this fault and the end of that text. -/
theorem tokenize_eq_error_iff (text : String) (error : Error) :
    tokenize text = .error error ↔
      ∃ before rest : String, text = before ++ rest ∧ error.location.IsBehind before ∧
        (∃ tokens, tokenize before = .ok tokens) ∧ ¬EndsInComment before.toList ∧
        BeginsWithFault rest.toList error := by
  rw [tokenize_eq_result, scanned]
  constructor
  · intro hresult
    have hapart : none = some TokenKind.nonterminal → beginsName text.toList = false := by simp
    obtain ⟨lexemes, front, gap, rest, htext, hleads, hgap, hfault, hlocation⟩ :=
      Cursor.exists_leads_of_error hresult hapart
    have hspells := hleads.spells (.closed hgap)
    have hcomment := hleads.not_endsInComment hgap
    rw [← String.toList_ofList (l := front ++ gap)] at hspells hcomment hlocation
    rw [← String.toList_ofList (l := rest)] at hfault
    obtain ⟨tokens, htokens, _⟩ := exists_tokenize_of_spells hspells
    refine ⟨_, _, ?_, Location.isBehind_iff.mpr hlocation, ⟨tokens, htokens⟩, hcomment, hfault⟩
    rw [← String.ofList_append, List.append_assoc, ← htext]
    exact String.ofList_toList.symm
  · rintro ⟨before, rest, rfl, hlocation, ⟨tokens, htokens⟩, hcomment, hfault⟩
    obtain ⟨lexemes, _, hspells⟩ := exists_spells_of_tokenize htokens
    obtain ⟨front, gap, hbefore, hleads, hgap⟩ := hspells.exists_leads
    rw [Location.isBehind_iff, hbefore] at hlocation
    rw [Cursor.ofText, String.toList_append, hbefore, List.append_assoc]
    cases hgap with
    | closed hgap =>
        rw [Location.past_append] at hlocation
        rw [hleads.result_eq_error_iff (hfault.beginsName_append hgap),
          hfault.scanAll_eq hgap hlocation, Scanned.result]
    | unclosed hgap hopen =>
        exact absurd ⟨lexemes, front, _, _, hbefore, hleads, hgap, hopen⟩ hcomment

/-- In front of a comment that is not closed a quote would be no fault. -/
example : (tokenize "a # 'b").toOption.map (List.map Token.kind) =
    some [.nonterminal, .endOfText] := by
  decide +kernel

end TopDown.Definition
