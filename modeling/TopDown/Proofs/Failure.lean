import TopDown.Proofs.Completeness
import TopDown.Proofs.Kinds

/-!
# Where parsing fails

A parser fails at the first token that no sentence has there. It may have expanded rules before that
only on account of what follows a nonterminal elsewhere, but it has passed no token too many.
-/

namespace TopDown

variable {τ : Type} [InputToken τ]

namespace Grammar

/-- The lookahead can come next: a sentence begins with the kinds and the lookahead, or the kinds
are a sentence and the input ends. -/
def Continues (grammar : Grammar) (kinds : List Lookahead) : Lookahead → Prop
  | .endOfInput => grammar.IsSentence kinds
  | .terminal name => ∃ later, grammar.IsSentence (kinds ++ .terminal name :: later)

variable {grammar : Grammar} {kinds : List Lookahead} {seen : Lookahead}

theorem continues_iff :
    grammar.Continues kinds seen ↔
      ∃ word : List String, grammar.IsSentence (kinds ++ word.map .terminal) ∧
        firstLookahead word = seen := by
  cases seen with
  | endOfInput =>
      constructor
      · intro hsentence
        refine ⟨[], ?_, rfl⟩
        rw [List.map_nil, List.append_nil]
        exact hsentence
      · rintro ⟨word, hsentence, hfirst⟩
        cases word with
        | nil =>
            rw [List.map_nil, List.append_nil] at hsentence
            exact hsentence
        | cons name word => cases hfirst
  | terminal name =>
      constructor
      · rintro ⟨later, hsentence⟩
        obtain ⟨start, word, hstart, hkinds, hderives⟩ := hsentence
        obtain ⟨front, back, hword, hfront, hback⟩ := List.append_eq_map_iff.mp hkinds
        obtain ⟨name', rest, rfl, hname, hrest⟩ := List.map_eq_cons_iff.mp hback
        refine ⟨name' :: rest, ⟨start, word, hstart, ?_, hderives⟩, hname⟩
        rw [hback]
        exact hkinds
      · rintro ⟨word, hsentence, hfirst⟩
        cases word with
        | nil => cases hfirst
        | cons name' word =>
            obtain rfl := Lookahead.terminal.inj hfirst
            exact ⟨_, hsentence⟩

end Grammar

namespace Analysis.Describes

variable {grammar : Grammar} {analysis : Analysis} (hdescribes : analysis.Describes grammar)
  {symbol : NumberedSymbol} {seen : Lookahead} {expected : List Lookahead}

include hdescribes

theorem not_mem_of_refuses (huses : analysis.numbering.Uses symbol)
    (hrefuses : analysis.Refuses seen symbol expected) : seen ∉ expected := by
  cases hrefuses with
  | terminal hseen => exact fun hmem => hseen (List.mem_singleton.mp hmem)
  | nonterminal hselect =>
      intro hmem
      obtain ⟨rule, hrule, hlhs, hpredicts⟩ := (hdescribes.mem_predictAny huses).mp hmem
      exact hdescribes.select_ne_none huses rule hrule hlhs hpredicts hselect

/-- A symbol that refuses a lookahead expects all that can be seen at its front. -/
theorem mem_of_refuses (huses : analysis.numbering.Uses symbol)
    (hrefuses : analysis.Refuses seen symbol expected) {later : List Symbol}
    {behind : Lookahead → Prop}
    (hfits : grammar.Fits (analysis.numbering.decode symbol :: later) behind) {other : Lookahead}
    (hshows : grammar.Shows behind other (analysis.numbering.decode symbol :: later)) :
    other ∈ expected := by
  cases hrefuses with
  | @terminal id _ =>
      obtain ⟨name, hlookahead, hdecode⟩ := Numbering.exists_terminal huses
      rw [hdecode] at hshows
      cases hshows with
      | terminal hother => rw [hother, hlookahead, List.mem_singleton]
  | @nonterminal id _ =>
      rw [hdescribes.mem_predictAny huses]
      generalize hname : analysis.numbering.decode (.nonterminal id) = name at hshows hfits
      cases hshows with
      | terminal => cases hname
      | @expand rule rest hrule hinner =>
          obtain ⟨origin, horigin, rfl⟩ := hdescribes.represents.mem_rules.mp hrule
          have hlhs := hdescribes.represents.nonterminalName_inj huses
            (hdescribes.represents.lhs_lt origin horigin) (Symbol.nonterminal.inj hname)
          exact ⟨origin, horigin, hlhs.symm, hfits.predicts rfl hinner⟩

end Analysis.Describes

namespace Parser

variable {grammar : Grammar} {parser : Parser} {input : Input τ} {tokens consumed : List τ}
  {last found : τ} {expected : List Lookahead}

theorem parseComplete_error_cases (hparser : Parser.ofGrammar grammar = .ok parser)
    (hlast : InputToken.kind input.last = .endOfInput)
    (houtcome : (parser.parseComplete input).outcome = .error (.unexpectedToken expected found)) :
    found = (parser.parseComplete input).rest.peek ∧
      ((∃ expanded, parser.analysis.Stops [.nonterminal Numbering.start] input expected
          (parser.parseComplete input).rest expanded) ∨
        ∃ tree expanded, parser.analysis.Reads [.nonterminal Numbering.start] input [tree]
            (parser.parseComplete input).rest expanded ∧ expected = [.endOfInput] ∧
          InputToken.kind found ≠ .endOfInput) := by
  rcases parse_cases hparser hlast with ⟨tree, hparse, hreads⟩ | ⟨expected', hparse, hstops⟩
  · rw [parseComplete_of_ok hparse] at houtcome ⊢
    by_cases hkind : InputToken.kind (parser.parse input).rest.peek = .endOfInput
    · rw [Attempt.token_of_eq hkind] at houtcome
      cases houtcome
    · rw [Attempt.token_of_ne hkind] at houtcome ⊢
      cases houtcome
      exact ⟨rfl, .inr ⟨tree, _, hreads, rfl, hkind⟩⟩
  · rw [parseComplete_of_error hparse] at houtcome ⊢
    cases houtcome
    exact ⟨rfl, .inl ⟨_, hstops⟩⟩

/-- Where parsing fails, the start symbol derives what was passed, followed by symbols at whose
front everything that can be seen was expected. -/
theorem exists_form_of_error (hparser : Parser.ofGrammar grammar = .ok parser)
    (hlast : InputToken.kind input.last = .endOfInput)
    (houtcome : (parser.parseComplete input).outcome = .error (.unexpectedToken expected found)) :
    InputToken.kind found ∉ expected ∧
      ∃ (consumed : List τ) (start : String) (word : List String) (later : List Symbol),
        input.Passes consumed (parser.parseComplete input).rest ∧
        consumed.map InputToken.kind = word.map Lookahead.terminal ∧
        grammar.start? = some start ∧
        grammar.Derives [.nonterminal start] (word.map .terminal ++ later) ∧
        ∀ other, grammar.Shows (· = .endOfInput) other later → other ∈ expected := by
  obtain ⟨hdescribes, _⟩ := describes_of_ofGrammar hparser
  obtain ⟨huses, start, hstart, hdecode⟩ := start_symbols hdescribes
  obtain ⟨rfl, ⟨expanded, hstops⟩ | ⟨tree, expanded, hreads, rfl, hkind⟩⟩ :=
    parseComplete_error_cases hparser hlast houtcome
  · obtain ⟨consumed, word, symbol, later, hpasses, hkinds, hused, hrefuses, hderives⟩ :=
      hdescribes.stuck huses hlast hstops
    rw [hdecode] at hderives
    have hfits :
        grammar.Fits (parser.analysis.numbering.decode symbol :: later) (· = .endOfInput) :=
      ((Grammar.fits_start hstart).derives hderives).of_append
    exact ⟨hdescribes.not_mem_of_refuses hused hrefuses, consumed, start, word, _, hpasses, hkinds,
      hstart, hderives, fun other => hdescribes.mem_of_refuses hused hrefuses hfits⟩
  · obtain ⟨hpasses, hforest⟩ := hdescribes.sound huses hlast hreads
    obtain ⟨word, hkinds, hleftmost⟩ := hforest.exists_word
    rw [hdecode] at hleftmost
    refine ⟨fun hmem => hkind (List.mem_singleton.mp hmem), _, start, word, [], hpasses, hkinds,
      hstart, ?_, ?_⟩
    · rw [List.append_nil]
      exact hleftmost.derives
    · intro other hshows
      cases hshows with
      | behind hother => exact List.mem_singleton.mpr hother

/-- A grammar without dead ends can go on from where parsing fails, in a way that was expected. -/
theorem exists_continues {start : String} {word : List String} {later : List Symbol}
    (hfruitful : grammar.Fruitful) (hstart : grammar.start? = some start)
    (hyields : grammar.Yields [.nonterminal start])
    (hderives : grammar.Derives [.nonterminal start] (word.map .terminal ++ later))
    (hexpected : ∀ other, grammar.Shows (· = .endOfInput) other later → other ∈ expected) :
    ∃ seen ∈ expected, grammar.Continues (word.map .terminal) seen := by
  have hform := hfruitful.yields_of_derives hderives hyields
  obtain ⟨rest, hrest⟩ := (Grammar.yields_append.mp hform).2
  refine ⟨Grammar.firstLookahead rest, hexpected _ (Grammar.shows_of_derives_word hrest), ?_⟩
  refine Grammar.continues_iff.mpr ⟨rest, ⟨start, word ++ rest, hstart, ?_, ?_⟩, rfl⟩
  · rw [List.map_append]
  · rw [List.map_append]
    exact hderives.trans (hrest.append_left _)

/-- What was passed and the kind of the current token decide that parsing fails there. -/
theorem not_continues (hparser : Parser.ofGrammar grammar = .ok parser)
    (hlast : InputToken.kind input.last = .endOfInput)
    (houtcome : (parser.parseComplete input).outcome = .error (.unexpectedToken expected found))
    (hpasses : input.Passes consumed (parser.parseComplete input).rest) :
    ¬ grammar.Continues (consumed.map InputToken.kind) (InputToken.kind found) := by
  intro hcontinues
  obtain ⟨hdescribes, _⟩ := describes_of_ofGrammar hparser
  obtain ⟨huses, _⟩ := start_symbols hdescribes
  obtain ⟨word, hsentence, hfirst⟩ := Grammar.continues_iff.mp hcontinues
  rw [← map_kind_lookahead (_ ++ _), Grammar.isSentence_iff] at hsentence
  obtain ⟨tree, htree, htokens⟩ := hsentence
  -- the kinds themselves are parsed, and as far as the current token they look like the input
  have hsuccess := parseComplete_of_isDerivationTree hparser htree rfl
  rw [htokens] at hsuccess
  obtain ⟨hparse, hend⟩ := parseComplete_ok_iff.mp hsuccess
  have hreads' := reads_of_parse hparser rfl hparse
  have hlike : (Input.ofTokens (consumed.map InputToken.kind ++ word.map .terminal)
      Lookahead.endOfInput).Passes (consumed.map InputToken.kind)
      ⟨word.map .terminal, .endOfInput, 0 + (consumed.map InputToken.kind).length⟩ :=
    ⟨rfl, rfl, rfl⟩
  have hkinds := map_kind_lookahead (consumed.map InputToken.kind)
  obtain ⟨rfl, ⟨expanded, hstops⟩ | ⟨tree', expanded, hreads, _, hkind⟩⟩ :=
    parseComplete_error_cases hparser hlast houtcome
  · have hstops' := hdescribes.stops_of_kinds huses hlast hstops hpasses hlike hkinds hfirst
    exact hstops'.not_reads hreads'
  · have hconsumed := hpasses.tokens_eq (hdescribes.sound huses hlast hreads).1
    subst hconsumed
    obtain ⟨trees, hreads''⟩ := hdescribes.reads_of_kinds huses hlast hreads hlike hkinds hfirst
    rw [(hreads''.unique hreads').2.1] at hend
    exact hkind (hfirst.symm.trans hend)

/-- A parse of a whole input that fails stands at the token it reports, and has passed those before
it. No sentence has that token there, and it is none of those expected. If every nonterminal derives
some sequence of terminals, then what was passed begins some sentence, and one of the lookaheads
expected can come next. -/
theorem parseComplete_fails_first (hparser : Parser.ofGrammar grammar = .ok parser)
    (hlast : InputToken.kind last = .endOfInput)
    (houtcome : (parser.parseComplete (.ofTokens tokens last)).outcome =
      .error (.unexpectedToken expected found)) :
    found = (parser.parseComplete (.ofTokens tokens last)).rest.peek ∧
      ∃ consumed,
        (Input.ofTokens tokens last).Passes consumed
          (parser.parseComplete (.ofTokens tokens last)).rest ∧
        ¬ grammar.Continues (consumed.map InputToken.kind) (InputToken.kind found) ∧
        InputToken.kind found ∉ expected ∧
        ((∀ rule ∈ grammar.rules, grammar.Yields [.nonterminal rule.lhs]) →
          (∃ later, grammar.IsSentence (consumed.map InputToken.kind ++ later)) ∧
            ∃ seen ∈ expected, grammar.Continues (consumed.map InputToken.kind) seen) := by
  have hfound := (parseComplete_error_cases hparser hlast houtcome).1
  obtain ⟨hexpected, consumed, start, word, later, hpasses, hkinds, hstart, hderives, hshows⟩ :=
    exists_form_of_error hparser hlast houtcome
  refine ⟨hfound, consumed, hpasses, not_continues hparser hlast houtcome hpasses, hexpected, ?_⟩
  intro hproductive
  obtain ⟨hdescribes, _⟩ := describes_of_ofGrammar hparser
  obtain ⟨rule, hrule, rfl⟩ := Grammar.exists_rule_of_start hstart
  obtain ⟨seen, hseen, hcontinues⟩ :=
    exists_continues (hdescribes.represents.fruitful hproductive) hstart (hproductive rule hrule)
      hderives hshows
  rw [← hkinds] at hcontinues
  obtain ⟨rest, hsentence, _⟩ := Grammar.continues_iff.mp hcontinues
  exact ⟨⟨_, hsentence⟩, seen, hseen, hcontinues⟩

theorem pairs_fail_first :
    (Parser.pairs.parseComplete
        (.ofTokens [.terminal "a", .terminal "a", .terminal "b"] Lookahead.endOfInput)).outcome =
          .error (.unexpectedToken [.terminal "b"] .endOfInput) ∧
      ∃ consumed,
        (Input.ofTokens [.terminal "a", .terminal "a", .terminal "b"] Lookahead.endOfInput).Passes
          consumed (Parser.pairs.parseComplete
            (.ofTokens [.terminal "a", .terminal "a", .terminal "b"] Lookahead.endOfInput)).rest ∧
        ¬ Grammar.pairs.IsSentence (consumed.map InputToken.kind) ∧
        ∃ seen ∈ [Lookahead.terminal "b"],
          Grammar.pairs.Continues (consumed.map InputToken.kind) seen := by
  have houtcome : (Parser.pairs.parseComplete
      (.ofTokens [.terminal "a", .terminal "a", .terminal "b"] Lookahead.endOfInput)).outcome =
        .error (.unexpectedToken [.terminal "b"] .endOfInput) := by
    decide +kernel
  obtain ⟨_, consumed, hpasses, hnot, _, hcontinues⟩ :=
    parseComplete_fails_first ofGrammar_pairs rfl houtcome
  exact ⟨houtcome, consumed, hpasses, hnot, (hcontinues Grammar.pairs_yields).2⟩

end Parser

end TopDown
