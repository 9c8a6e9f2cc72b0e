import TopDown.Definition.Reading
import TopDown.Proofs.Definition.Clauses
import TopDown.Proofs.Definition.Tokens

/-!
# What definitions are read as

What the reader has taken is a number of clauses and the beginning of the next one. The main
statement says that a text is read as a grammar if its tokens are those of one or more clauses, and
that the rules of the grammar are the rules of the clauses.
-/

namespace TopDown.Definition

/-- The stage behind an alternative. -/
def Stage.behind (name : String) : List Symbol → Stage
  | [] => .afterEmpty name
  | symbols => .afterSymbols name symbols

/-- The beginning of a clause, up to the pipe behind the alternatives that are done. -/
def openedLexemes (name : String) (done : List (List Symbol)) : List Lexeme :=
  [.nonterminal name, .colon] ++
    done.flatMap fun production => productionLexemes production ++ [.pipe]

namespace Reading

variable {reading after : Reading} {lexeme : Lexeme} {lexemes more : List Lexeme}
  {rules : List Rule} {name : String}

def takeAll? (reading : Reading) (lexemes : List Lexeme) : Option Reading :=
  lexemes.foldlM take? reading

@[simp]
theorem takeAll?_nil : reading.takeAll? [] = some reading := rfl

@[simp]
theorem takeAll?_cons :
    reading.takeAll? (lexeme :: lexemes) =
      (reading.take? lexeme).bind fun after => after.takeAll? lexemes := rfl

@[simp]
theorem takeAll?_append :
    reading.takeAll? (lexemes ++ more) =
      (reading.takeAll? lexemes).bind fun after => after.takeAll? more :=
  List.foldlM_append

theorem takeAll?_symbols (symbols others : List Symbol) :
    takeAll? { rules := rules, stage := .afterSymbols name symbols } (others.map Symbol.lexeme) =
      some { rules := rules, stage := .afterSymbols name (symbols ++ others) } := by
  induction others generalizing symbols with
  | nil => simp
  | cons symbol others ih =>
      have hstep := ih (symbols ++ [symbol])
      rw [List.append_assoc] at hstep
      cases symbol <;> exact hstep

theorem takeAll?_production (production : List Symbol) :
    takeAll? { rules := rules, stage := .alternative name } (productionLexemes production) =
      some { rules := rules, stage := .behind name production } := by
  cases production with
  | nil => rfl
  | cons symbol others =>
      cases symbol <;> exact takeAll?_symbols _ others

theorem take?_pipe (production : List Symbol) :
    take? { rules := rules, stage := .behind name production } .pipe =
      some { rules := rules ++ [⟨name, production⟩], stage := .alternative name } := by
  cases production <;> rfl

theorem take?_semicolon (production : List Symbol) :
    take? { rules := rules, stage := .behind name production } .semicolon =
      some { rules := rules ++ [⟨name, production⟩], stage := .betweenRules } := by
  cases production <;> rfl

theorem takeAll?_others (production : List Symbol) (others : List (List Symbol)) :
    takeAll? { rules := rules, stage := .behind name production }
        ((others.flatMap fun production => .pipe :: productionLexemes production) ++
          [.semicolon]) =
      some
        { rules := rules ++ (production :: others).map (Rule.mk name)
          stage := .betweenRules } := by
  induction others generalizing rules production with
  | nil => simp [take?_semicolon]
  | cons second others ih =>
      rw [List.flatMap_cons, List.cons_append, List.cons_append, takeAll?_cons, take?_pipe,
        Option.bind_some, List.append_assoc, takeAll?_append, takeAll?_production,
        Option.bind_some, ih, List.append_assoc]
      rfl

theorem takeAll?_clause (clause : Clause) :
    takeAll? { rules := rules, stage := .betweenRules } clause.lexemes =
      some { rules := rules ++ clause.rules, stage := .betweenRules } := by
  rw [Clause.lexemes, List.append_assoc, List.append_assoc, takeAll?_append]
  change takeAll? { rules := rules, stage := .alternative clause.name } _ = _
  rw [takeAll?_append, takeAll?_production, Option.bind_some, takeAll?_others]
  rfl

theorem takeAll?_clauses (clauses : List Clause) :
    takeAll? { rules := rules, stage := .betweenRules } (clauses.flatMap Clause.lexemes) =
      some { rules := rules ++ clauses.flatMap Clause.rules, stage := .betweenRules } := by
  induction clauses generalizing rules with
  | nil => simp
  | cons clause clauses ih =>
      rw [List.flatMap_cons, takeAll?_append, takeAll?_clause, Option.bind_some, ih,
        List.append_assoc, List.flatMap_cons]

/-! ### Only clauses are taken

The lexemes that lead to a reading are those of whole clauses and of the beginning of another one,
which the stage describes. One more lexeme that is taken keeps this. -/

/-- The lexemes that lead to a reading: clauses, and what the stage says of the next one. -/
inductive LedTo : Reading → List Lexeme → Prop
  | betweenRules (clauses : List Clause) :
      LedTo { rules := clauses.flatMap Clause.rules, stage := .betweenRules }
        (clauses.flatMap Clause.lexemes)
  | afterName (clauses : List Clause) (name : String) :
      LedTo { rules := clauses.flatMap Clause.rules, stage := .afterName name }
        (clauses.flatMap Clause.lexemes ++ [.nonterminal name])
  | alternative (clauses : List Clause) (name : String) (done : List (List Symbol)) :
      LedTo
        { rules := clauses.flatMap Clause.rules ++ done.map (Rule.mk name)
          stage := .alternative name }
        (clauses.flatMap Clause.lexemes ++ openedLexemes name done)
  | behind (clauses : List Clause) (name : String) (done : List (List Symbol))
      (production : List Symbol) :
      LedTo
        { rules := clauses.flatMap Clause.rules ++ done.map (Rule.mk name)
          stage := .behind name production }
        (clauses.flatMap Clause.lexemes ++
          (openedLexemes name done ++ productionLexemes production))

theorem openedLexemes_snoc (done : List (List Symbol)) (production : List Symbol) :
    openedLexemes name (done ++ [production]) =
      openedLexemes name done ++ productionLexemes production ++ [.pipe] := by
  simp [openedLexemes]

theorem openedLexemes_cons (first : List Symbol) (others : List (List Symbol)) :
    openedLexemes name (first :: others) =
      [.nonterminal name, .colon] ++ (productionLexemes first ++
        others.flatMap fun production => .pipe :: productionLexemes production) ++ [.pipe] := by
  induction others using List.reverseRec with
  | nil => simp [openedLexemes]
  | append_singleton others production ih =>
      rw [← List.cons_append, openedLexemes_snoc, ih]
      simp

theorem exists_clause (name : String) (done : List (List Symbol)) (production : List Symbol) :
    ∃ clause : Clause,
      clause.lexemes = openedLexemes name done ++ productionLexemes production ++ [.semicolon] ∧
        clause.rules = done.map (Rule.mk name) ++ [⟨name, production⟩] := by
  cases done with
  | nil => exact ⟨⟨name, production, []⟩, by simp [Clause.lexemes, openedLexemes], rfl⟩
  | cons first others =>
      refine ⟨⟨name, first, others ++ [production]⟩, ?_, by simp [Clause.rules]⟩
      rw [openedLexemes_cons]
      simp [Clause.lexemes]

namespace LedTo

variable (clauses : List Clause) (done : List (List Symbol)) (production : List Symbol)

theorem pipe :
    LedTo
      { rules := clauses.flatMap Clause.rules ++ done.map (Rule.mk name) ++ [⟨name, production⟩]
        stage := .alternative name }
      (clauses.flatMap Clause.lexemes ++
        (openedLexemes name done ++ productionLexemes production ++ [.pipe])) := by
  have hled := LedTo.alternative clauses name (done ++ [production])
  rw [openedLexemes_snoc, List.map_append, ← List.append_assoc] at hled
  exact hled

theorem semicolon :
    LedTo
      { rules := clauses.flatMap Clause.rules ++ done.map (Rule.mk name) ++ [⟨name, production⟩]
        stage := .betweenRules }
      (clauses.flatMap Clause.lexemes ++
        (openedLexemes name done ++ productionLexemes production ++ [.semicolon])) := by
  obtain ⟨clause, hlexemes, hrules⟩ := exists_clause name done production
  have hled := LedTo.betweenRules (clauses ++ [clause])
  rw [List.flatMap_append, List.flatMap_append, List.flatMap_singleton, List.flatMap_singleton,
    hlexemes, hrules, ← List.append_assoc] at hled
  exact hled

theorem symbol (last : Symbol) (hproduction : production ≠ []) :
    LedTo
      { rules := clauses.flatMap Clause.rules ++ done.map (Rule.mk name)
        stage := .afterSymbols name (production ++ [last]) }
      (clauses.flatMap Clause.lexemes ++
        (openedLexemes name done ++ productionLexemes production ++ [last.lexeme])) := by
  obtain ⟨first, others, rfl⟩ := List.exists_cons_of_ne_nil hproduction
  have hled := LedTo.behind clauses name done (first :: others ++ [last])
  have hsymbols : productionLexemes (first :: others ++ [last]) =
      productionLexemes (first :: others) ++ [last.lexeme] := by
    simp [productionLexemes]
  rw [hsymbols, ← List.append_assoc (openedLexemes name done)] at hled
  exact hled

theorem take? (hled : LedTo reading lexemes) (htake : reading.take? lexeme = some after) :
    LedTo after (lexemes ++ [lexeme]) := by
  -- at each stage only the lexemes that `take?` lists remain
  cases hled with
  | betweenRules clauses =>
      cases lexeme <;> cases htake
      exact .afterName clauses _
  | afterName clauses name =>
      cases lexeme <;> cases htake
      have hopened := LedTo.alternative clauses name []
      rw [List.map_nil, List.append_nil] at hopened
      rw [List.append_assoc]
      exact hopened
  | alternative clauses name done =>
      rw [List.append_assoc]
      cases lexeme <;> cases htake
      case nonterminal.refl symbol => exact .behind clauses name done [.nonterminal symbol]
      case terminal.refl symbol => exact .behind clauses name done [.terminal symbol]
      case empty.refl => exact .behind clauses name done []
  | behind clauses name done production =>
      rw [List.append_assoc]
      cases production with
      | nil =>
          cases lexeme <;> cases htake
          case semicolon.refl => exact semicolon clauses done []
          case pipe.refl => exact pipe clauses done []
      | cons first others =>
          cases lexeme <;> cases htake
          case nonterminal.refl last =>
            exact symbol clauses done (first :: others) (.nonterminal last) (List.cons_ne_nil _ _)
          case terminal.refl last =>
            exact symbol clauses done (first :: others) (.terminal last) (List.cons_ne_nil _ _)
          case semicolon.refl => exact semicolon clauses done (first :: others)
          case pipe.refl => exact pipe clauses done (first :: others)

theorem takeAll? (hled : LedTo reading lexemes) (htake : reading.takeAll? more = some after) :
    LedTo after (lexemes ++ more) := by
  induction more generalizing reading lexemes with
  | nil =>
      cases htake
      rw [List.append_nil]
      exact hled
  | cons lexeme more ih =>
      rw [takeAll?_cons, Option.bind_eq_some_iff] at htake
      obtain ⟨next, hnext, hmore⟩ := htake
      have hrest := ih (hled.take? hnext) hmore
      rw [List.append_assoc] at hrest
      exact hrest

end LedTo

theorem isComplete_iff : reading.isComplete = true ↔
    reading.stage = .betweenRules ∧ reading.rules ≠ [] := by
  simp [isComplete]

theorem rules_ne_nil_iff {clauses : List Clause} :
    clauses.flatMap Clause.rules ≠ [] ↔ clauses ≠ [] := by
  cases clauses <;> simp [Clause.rules]

/-- From the start, the lexemes of one or more clauses are taken, and no others. -/
theorem takeAll?_start_iff :
    (∃ final, start.takeAll? lexemes = some final ∧ final.isComplete = true ∧
        rules = final.rules) ↔
      ∃ clauses, clauses ≠ [] ∧ lexemes = clauses.flatMap Clause.lexemes ∧
        rules = clauses.flatMap Clause.rules := by
  constructor
  · rintro ⟨final, htake, hcomplete, rfl⟩
    have hled : LedTo final lexemes := (LedTo.betweenRules []).takeAll? htake
    obtain ⟨hstage, hrules⟩ := isComplete_iff.mp hcomplete
    cases hled with
    | betweenRules clauses => exact ⟨clauses, rules_ne_nil_iff.mp hrules, rfl, rfl⟩
    | afterName => cases hstage
    | alternative => cases hstage
    | behind clauses name done production => cases production <;> cases hstage
  · rintro ⟨clauses, hclauses, rfl, rfl⟩
    exact ⟨_, takeAll?_clauses clauses, isComplete_iff.mpr ⟨rfl, rules_ne_nil_iff.mpr hclauses⟩,
      rfl⟩

variable {stream : TokenStream} {cursor : Cursor} {grammar : Grammar}

theorem finish_of_take? {next : TokenStream} (hend : stream.upcoming.lexeme ≠ .endOfText)
    (htake : reading.take? stream.upcoming.lexeme = some after)
    (hnext : stream.next = (.ok stream.upcoming, next)) :
    reading.finish stream = after.finish next := by
  rw [finish, if_neg hend, htake]
  dsimp only
  split
  · rename_i hother
    rw [hnext] at hother
    cases hother
    rfl
  · rename_i hother
    rw [hnext] at hother
    cases hother

theorem takes_of_finish (hbegins : stream.Begins cursor)
    (hfinish : reading.finish stream = .ok grammar) :
    ∃ tokens lexemes final, cursor.Scans tokens ∧
      tokens.map Token.lexeme = lexemes ++ [.endOfText] ∧
      reading.takeAll? lexemes = some final ∧ final.isComplete = true ∧
      grammar.rules = final.rules := by
  -- of the five ways that a step can go only the end and a token that is taken give a grammar
  fun_induction finish reading stream generalizing cursor with
  | case1 reading stream hend hcomplete =>
      cases hfinish
      exact ⟨[stream.upcoming], [], reading, .last hbegins hend, by simp [hend], rfl, hcomplete,
        rfl⟩
  | case2 => cases hfinish
  | case3 => cases hfinish
  | case4 reading stream hend after htake token next hnext ih =>
      obtain ⟨rfl, hbehind⟩ := TokenStream.next_eq_ok_iff.mp hnext
      obtain ⟨tokens, lexemes, final, hscans, hlexemes, hrest, hcomplete, hrules⟩ :=
        ih hbehind hfinish
      refine ⟨stream.upcoming :: tokens, stream.upcoming.lexeme :: lexemes, final,
        .next hbegins hend hscans, by simp [hlexemes], ?_, hcomplete, hrules⟩
      rw [takeAll?_cons, htake, Option.bind_some, hrest]
  | case5 => cases hfinish

theorem finish_of_takes {tokens : List Token} {final : Reading} (hbegins : stream.Begins cursor)
    (hscans : cursor.Scans tokens) (hlexemes : tokens.map Token.lexeme = lexemes ++ [.endOfText])
    (htake : reading.takeAll? lexemes = some final) (hcomplete : final.isComplete = true) :
    reading.finish stream = .ok { rules := final.rules } := by
  induction hscans generalizing reading stream lexemes with
  | last hscan hend =>
      obtain ⟨rfl, _⟩ := hbegins.eq_of_scan hscan
      obtain rfl : lexemes = [] := by
        rw [List.map_singleton, hend] at hlexemes
        exact (List.append_left_inj [Lexeme.endOfText]).mp hlexemes.symm
      cases htake
      rw [finish, if_pos hend, if_pos hcomplete]
  | next hscan hend hrest ih =>
      obtain ⟨rfl, rfl⟩ := hbegins.eq_of_scan hscan
      obtain ⟨next, hnext⟩ := TokenStream.exists_begins_of_scans hrest
      cases lexemes with
      | nil => exact absurd (List.cons.inj hlexemes).1 hend
      | cons lexeme lexemes =>
          obtain ⟨rfl, hothers⟩ := List.cons.inj hlexemes
          rw [takeAll?_cons, Option.bind_eq_some_iff] at htake
          obtain ⟨after, hafter, hmore⟩ := htake
          rw [finish_of_take? hend hafter (TokenStream.next_eq_ok_iff.mpr ⟨rfl, hnext⟩)]
          exact ih hnext hothers hmore

end Reading

variable {text : String} {grammar : Grammar} {tokens : List Token} {clauses : List Clause}

theorem exists_clauses_of_parse (hparse : parse text = .ok grammar) :
    ∃ clauses tokens, clauses ≠ [] ∧ tokenize text = .ok tokens ∧
      tokens.map Token.lexeme = clauses.flatMap Clause.lexemes ++ [.endOfText] ∧
      grammar.rules = clauses.flatMap Clause.rules := by
  unfold parse TokenStream.ofText? at hparse
  split at hparse
  · rename_i hstream
    obtain ⟨tokens, lexemes, final, hscans, hlexemes, htake, hcomplete, hrules⟩ :=
      Reading.takes_of_finish (TokenStream.ofCursor?_eq_ok_iff.mp hstream) hparse
    obtain ⟨clauses, hclauses, rfl, hsame⟩ :=
      Reading.takeAll?_start_iff.mp ⟨final, htake, hcomplete, hrules⟩
    exact ⟨clauses, tokens, hclauses, tokenize_eq_ok_iff_scans.mpr hscans, hlexemes, hsame⟩
  · cases hparse

theorem parse_of_clauses (hclauses : clauses ≠ []) (htokens : tokenize text = .ok tokens)
    (hlexemes : tokens.map Token.lexeme = clauses.flatMap Clause.lexemes ++ [.endOfText]) :
    parse text = .ok { rules := clauses.flatMap Clause.rules } := by
  have hscans := tokenize_eq_ok_iff_scans.mp htokens
  obtain ⟨final, htake, hcomplete, hrules⟩ :=
    Reading.takeAll?_start_iff.mpr ⟨clauses, hclauses, rfl, rfl⟩
  obtain ⟨stream, hbegins⟩ := TokenStream.exists_begins_of_scans hscans
  rw [parse, TokenStream.ofText?, TokenStream.ofCursor?_eq_ok_iff.mpr hbegins]
  dsimp only
  rw [Reading.finish_of_takes hbegins hscans hlexemes htake hcomplete, hrules]

theorem lexemes_mem_definition_iff {lexemes : List Lexeme} :
    lexemes.map Lexeme.kind ∈ Kinds.definition ↔ ∃ clauses, clauses ≠ [] ∧
      lexemes = clauses.flatMap Clause.lexemes ++ [.endOfText] := by
  rw [prints_definition]
  constructor
  · rintro ⟨⟨clause, clauses⟩, hlexemes⟩
    exact ⟨clause :: clauses, List.cons_ne_nil _ _, hlexemes.symm⟩
  · rintro ⟨clauses, hclauses, hlexemes⟩
    obtain ⟨clause, others, rfl⟩ := List.exists_cons_of_ne_nil hclauses
    exact ⟨(clause, others), hlexemes.symm⟩

theorem map_kind_eq (tokens : List Token) :
    tokens.map Token.kind = (tokens.map Token.lexeme).map Lexeme.kind := by
  rw [List.map_map]
  rfl

theorem mem_definition_iff :
    tokens.map Token.kind ∈ Kinds.definition ↔ ∃ clauses, clauses ≠ [] ∧
      tokens.map Token.lexeme = clauses.flatMap Clause.lexemes ++ [.endOfText] := by
  rw [map_kind_eq, lexemes_mem_definition_iff]

/-- A text is read as a grammar if the kinds of its tokens are a definition. The rules of the
grammar are those of the clauses whose lexemes the tokens are. -/
theorem parse_iff_definition (text : String) :
    ((∃ grammar, parse text = .ok grammar) ↔
        ∃ tokens, tokenize text = .ok tokens ∧ tokens.map Token.kind ∈ Kinds.definition) ∧
      ∀ grammar, parse text = .ok grammar ↔ ∃ clauses tokens, clauses ≠ [] ∧
        tokenize text = .ok tokens ∧
        tokens.map Token.lexeme = clauses.flatMap Clause.lexemes ++ [.endOfText] ∧
        grammar.rules = clauses.flatMap Clause.rules := by
  refine ⟨⟨?_, ?_⟩, fun grammar => ⟨exists_clauses_of_parse, ?_⟩⟩
  · rintro ⟨grammar, hparse⟩
    obtain ⟨clauses, tokens, hclauses, htokens, hlexemes, _⟩ := exists_clauses_of_parse hparse
    exact ⟨tokens, htokens, mem_definition_iff.mpr ⟨clauses, hclauses, hlexemes⟩⟩
  · rintro ⟨tokens, htokens, hdefinition⟩
    obtain ⟨clauses, hclauses, hlexemes⟩ := mem_definition_iff.mp hdefinition
    exact ⟨_, parse_of_clauses hclauses htokens hlexemes⟩
  · rintro ⟨clauses, tokens, hclauses, htokens, hlexemes, hrules⟩
    rw [parse_of_clauses hclauses htokens hlexemes, ← hrules]

end TopDown.Definition
