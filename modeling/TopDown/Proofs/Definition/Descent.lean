import TopDown.Proofs.Definition.Calls
import TopDown.Proofs.Definition.ExpectedKinds

/-!
# Reading by descent

A definition can also be read by functions that call one another as its parts contain one another.
Each of them looks at the kind of the upcoming token and takes tokens of the kinds that it expects,
and it repeats what may come more than once. The main statement says that this gives the same
grammar as reading by stages, or the same error.
-/

namespace TopDown.Definition

open Relation (TransGen ReflTransGen)

theorem exists_of_bind_eq_ok {ε α β : Type} {value : Except ε α} {next : α → Except ε β}
    {result : β} (hbind : (value >>= next) = .ok result) :
    ∃ first, value = .ok first ∧ next first = .ok result := by
  cases value with
  | error error => cases hbind
  | ok first => exact ⟨first, rfl, hbind⟩

/-- The kinds of the symbols of a production. -/
def symbolKinds : List TokenKind :=
  [.nonterminal, .terminal]

/-- The kinds of what comes behind an alternative. -/
def separatorKinds : List TokenKind :=
  [.pipe, .semicolon]

namespace Token

def symbol (token : Token) : Symbol :=
  match token.kind with
  | .terminal => .terminal token.text
  | _ => .nonterminal token.text

theorem lexeme_symbol {token : Token} (hkind : token.kind ∈ symbolKinds) :
    token.symbol.lexeme = token.lexeme := by
  obtain ⟨lexeme, location⟩ := token
  cases lexeme with
  | nonterminal name =>
      simp [symbol, kind, Lexeme.kind, text, Lexeme.text, Lexeme.source, Symbol.lexeme]
  | terminal name => rfl
  | _ => simp [kind, Lexeme.kind, symbolKinds] at hkind

end Token

namespace TokenStream

variable {stream after : TokenStream} {token : Token} {kinds : List TokenKind}
  {production : List Symbol} {rules more : List Rule} {name : String}

/-- What a call has given, and the stream behind it. -/
def given : Except Error Token × TokenStream → Except Error (Token × TokenStream)
  | (.ok token, after) => .ok (token, after)
  | (.error error, _) => .error error

/-- A token other than the end of the text is taken. Since every part of a definition has such a
token, a stream has less room behind the part. -/
structure Gives (stream after : TokenStream) : Prop where
  ne_endOfText : stream.upcoming.lexeme ≠ .endOfText
  next_eq : stream.next = (.ok stream.upcoming, after)

theorem given_eq_ok_iff {call : Except Error Token × TokenStream} :
    given call = .ok (token, after) ↔ call = (.ok token, after) := by
  obtain ⟨outcome, stream⟩ := call
  cases outcome <;> simp [given]

theorem gives_of_expect (hkinds : .endOfText ∉ kinds)
    (hgiven : given (stream.expect kinds) = .ok (token, after)) : stream.Gives after := by
  rw [given_eq_ok_iff] at hgiven
  by_cases hkind : stream.upcoming.kind ∈ kinds
  · rw [expect_of_mem hkind] at hgiven
    obtain ⟨rfl, _⟩ := next_eq_ok_iff.mp hgiven
    refine ⟨fun hend => hkinds ?_, hgiven⟩
    rwa [Token.kind_eq_endOfText_iff.mpr hend] at hkind
  · rw [expect_of_not_mem hkind] at hgiven
    cases hgiven

theorem room_lt_of_gives (hgives : TransGen Gives stream after) : after.room < stream.room := by
  induction hgives with
  | single hgives => exact room_next_lt hgives.next_eq hgives.ne_endOfText
  | tail _ hgives ih => exact (room_next_lt hgives.next_eq hgives.ne_endOfText).trans ih

theorem exists_begins_of_gives (hgives : TransGen Gives stream after) :
    ∃ cursor, after.Begins cursor := by
  obtain ⟨behind, _, hgives⟩ := TransGen.tail'_iff.mp hgives
  exact ⟨behind.cursor, (next_eq_ok_iff.mp hgives.next_eq).2⟩

def readSymbol (stream : TokenStream) : Except Error (Symbol × TokenStream) := do
  let (token, after) ← given (stream.expect symbolKinds)
  return (token.symbol, after)

theorem gives_of_readSymbol {symbol : Symbol} (hread : stream.readSymbol = .ok (symbol, after)) :
    stream.Gives after := by
  obtain ⟨⟨token, next⟩, hgiven, hsymbol⟩ := exists_of_bind_eq_ok hread
  cases hsymbol
  exact gives_of_expect (by decide) hgiven

/-- Reads on as long as a symbol is upcoming. -/
def readSymbols (symbols : List Symbol) (stream : TokenStream) :
    Except Error (List Symbol × TokenStream) :=
  if stream.has symbolKinds then
    match _hread : stream.readSymbol with
    | .ok (symbol, after) => readSymbols (symbols ++ [symbol]) after
    | .error error => .error error
  else .ok (symbols, stream)
termination_by stream.room
decreasing_by exact room_lt_of_gives (.single (gives_of_readSymbol _hread))

theorem gives_of_readSymbols {symbols : List Symbol}
    (hread : stream.readSymbols symbols = .ok (production, after)) :
    ReflTransGen Gives stream after := by
  fun_induction readSymbols symbols stream with
  | case1 symbols stream hhas symbol next hsymbol ih =>
      exact .head (gives_of_readSymbol hsymbol) (ih hread)
  | case2 => cases hread
  | case3 =>
      cases hread
      exact .refl

def readProduction (stream : TokenStream) : Except Error (List Symbol × TokenStream) :=
  if stream.has [.empty] then do
    let (_, after) ← given stream.next
    return ([], after)
  else do
    let (symbol, after) ← stream.readSymbol
    after.readSymbols [symbol]

theorem gives_of_readProduction (hread : stream.readProduction = .ok (production, after)) :
    TransGen Gives stream after := by
  rw [readProduction] at hread
  split at hread
  · rename_i hhas
    obtain ⟨⟨token, next⟩, hgiven, hempty⟩ := exists_of_bind_eq_ok hread
    cases hempty
    rw [← expect_of_mem (has_iff.mp hhas)] at hgiven
    exact .single (gives_of_expect (by decide) hgiven)
  · obtain ⟨⟨symbol, next⟩, hsymbol, hsymbols⟩ := exists_of_bind_eq_ok hread
    exact .head' (gives_of_readSymbol hsymbol) (gives_of_readSymbols hsymbols)

/-- Reads a production and the separator behind it. -/
def readAlternative (stream : TokenStream) :
    Except Error ((List Symbol × TokenKind) × TokenStream) := do
  let (production, behind) ← stream.readProduction
  let (separator, after) ← given (behind.expect separatorKinds)
  return ((production, separator.kind), after)

theorem gives_of_readAlternative {separator : TokenKind}
    (hread : stream.readAlternative = .ok ((production, separator), after)) :
    TransGen Gives stream after := by
  obtain ⟨⟨symbols, behind⟩, hproduction, hread⟩ := exists_of_bind_eq_ok hread
  obtain ⟨⟨token, next⟩, hgiven, hend⟩ := exists_of_bind_eq_ok hread
  cases hend
  exact .tail (gives_of_readProduction hproduction) (gives_of_expect (by decide) hgiven)

/-- Reads the alternatives of a name, up to a semicolon. -/
def readAlternatives (name : String) (rules : List Rule) (stream : TokenStream) :
    Except Error (List Rule × TokenStream) :=
  match _hread : stream.readAlternative with
  | .error error => .error error
  | .ok ((production, separator), after) =>
      if separator = .semicolon then
        .ok (rules ++ [{ lhs := name, production := production }], after)
      else readAlternatives name (rules ++ [{ lhs := name, production := production }]) after
termination_by stream.room
decreasing_by exact room_lt_of_gives (gives_of_readAlternative _hread)

theorem gives_of_readAlternatives
    (hread : stream.readAlternatives name rules = .ok (more, after)) :
    TransGen Gives stream after ∧ more ≠ [] := by
  fun_induction readAlternatives name rules stream with
  | case1 => cases hread
  | case2 rules stream production next halternative =>
      cases hread
      exact ⟨gives_of_readAlternative halternative, List.concat_ne_nil _ _⟩
  | case3 rules stream production separator next halternative _ ih =>
      obtain ⟨hgives, hne⟩ := ih hread
      exact ⟨(gives_of_readAlternative halternative).trans hgives, hne⟩

def readRule (stream : TokenStream) : Except Error (List Rule × TokenStream) := do
  let (name, behind) ← given (stream.expect [.nonterminal])
  let (_, after) ← given (behind.expect [.colon])
  after.readAlternatives name.text []

theorem gives_of_readRule (hread : stream.readRule = .ok (rules, after)) :
    TransGen Gives stream after ∧ rules ≠ [] := by
  obtain ⟨⟨name, behind⟩, hname, hread⟩ := exists_of_bind_eq_ok hread
  obtain ⟨⟨colon, start⟩, hcolon, hread⟩ := exists_of_bind_eq_ok hread
  obtain ⟨hgives, hne⟩ := gives_of_readAlternatives hread
  have hbehind : TransGen Gives behind after :=
    .head (gives_of_expect (by decide) hcolon) hgives
  exact ⟨.head (gives_of_expect (by decide) hname) hbehind, hne⟩

/-- Reads on as long as the name of a rule is upcoming. -/
def readRules (rules : List Rule) (stream : TokenStream) :
    Except Error (List Rule × TokenStream) :=
  if stream.has [.nonterminal] then
    match _hread : stream.readRule with
    | .ok (more, after) => readRules (rules ++ more) after
    | .error error => .error error
  else .ok (rules, stream)
termination_by stream.room
decreasing_by exact room_lt_of_gives (gives_of_readRule _hread).1

def readGrammar (stream : TokenStream) : Except Error Grammar := do
  let (first, behind) ← stream.readRule
  let (rules, after) ← behind.readRules first
  let _ ← given (after.expect [.nonterminal, .endOfText])
  return { rules := rules }

end TokenStream

/-- Reads the grammar that a text defines, part by part. -/
def descend (text : String) : Except Error Grammar := do
  let stream ← TokenStream.ofText? text
  stream.readGrammar

/-! ### Parts and stages

A stage is where a part begins or ends. Reading on from the stage at the beginning of a part is
reading the part and then reading on from the stage at its end, and a token that ends the one ends
the other with the same error. -/

namespace Reading

open TokenStream

variable {reading : Reading} {stream : TokenStream} {lexeme : Lexeme} {kinds : List TokenKind}
  {rules : List Rule} {name : String} {production symbols : List Symbol}

theorem take?_of_not_allowed (hkind : lexeme.kind ∉ reading.allowed) :
    reading.take? lexeme = none := by
  obtain ⟨rules, stage⟩ := reading
  cases stage <;> cases lexeme <;> cases rules <;>
    first | rfl | simp [allowed, expected, Lexeme.kind] at hkind

theorem isComplete_of_not_allowed (hend : .endOfText ∉ reading.allowed) :
    reading.isComplete = false := by
  obtain ⟨rules, stage⟩ := reading
  cases stage <;> cases rules <;> first | rfl | simp [allowed, expected] at hend

theorem finish_of_not_allowed (hkind : stream.upcoming.kind ∉ reading.allowed) :
    reading.finish stream = .error (.unexpectedToken reading.expected stream.upcoming) := by
  rw [finish]
  split
  · rename_i hend
    rw [Token.kind_eq_endOfText_iff.mpr hend] at hkind
    rw [isComplete_of_not_allowed hkind]
    rfl
  · rw [take?_of_not_allowed hkind]

theorem finish_eq_next (after : Token → Reading)
    (htake : reading.take? stream.upcoming.lexeme = some (after stream.upcoming)) :
    reading.finish stream =
      given stream.next >>= fun read => (after read.1).finish read.2 := by
  have hend : stream.upcoming.lexeme ≠ .endOfText := by
    intro hend
    rw [hend, take?_endOfText] at htake
    cases htake
  rw [finish, if_neg hend, htake]
  dsimp only
  split
  · rename_i token next hnext
    obtain ⟨rfl, _⟩ := next_eq_ok_iff.mp hnext
    rw [hnext]
    rfl
  · rename_i hnext
    rw [hnext]
    rfl

/-- At a stage that allows what it expects, a token of these kinds is taken. A stage may allow more,
as long as it is not upcoming. -/
theorem finish_eq_expect (after : Token → Reading)
    (htake : stream.upcoming.kind ∈ kinds →
      reading.take? stream.upcoming.lexeme = some (after stream.upcoming))
    (hrefuse : stream.upcoming.kind ∉ kinds →
      stream.upcoming.kind ∉ reading.allowed ∧ reading.expected = kinds) :
    reading.finish stream =
      given (stream.expect kinds) >>= fun read => (after read.1).finish read.2 := by
  by_cases hkind : stream.upcoming.kind ∈ kinds
  · rw [expect_of_mem hkind, finish_eq_next after (htake hkind)]
  · obtain ⟨hallowed, hexpected⟩ := hrefuse hkind
    rw [expect_of_not_mem hkind, finish_of_not_allowed hallowed, hexpected]
    rfl

theorem finish_eq_readSymbol (after : Symbol → Reading)
    (htake : ∀ symbol : Symbol, reading.take? symbol.lexeme = some (after symbol))
    (hrefuse : stream.upcoming.kind ∉ symbolKinds →
      stream.upcoming.kind ∉ reading.allowed ∧ reading.expected = symbolKinds) :
    reading.finish stream = stream.readSymbol >>= fun read => (after read.1).finish read.2 := by
  rw [readSymbol, bind_assoc]
  refine finish_eq_expect (fun token => after token.symbol) (fun hkind => ?_) hrefuse
  rw [← htake, Token.lexeme_symbol hkind]

/-- What is read when an alternative and the separator behind it have been read. -/
def separated (rules : List Rule) (name : String) (production : List Symbol)
    (separator : TokenKind) : Reading :=
  { rules := rules ++ [{ lhs := name, production := production }]
    stage := if separator = .semicolon then .betweenRules else .alternative name }

theorem take?_separator (hkind : lexeme.kind ∈ separatorKinds) :
    take? { rules := rules, stage := .behind name production } lexeme =
      some (separated rules name production lexeme.kind) := by
  cases lexeme with
  | pipe => exact take?_pipe production
  | semicolon => exact take?_semicolon production
  | _ => simp [Lexeme.kind, separatorKinds] at hkind

/-- Behind an alternative that does not go on comes a separator. -/
theorem finish_eq_separated (hsymbols : production ≠ [] → stream.upcoming.kind ∉ symbolKinds) :
    finish { rules := rules, stage := .behind name production } stream =
      given (stream.expect separatorKinds) >>= fun read =>
        (separated rules name production read.1.kind).finish read.2 := by
  refine finish_eq_expect (fun token => separated rules name production token.kind)
    take?_separator fun hkind => ?_
  cases production with
  | nil => exact ⟨hkind, rfl⟩
  | cons symbol others =>
      have hboth : stream.upcoming.kind ∉ symbolKinds ++ separatorKinds := by
        rw [List.mem_append, not_or]
        exact ⟨hsymbols (List.cons_ne_nil _ _), hkind⟩
      exact ⟨hboth, rfl⟩

theorem take?_symbol (hne : symbols ≠ []) (symbol : Symbol) :
    take? { rules := rules, stage := .behind name symbols } symbol.lexeme =
      some { rules := rules, stage := .behind name (symbols ++ [symbol]) } := by
  obtain ⟨first, others, rfl⟩ := List.exists_cons_of_ne_nil hne
  cases symbol <;> rfl

theorem finish_eq_readSymbols (hne : symbols ≠ []) :
    finish { rules := rules, stage := .behind name symbols } stream =
      stream.readSymbols symbols >>= fun read =>
        given (read.2.expect separatorKinds) >>= fun separator =>
          (separated rules name read.1 separator.1.kind).finish separator.2 := by
  -- the loop ends in front of a token that is no symbol, so that only a separator can be next
  fun_induction readSymbols symbols stream with
  | case1 symbols stream hhas symbol next hread ih =>
      rw [finish_eq_readSymbol _ (take?_symbol hne) (absurd (has_iff.mp hhas)), hread,
        ← ih (List.concat_ne_nil _ _)]
      rfl
  | case2 symbols stream hhas error hread =>
      rw [finish_eq_readSymbol _ (take?_symbol hne) (absurd (has_iff.mp hhas)), hread]
      rfl
  | case3 symbols stream hhas => exact finish_eq_separated fun _ => mt has_iff.mpr hhas

theorem take?_empty (hkind : lexeme.kind = .empty) :
    take? { rules := rules, stage := .alternative name } lexeme =
      some { rules := rules, stage := .behind name [] } := by
  cases lexeme with
  | empty => rfl
  | _ => cases hkind

theorem finish_eq_firstSymbol (hempty : stream.upcoming.kind ∉ [.empty]) :
    finish { rules := rules, stage := .alternative name } stream =
      stream.readSymbol >>= fun read =>
        finish { rules := rules, stage := .behind name [read.1] } read.2 := by
  refine finish_eq_readSymbol (fun symbol => { rules := rules, stage := .behind name [symbol] })
    ?_ fun hkind => ?_
  · rintro (name | name) <;> rfl
  · have hboth : stream.upcoming.kind ∉ [.empty] ++ symbolKinds := by
      rw [List.mem_append, not_or]
      exact ⟨hempty, hkind⟩
    exact ⟨hboth, rfl⟩

theorem finish_eq_readProduction :
    finish { rules := rules, stage := .alternative name } stream =
      stream.readProduction >>= fun read =>
        given (read.2.expect separatorKinds) >>= fun separator =>
          (separated rules name read.1 separator.1.kind).finish separator.2 := by
  rw [readProduction]
  split
  · rename_i hhas
    have hempty : stream.upcoming.kind = .empty := List.mem_singleton.mp (has_iff.mp hhas)
    rw [finish_eq_next (fun _ => { rules := rules, stage := .behind name [] })
      (take?_empty hempty), bind_assoc]
    exact bind_congr fun read => finish_eq_separated fun hne => absurd rfl hne
  · rename_i hhas
    rw [finish_eq_firstSymbol (mt has_iff.mpr hhas), bind_assoc]
    exact bind_congr fun read => finish_eq_readSymbols (List.cons_ne_nil _ _)

theorem finish_eq_readAlternative :
    finish { rules := rules, stage := .alternative name } stream =
      stream.readAlternative >>= fun read =>
        (separated rules name read.1.1 read.1.2).finish read.2 := by
  rw [finish_eq_readProduction, readAlternative]
  simp only [bind_assoc, pure_bind]

/-- The rules of earlier clauses stay in front of the alternatives that are read. -/
theorem finish_eq_readAlternatives (before : List Rule) :
    finish { rules := before ++ rules, stage := .alternative name } stream =
      stream.readAlternatives name rules >>= fun read =>
        finish { rules := before ++ read.1, stage := .betweenRules } read.2 := by
  fun_induction readAlternatives name rules stream with
  | case1 rules stream error hread =>
      rw [finish_eq_readAlternative, hread]
      rfl
  | case2 rules stream production next hread =>
      have hseparated : separated (before ++ rules) name production .semicolon =
          { rules := before ++ (rules ++ [⟨name, production⟩]), stage := .betweenRules } := by
        rw [separated, if_pos rfl, List.append_assoc]
      rw [finish_eq_readAlternative, hread]
      exact congrArg (finish · next) hseparated
  | case3 rules stream production separator next hread hseparator ih =>
      have hseparated : separated (before ++ rules) name production separator =
          { rules := before ++ (rules ++ [⟨name, production⟩]), stage := .alternative name } := by
        rw [separated, if_neg hseparator, List.append_assoc]
      rw [finish_eq_readAlternative, hread, ← ih]
      exact congrArg (finish · next) hseparated

theorem take?_name {token : Token} (hkind : token.kind = .nonterminal) :
    take? { rules := rules, stage := .betweenRules } token.lexeme =
      some { rules := rules, stage := .afterName token.text } := by
  obtain ⟨lexeme, location⟩ := token
  cases lexeme with
  | nonterminal name => simp [take?, Token.text, Lexeme.text, Lexeme.source]
  | _ => cases hkind

theorem take?_colon (hkind : lexeme.kind = .colon) :
    take? { rules := rules, stage := .afterName name } lexeme =
      some { rules := rules, stage := .alternative name } := by
  cases lexeme with
  | colon => rfl
  | _ => cases hkind

theorem finish_eq_colon :
    finish { rules := rules, stage := .afterName name } stream =
      given (stream.expect [.colon]) >>= fun read =>
        finish { rules := rules, stage := .alternative name } read.2 :=
  finish_eq_expect (fun _ => { rules := rules, stage := .alternative name })
    (fun hkind => take?_colon (List.mem_singleton.mp hkind)) fun hkind => ⟨hkind, rfl⟩

/-- The first rule is expected, and a later one is read if its name is upcoming. -/
theorem finish_eq_readRule (hrule : rules = [] ∨ stream.has [.nonterminal] = true) :
    finish { rules := rules, stage := .betweenRules } stream =
      stream.readRule >>= fun read =>
        finish { rules := rules ++ read.1, stage := .betweenRules } read.2 := by
  have hname : finish { rules := rules, stage := .betweenRules } stream =
      given (stream.expect [.nonterminal]) >>= fun read =>
        finish { rules := rules, stage := .afterName read.1.text } read.2 := by
    refine finish_eq_expect (fun token => { rules := rules, stage := .afterName token.text })
      (fun hkind => take?_name (List.mem_singleton.mp hkind)) fun hkind => ?_
    obtain rfl := hrule.resolve_right (mt has_iff.mp hkind)
    exact ⟨hkind, rfl⟩
  rw [hname, readRule, bind_assoc]
  refine bind_congr fun read => ?_
  rw [finish_eq_colon, bind_assoc]
  refine bind_congr fun colon => ?_
  have halternatives := @finish_eq_readAlternatives colon.2 [] read.1.text rules
  rwa [List.append_nil] at halternatives

/-- Behind a rule, what is not the name of another rule has to be the end of the text. -/
theorem finish_eq_endOfText {cursor : Cursor} (hne : rules ≠ []) (hbegins : stream.Begins cursor)
    (hkind : stream.upcoming.kind ≠ .nonterminal) :
    finish { rules := rules, stage := .betweenRules } stream =
      given (stream.expect [.nonterminal, .endOfText]) >>= fun _ => .ok { rules := rules } := by
  by_cases hend : stream.upcoming.kind = .endOfText
  · have hcomplete : isComplete { rules := rules, stage := .betweenRules } = true :=
      isComplete_iff.mpr ⟨rfl, hne⟩
    -- the descent takes the end of the text as well, and it can be taken again and again
    rw [finish, if_pos (Token.kind_eq_endOfText_iff.mp hend), if_pos hcomplete,
      expect_of_mem (by simp [hend]), hbegins.orderly.steady hend]
    rfl
  · obtain ⟨first, others, rfl⟩ := List.exists_cons_of_ne_nil hne
    have hother : stream.upcoming.kind ∉ [.nonterminal, .endOfText] := by simp [hkind, hend]
    rw [expect_of_not_mem hother, finish_of_not_allowed hother]
    rfl

theorem finish_eq_readRules {cursor : Cursor} (hne : rules ≠ []) (hbegins : stream.Begins cursor) :
    finish { rules := rules, stage := .betweenRules } stream =
      stream.readRules rules >>= fun read =>
        given (read.2.expect [.nonterminal, .endOfText]) >>= fun _ =>
          .ok { rules := read.1 } := by
  fun_induction readRules rules stream generalizing cursor with
  | case1 rules stream hhas more next hread ih =>
      obtain ⟨cursor, hnext⟩ := exists_begins_of_gives (gives_of_readRule hread).1
      rw [finish_eq_readRule (.inr hhas), hread,
        ← ih (List.append_ne_nil_of_left_ne_nil hne _) hnext]
      rfl
  | case2 rules stream hhas error hread =>
      rw [finish_eq_readRule (.inr hhas), hread]
      rfl
  | case3 rules stream hhas =>
      exact finish_eq_endOfText hne hbegins fun hkind =>
        hhas (has_iff.mpr (List.mem_singleton.mpr hkind))

theorem finish_start_eq_readGrammar (stream : TokenStream) :
    start.finish stream = stream.readGrammar := by
  rw [start, finish_eq_readRule (.inl rfl), readGrammar]
  cases hread : stream.readRule with
  | error error => rfl
  | ok read =>
      obtain ⟨rules, next⟩ := read
      obtain ⟨hgives, hne⟩ := gives_of_readRule hread
      obtain ⟨cursor, hnext⟩ := exists_begins_of_gives hgives
      exact finish_eq_readRules hne hnext

end Reading

/-- Every text is read in the same way by descent and by stages. -/
theorem descend_eq_parse (text : String) : descend text = parse text := by
  rw [descend, parse]
  cases TokenStream.ofText? text with
  | error error => rfl
  | ok stream => exact (Reading.finish_start_eq_readGrammar stream).symm

end TopDown.Definition
