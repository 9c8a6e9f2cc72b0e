import TopDown.Proofs.Definition.Reading

/-!
# The earliest error

The reader looks one token ahead, and yet it judges the tokens as if all of them had been scanned
before. The main statement says that it reports the first token that can stand in no definition at
its place, and an error of the scan only if all tokens in front of that error could be completed.
-/

namespace TopDown.Definition

/-- The tokens of a text, and behind them its end or the error that ends the scan. -/
inductive Scanned where
  | endOfText (token : Token) (hend : token.lexeme = .endOfText)
  | fault (error : Error)
  | next (token : Token) (hend : token.lexeme ≠ .endOfText) (later : Scanned)

namespace Scanned

def tokens : Scanned → List Token
  | .endOfText token _ => [token]
  | .fault _ => []
  | .next token _ later => token :: later.tokens

/-- All tokens, unless the scan ends with an error. -/
def result : Scanned → Except Error (List Token)
  | .endOfText token _ => .ok [token]
  | .fault error => .error error
  | .next token _ later => (token :: ·) <$> later.result

end Scanned

namespace Cursor

variable {cursor next : Cursor} {token : Token} {error : Error}

def scanAll (cursor : Cursor) : Scanned :=
  match _hscan : cursor.scan with
  | (.error error, _) => .fault error
  | (.ok token, next) =>
      if hend : token.lexeme = .endOfText then .endOfText token hend
      else .next token hend next.scanAll
termination_by cursor.ahead.length
decreasing_by exact length_scan_lt _hscan hend

theorem scanAll_of_error (hscan : cursor.scan = (.error error, next)) :
    cursor.scanAll = .fault error := by
  rw [scanAll]
  split <;> simp_all

theorem scanAll_of_end (hscan : cursor.scan = (.ok token, next))
    (hend : token.lexeme = .endOfText) : cursor.scanAll = .endOfText token hend := by
  rw [scanAll]
  split <;> simp_all

theorem scanAll_of_ok (hscan : cursor.scan = (.ok token, next))
    (hend : token.lexeme ≠ .endOfText) : cursor.scanAll = .next token hend next.scanAll := by
  rw [scanAll]
  split <;> simp_all

end Cursor

def scanned (text : String) : Scanned :=
  (Cursor.ofText text.toList).scanAll

theorem Scanned.result_next_eq_error_iff {token : Token} {hend : token.lexeme ≠ .endOfText}
    {later : Scanned} {error : Error} :
    (Scanned.next token hend later).result = .error error ↔ later.result = .error error := by
  rw [result]
  cases later.result <;> simp [Functor.map, Except.map]

theorem Scanned.tokens_of_result {scan : Scanned} {tokens : List Token}
    (hresult : scan.result = .ok tokens) : scan.tokens = tokens := by
  induction scan generalizing tokens with
  | endOfText token _ =>
      cases hresult
      rfl
  | fault error => cases hresult
  | next token _ later ih =>
      rw [result] at hresult
      cases hlater : later.result with
      | error error =>
          rw [hlater] at hresult
          cases hresult
      | ok rest =>
          rw [hlater] at hresult
          cases hresult
          rw [Scanned.tokens, ih hlater]

namespace TokenStream

variable {stream after : TokenStream} {cursor : Cursor} {error : Error}

theorem exists_scan_of_ofCursor? (hstream : ofCursor? cursor = .error error) :
    ∃ next, cursor.scan = (.error error, next) := by
  unfold ofCursor? at hstream
  split at hstream
  · cases hstream
  · rename_i next hscan
    cases hstream
    exact ⟨next, hscan⟩

theorem exists_scan_of_next (hnext : stream.next = (.error error, after)) :
    ∃ next, stream.cursor.scan = (.error error, next) := by
  unfold next at hnext
  split at hnext
  · cases hnext
  · rename_i cursor hscan
    cases hnext
    exact ⟨cursor, hscan⟩

theorem tokens_eq_result (hbegins : stream.Begins cursor) :
    stream.tokens = cursor.scanAll.result := by
  fun_induction TokenStream.tokens stream generalizing cursor with
  | case1 stream hend => rw [Cursor.scanAll_of_end hbegins hend, Scanned.result]
  | case2 stream hend token after hnext ih =>
      obtain ⟨rfl, hafter⟩ := next_eq_ok_iff.mp hnext
      rw [Cursor.scanAll_of_ok hbegins hend, Scanned.result, ih hafter]
  | case3 stream hend error after hnext =>
      obtain ⟨next, hscan⟩ := exists_scan_of_next hnext
      rw [Cursor.scanAll_of_ok hbegins hend, Scanned.result, Cursor.scanAll_of_error hscan]
      rfl

theorem ofText?_cases (text : String) :
    (∃ stream, ofText? text = .ok stream ∧ stream.Begins (.ofText text.toList)) ∨
      ∃ error, ofText? text = .error error ∧ scanned text = .fault error := by
  cases hstream : ofText? text with
  | ok stream => exact .inl ⟨stream, rfl, ofCursor?_eq_ok_iff.mp hstream⟩
  | error error =>
      obtain ⟨_, hscan⟩ := exists_scan_of_ofCursor? hstream
      exact .inr ⟨error, rfl, Cursor.scanAll_of_error hscan⟩

end TokenStream

/-- All tokens of a text are what is scanned of it. -/
theorem tokenize_eq_result (text : String) : tokenize text = (scanned text).result := by
  rcases TokenStream.ofText?_cases text with ⟨stream, hstream, hbegins⟩ | ⟨error, hstream, hfault⟩
  · rw [tokenize, hstream, scanned]
    exact TokenStream.tokens_eq_result hbegins
  · rw [tokenize, hstream, hfault, Scanned.result]

namespace Reading

/-- Judges one token after another, and comes to an error of the scan when all of them are taken. -/
def judge (reading : Reading) : Scanned → Except Error Grammar
  | .endOfText token _ =>
      if reading.isComplete then .ok { rules := reading.rules }
      else .error (.unexpectedToken reading.expected token)
  | .fault error => .error error
  | .next token _ later =>
      match reading.take? token.lexeme with
      | none => .error (.unexpectedToken reading.expected token)
      | some after => after.judge later

/-- The token that a stream is ahead makes no difference. -/
theorem finish_eq_judge {reading : Reading} {stream : TokenStream} {cursor : Cursor}
    (hbegins : stream.Begins cursor) : reading.finish stream = reading.judge cursor.scanAll := by
  fun_induction finish reading stream generalizing cursor with
  | case1 reading stream hend hcomplete =>
      rw [Cursor.scanAll_of_end hbegins hend, judge, if_pos hcomplete]
  | case2 reading stream hend hcomplete =>
      rw [Cursor.scanAll_of_end hbegins hend, judge, if_neg hcomplete]
  | case3 reading stream hend htake =>
      rw [Cursor.scanAll_of_ok hbegins hend, judge, htake]
  | case4 reading stream hend after htake token next hnext ih =>
      obtain ⟨rfl, hbehind⟩ := TokenStream.next_eq_ok_iff.mp hnext
      rw [Cursor.scanAll_of_ok hbegins hend, judge, htake, ih hbehind]
  | case5 reading stream hend after htake error next hnext =>
      obtain ⟨_, hscan⟩ := TokenStream.exists_scan_of_next hnext
      rw [Cursor.scanAll_of_ok hbegins hend, judge, htake, Cursor.scanAll_of_error hscan]
      rfl

end Reading

/-- A text is read by judging what is scanned of it. -/
theorem parse_eq_judge (text : String) : parse text = Reading.start.judge (scanned text) := by
  rcases TokenStream.ofText?_cases text with ⟨stream, hstream, hbegins⟩ | ⟨error, hstream, hfault⟩
  · rw [parse, hstream, scanned]
    exact Reading.finish_eq_judge hbegins
  · rw [parse, hstream, hfault, Reading.judge]

/-! ### Beginnings of definitions

A reader has taken exactly what can be completed to a definition: from every stage there is a way to
the end, and no definition goes on with what a stage refuses. -/

/-- The kinds can be completed to those of a definition. -/
def Kinds.Viable (kinds : List TokenKind) : Prop :=
  ∃ more, kinds ++ more ∈ Kinds.definition

theorem Kinds.Viable.take {kinds : List TokenKind} (hviable : Viable kinds) (count : Nat) :
    Viable (kinds.take count) := by
  obtain ⟨more, hdefinition⟩ := hviable
  refine ⟨kinds.drop count ++ more, ?_⟩
  rw [← List.append_assoc, List.take_append_drop]
  exact hdefinition

theorem Lexeme.kind_surjective : Function.Surjective Lexeme.kind := by
  intro kind
  cases kind with
  | nonterminal => exact ⟨.nonterminal "", rfl⟩
  | terminal => exact ⟨.terminal "", rfl⟩
  | colon => exact ⟨.colon, rfl⟩
  | semicolon => exact ⟨.semicolon, rfl⟩
  | pipe => exact ⟨.pipe, rfl⟩
  | empty => exact ⟨.empty, rfl⟩
  | endOfText => exact ⟨.endOfText, rfl⟩

namespace Reading

variable {reading after : Reading} {lexeme : Lexeme} {lexemes : List Lexeme}

theorem mem_definition_iff_takeAll? :
    lexemes.map Lexeme.kind ∈ Kinds.definition ↔
      ∃ front final, lexemes = front ++ [.endOfText] ∧ start.takeAll? front = some final ∧
        final.isComplete = true := by
  rw [lexemes_mem_definition_iff]
  constructor
  · rintro ⟨clauses, hclauses, rfl⟩
    obtain ⟨final, htake, hcomplete, _⟩ := takeAll?_start_iff.mpr ⟨clauses, hclauses, rfl, rfl⟩
    exact ⟨_, final, rfl, htake, hcomplete⟩
  · rintro ⟨front, final, rfl, htake, hcomplete⟩
    obtain ⟨clauses, hclauses, rfl, _⟩ := takeAll?_start_iff.mp ⟨final, htake, hcomplete, rfl⟩
    exact ⟨clauses, hclauses, rfl⟩

/-- From every stage a definition can be brought to its end. -/
theorem exists_completion (reading : Reading) :
    ∃ more final, reading.takeAll? more = some final ∧ final.isComplete = true := by
  obtain ⟨rules, stage⟩ := reading
  cases stage with
  | betweenRules =>
      exact ⟨[.nonterminal "", .colon, .empty, .semicolon], _, rfl, by simp [isComplete, addRule]⟩
  | afterName name =>
      exact ⟨[.colon, .empty, .semicolon], _, rfl, by simp [isComplete, addRule]⟩
  | alternative name => exact ⟨[.empty, .semicolon], _, rfl, by simp [isComplete, addRule]⟩
  | afterSymbols name symbols => exact ⟨[.semicolon], _, rfl, by simp [isComplete, addRule]⟩
  | afterEmpty name => exact ⟨[.semicolon], _, rfl, by simp [isComplete, addRule]⟩

/-- What can be completed has been taken, except for the end of the text behind a definition. -/
theorem viable_iff :
    Kinds.Viable (lexemes.map Lexeme.kind) ↔
      (∃ reading, start.takeAll? lexemes = some reading) ∨
        ∃ front final, lexemes = front ++ [.endOfText] ∧ start.takeAll? front = some final ∧
          final.isComplete = true := by
  constructor
  · rintro ⟨more, hdefinition⟩
    obtain ⟨others, rfl⟩ := List.map_surjective_iff.mpr Lexeme.kind_surjective more
    rw [← List.map_append, mem_definition_iff_takeAll?] at hdefinition
    obtain ⟨front, final, hfront, htake, hcomplete⟩ := hdefinition
    rcases List.eq_nil_or_concat' others with rfl | ⟨others, last, rfl⟩
    · rw [List.append_nil] at hfront
      exact .inr ⟨front, final, hfront, htake, hcomplete⟩
    · rw [← List.append_assoc] at hfront
      obtain rfl := List.append_inj_left' hfront rfl
      rw [takeAll?_append, Option.bind_eq_some_iff] at htake
      obtain ⟨reading, hreading, _⟩ := htake
      exact .inl ⟨reading, hreading⟩
  · rintro (⟨reading, htake⟩ | ⟨front, final, rfl, htake, hcomplete⟩)
    · obtain ⟨more, final, hmore, hcomplete⟩ := reading.exists_completion
      refine ⟨(more ++ [Lexeme.endOfText]).map Lexeme.kind, ?_⟩
      rw [← List.map_append, mem_definition_iff_takeAll?]
      refine ⟨lexemes ++ more, final, (List.append_assoc ..).symm, ?_, hcomplete⟩
      rw [takeAll?_append, htake, Option.bind_some, hmore]
    · refine ⟨[], ?_⟩
      rw [List.append_nil, mem_definition_iff_takeAll?]
      exact ⟨front, final, rfl, htake, hcomplete⟩

theorem take?_endOfText (reading : Reading) : reading.take? .endOfText = none := by
  obtain ⟨rules, stage⟩ := reading
  cases stage <;> rfl

variable (htake : start.takeAll? lexemes = some reading)
include htake

theorem viable_snoc_iff (hend : lexeme ≠ .endOfText) :
    Kinds.Viable ((lexemes ++ [lexeme]).map Lexeme.kind) ↔
      ∃ after, reading.take? lexeme = some after := by
  have hsnoc : start.takeAll? (lexemes ++ [lexeme]) = reading.take? lexeme := by
    simp [htake]
  rw [viable_iff, hsnoc, or_iff_left]
  rintro ⟨front, _, hfront, _⟩
  exact hend (List.singleton_inj.mp (List.append_inj_right' hfront rfl))

theorem viable_snoc_endOfText_iff :
    Kinds.Viable ((lexemes ++ [Lexeme.endOfText]).map Lexeme.kind) ↔ reading.isComplete = true := by
  have hsnoc : start.takeAll? (lexemes ++ [.endOfText]) = none := by
    simp [htake, take?_endOfText]
  rw [viable_iff, hsnoc]
  constructor
  · rintro (⟨_, hnone⟩ | ⟨front, final, hfront, hfinal, hcomplete⟩)
    · cases hnone
    · obtain rfl := List.append_inj_left' hfront rfl
      rw [htake, Option.some.injEq] at hfinal
      rw [hfinal]
      exact hcomplete
  · intro hcomplete
    exact .inr ⟨lexemes, reading, rfl, htake, hcomplete⟩

end Reading

/-- With the token at this place the kinds cannot be completed any more. -/
def Offends (tokens : List Token) (index : Nat) : Prop :=
  index < tokens.length ∧ ¬Kinds.Viable ((tokens.take (index + 1)).map Token.kind)

/-- The token is the first one with which the kinds cannot be completed any more. -/
def FirstOffender (tokens : List Token) (token : Token) : Prop :=
  ∃ index, tokens[index]? = some token ∧ Offends tokens index ∧
    ∀ earlier < index, ¬Offends tokens earlier

variable {tokens : List Token} {token other : Token}

theorem Offends.not_viable {index : Nat} (hoffends : Offends tokens index) :
    ¬Kinds.Viable (tokens.map Token.kind) := by
  have hnot := hoffends.2
  rw [List.map_take] at hnot
  exact mt (fun hviable => hviable.take (index + 1)) hnot

namespace FirstOffender

theorem unique (hoffender : FirstOffender tokens token) (hother : FirstOffender tokens other) :
    token = other := by
  obtain ⟨index, htoken, hoffends, hfirst⟩ := hoffender
  obtain ⟨index', htoken', hoffends', hfirst'⟩ := hother
  rcases Nat.lt_trichotomy index index' with hlt | rfl | hgt
  · exact absurd hoffends (hfirst' index hlt)
  · rw [htoken, Option.some.injEq] at htoken'
    exact htoken'
  · exact absurd hoffends' (hfirst index' hgt)

theorem of_viable {before after : List Token} (hviable : Kinds.Viable (before.map Token.kind))
    (hnot : ¬Kinds.Viable ((before ++ [token]).map Token.kind)) :
    FirstOffender (before ++ token :: after) token := by
  refine ⟨before.length, by simp, ⟨by simp, ?_⟩, ?_⟩
  · rw [List.append_cons, List.take_left' (by simp)]
    exact hnot
  · rintro earlier hearlier ⟨_, hoffends⟩
    -- what lies in front of the token lies in front of all that can be completed
    rw [List.take_append_of_le_length hearlier, List.map_take] at hoffends
    exact hoffends (hviable.take (earlier + 1))

end FirstOffender

/-- Behind tokens that were taken, the first token that cannot stand at its place is reported, or,
if there is none, the error of the scan. -/
theorem Reading.judge_cases {reading : Reading} (before : List Token) (scan : Scanned)
    (htake : start.takeAll? (before.map Token.lexeme) = some reading) :
    (∃ token expected, FirstOffender (before ++ scan.tokens) token ∧
        reading.judge scan = .error (.unexpectedToken expected token)) ∨
      Kinds.Viable ((before ++ scan.tokens).map Token.kind) ∧
        ∀ error, reading.judge scan = .error error ↔ scan.result = .error error := by
  have hbefore : Kinds.Viable (before.map Token.kind) := by
    rw [map_kind_eq, viable_iff]
    exact .inl ⟨reading, htake⟩
  induction scan generalizing reading before with
  | fault error =>
      rw [Scanned.tokens, List.append_nil, judge, Scanned.result]
      exact .inr ⟨hbefore, by simp⟩
  | endOfText token hend =>
      have hviable := viable_snoc_endOfText_iff htake
      rw [← hend, ← List.map_singleton, ← List.map_append, ← map_kind_eq] at hviable
      rw [Scanned.tokens, judge, Scanned.result]
      by_cases hcomplete : reading.isComplete = true
      · rw [if_pos hcomplete]
        exact .inr ⟨hviable.mpr hcomplete, by simp⟩
      · rw [if_neg hcomplete]
        exact .inl ⟨token, _, .of_viable hbefore (mt hviable.mp hcomplete), rfl⟩
  | next token hend later ih =>
      have hviable := viable_snoc_iff htake hend
      rw [← List.map_singleton, ← List.map_append, ← map_kind_eq] at hviable
      rw [Scanned.tokens, judge]
      cases htoken : reading.take? token.lexeme with
      | none =>
          rw [htoken] at hviable
          have hnot : ¬Kinds.Viable ((before ++ [token]).map Token.kind) := by simpa using hviable
          exact .inl ⟨token, _, .of_viable hbefore hnot, rfl⟩
      | some after =>
          have hnext : start.takeAll? ((before ++ [token]).map Token.lexeme) = some after := by
            simp [htake, htoken]
          have hcases := ih _ hnext (hviable.mpr ⟨after, htoken⟩)
          rw [← List.append_cons] at hcases
          simp only [Scanned.result_next_eq_error_iff]
          exact hcases

/-- A text that cannot be read as a grammar is reported at its earliest error: the first token that
can stand in no definition at its place, or if there is none the error that ends the scan. -/
theorem parse_reports_earliest (text : String) :
    (∀ tokens, tokenize text = .ok tokens → (scanned text).tokens = tokens) ∧
      (∀ token, FirstOffender (scanned text).tokens token →
        ∃ expected, parse text = .error (.unexpectedToken expected token)) ∧
      ((∀ index, ¬Offends (scanned text).tokens index) →
        ∀ error, parse text = .error error ↔ tokenize text = .error error) ∧
      ((∃ error, tokenize text = .error error) → ∃ error, parse text = .error error) := by
  rw [parse_eq_judge, tokenize_eq_result]
  refine ⟨fun tokens => Scanned.tokens_of_result, ?_⟩
  have hcases := Reading.judge_cases [] (scanned text) rfl
  rw [List.nil_append] at hcases
  rcases hcases with ⟨token, expected, hoffender, hjudge⟩ | ⟨hviable, hjudge⟩
  · rw [hjudge]
    refine ⟨?_, ?_, fun _ => ⟨_, rfl⟩⟩
    · intro other hother
      rw [hoffender.unique hother]
      exact ⟨expected, rfl⟩
    · intro hnone
      obtain ⟨index, _, hoffends, _⟩ := hoffender
      exact absurd hoffends (hnone index)
  · refine ⟨?_, fun _ => hjudge, ?_⟩
    · rintro token ⟨index, _, hoffends, _⟩
      exact absurd hviable hoffends.not_viable
    · rintro ⟨error, hresult⟩
      exact ⟨error, (hjudge error).mpr hresult⟩

end TopDown.Definition
