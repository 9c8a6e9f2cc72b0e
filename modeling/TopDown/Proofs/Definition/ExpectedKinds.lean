import TopDown.Proofs.Definition.EarliestError

/-!
# Expected kinds

An error names the kinds of tokens that it expects in place of the token it reports. The main
statement says that these are the kinds that can stand there, less some that were tried before: `!`
where an alternative begins, and a further symbol behind the symbols of an alternative.
-/

namespace TopDown.Definition

namespace Kinds

/-- The kinds end with what an alternative has so far: symbols behind a colon or a pipe. -/
def EndsInAlternative (kinds symbols : List TokenKind) : Prop :=
  ∃ front mark, kinds = front ++ mark :: symbols ∧ (mark = .colon ∨ mark = .pipe) ∧
    ∀ kind ∈ symbols, [kind] ∈ symbol

/-- The kinds that no error names although they can come next. -/
inductive LeftOut (before : List TokenKind) : TokenKind → Prop
  | empty (hends : EndsInAlternative before []) : LeftOut before .empty
  | symbol {symbols : List TokenKind} {kind : TokenKind} (hends : EndsInAlternative before symbols)
      (hsome : symbols ≠ []) (hkind : [kind] ∈ symbol) : LeftOut before kind

variable {before symbols : List TokenKind} {kind : TokenKind}

theorem mem_symbol_iff : [kind] ∈ symbol ↔ kind = .nonterminal ∨ kind = .terminal := by
  rw [symbol, Language.mem_add]
  change [kind] = [_] ∨ [kind] = [_] ↔ _
  simp

theorem not_endsInAlternative_nil : ¬EndsInAlternative [] symbols := by
  rintro ⟨front, mark, hsplit, _⟩
  simp at hsplit

theorem endsInAlternative_snoc_iff :
    EndsInAlternative (before ++ [kind]) symbols ↔
      (symbols = [] ∧ (kind = .colon ∨ kind = .pipe)) ∨
        ∃ earlier, symbols = earlier ++ [kind] ∧ [kind] ∈ symbol ∧
          EndsInAlternative before earlier := by
  constructor
  · rintro ⟨front, mark, hsplit, hmark, hsymbols⟩
    rcases List.eq_nil_or_concat' symbols with rfl | ⟨earlier, last, rfl⟩
    · obtain ⟨_, hlast⟩ := List.append_inj' hsplit rfl
      obtain rfl := List.singleton_inj.mp hlast
      exact .inl ⟨rfl, hmark⟩
    · rw [← List.cons_append, ← List.append_assoc] at hsplit
      obtain ⟨rfl, hlast⟩ := List.append_inj' hsplit rfl
      obtain rfl := List.singleton_inj.mp hlast
      exact .inr ⟨earlier, rfl, hsymbols kind (by simp),
        front, mark, rfl, hmark, fun other hother => hsymbols other (by simp [hother])⟩
  · rintro (⟨rfl, hmark⟩ | ⟨earlier, rfl, hkind, front, mark, rfl, hmark, hearlier⟩)
    · exact ⟨before, kind, rfl, hmark, by simp⟩
    · refine ⟨front, mark, by simp, hmark, fun other hother => ?_⟩
      rcases List.mem_append.mp hother with hother | hother
      · exact hearlier other hother
      · obtain rfl := List.mem_singleton.mp hother
        exact hkind

end Kinds

/-! ### What a stage expects

A stage knows the symbols of the alternative that it is in, and with them which kinds are left out.
What it expects is what it allows less these kinds. -/

/-- The kinds of the symbols of an alternative that a stage is in. -/
def Stage.symbolKinds? : Stage → Option (List TokenKind)
  | .alternative _ => some []
  | .afterSymbols _ symbols => some (symbols.map fun symbol => symbol.lexeme.kind)
  | _ => none

namespace Reading

variable {reading after : Reading} {lexeme : Lexeme} {lexemes : List Lexeme}

/-- A token that is taken adds to the symbols of an alternative, or it begins one. -/
theorem symbolKinds?_of_take? (htake : reading.take? lexeme = some after)
    {symbols : List TokenKind} :
    after.stage.symbolKinds? = some symbols ↔
      (symbols = [] ∧ (lexeme.kind = .colon ∨ lexeme.kind = .pipe)) ∨
        ∃ earlier, symbols = earlier ++ [lexeme.kind] ∧ [lexeme.kind] ∈ Kinds.symbol ∧
          reading.stage.symbolKinds? = some earlier := by
  simp only [Kinds.mem_symbol_iff]
  obtain ⟨rules, stage⟩ := reading
  cases stage <;> cases lexeme <;> cases htake <;>
    simp [Stage.symbolKinds?, Lexeme.kind, Symbol.lexeme, addRule, eq_comm]

/-- The stage knows the symbols of the alternative that the tokens so far end in. -/
theorem symbolKinds?_iff (htake : start.takeAll? lexemes = some reading)
    {symbols : List TokenKind} :
    reading.stage.symbolKinds? = some symbols ↔
      Kinds.EndsInAlternative (lexemes.map Lexeme.kind) symbols := by
  induction lexemes using List.reverseRec generalizing reading symbols with
  | nil =>
      cases htake
      exact iff_of_false nofun Kinds.not_endsInAlternative_nil
  | append_singleton lexemes lexeme ih =>
      rw [takeAll?_append, Option.bind_eq_some_iff] at htake
      obtain ⟨earlier, hearlier, hlast⟩ := htake
      have htaken : earlier.take? lexeme = some reading := by simpa using hlast
      rw [List.map_append, List.map_singleton, Kinds.endsInAlternative_snoc_iff,
        symbolKinds?_of_take? htaken]
      simp only [ih hearlier]

/-- Behind the symbols of an alternative there is at least one symbol. -/
theorem LedTo.symbols_ne_nil {rules : List Rule} {name : String} {symbols : List Symbol}
    (hled : LedTo { rules := rules, stage := .afterSymbols name symbols } lexemes) :
    symbols ≠ [] := by
  generalize hreading : Reading.mk rules (.afterSymbols name symbols) = reading at hled
  cases hled with
  | behind clauses name done production =>
      cases production with
      | nil => cases hreading
      | cons symbol others =>
          cases hreading
          exact List.cons_ne_nil symbol others
  | _ => cases hreading

/-- The kinds of the tokens that are taken, and the end of the text if it is accepted. -/
def allowed (reading : Reading) : List TokenKind :=
  match reading.stage with
  | .alternative _ => .empty :: reading.expected
  | .afterSymbols _ _ => .nonterminal :: .terminal :: reading.expected
  | _ => reading.expected

section Reached

variable (htake : start.takeAll? lexemes = some reading) {kind : TokenKind}
include htake

theorem viable_snoc_kind_iff :
    Kinds.Viable (lexemes.map Lexeme.kind ++ [kind]) ↔ kind ∈ reading.allowed := by
  obtain ⟨lexeme, rfl⟩ := Lexeme.kind_surjective kind
  rw [← List.map_singleton, ← List.map_append]
  by_cases hend : lexeme = .endOfText
  · rw [hend, viable_snoc_endOfText_iff htake, isComplete_iff]
    obtain ⟨rules, stage⟩ := reading
    cases stage <;> cases rules <;> simp [allowed, expected, Lexeme.kind]
  · rw [viable_snoc_iff htake hend]
    obtain ⟨rules, stage⟩ := reading
    cases stage <;> cases lexeme <;> cases rules <;>
      simp [allowed, expected, take?, Lexeme.kind] at hend ⊢

/-- What is left out is what the stage allows but does not expect. -/
theorem leftOut_iff :
    Kinds.LeftOut (lexemes.map Lexeme.kind) kind ↔
      kind ∈ reading.allowed ∧ kind ∉ reading.expected := by
  have hled : LedTo reading lexemes := (LedTo.betweenRules []).takeAll? htake
  constructor
  · intro hleft
    cases hleft with
    | empty hends =>
        have hstage := (symbolKinds?_iff htake).mpr hends
        obtain ⟨rules, stage⟩ := reading
        cases stage <;> simp [Stage.symbolKinds?] at hstage
        case alternative => simp [allowed, expected]
        case afterSymbols => exact absurd hstage hled.symbols_ne_nil
    | symbol hends hsome hkind =>
        have hstage := (symbolKinds?_iff htake).mpr hends
        rw [Kinds.mem_symbol_iff] at hkind
        obtain ⟨rules, stage⟩ := reading
        cases stage <;> simp only [Stage.symbolKinds?, Option.some.injEq, reduceCtorEq] at hstage
        case alternative => exact absurd hstage.symm hsome
        case afterSymbols => rcases hkind with rfl | rfl <;> simp [allowed, expected]
  · rintro ⟨hallowed, hexpected⟩
    obtain ⟨rules, stage⟩ := reading
    cases stage with
    | alternative name =>
        obtain rfl : kind = .empty := (List.mem_cons.mp hallowed).resolve_right hexpected
        exact .empty ((symbolKinds?_iff htake).mp rfl)
    | afterSymbols name symbols =>
        have hsymbol : kind = .nonterminal ∨ kind = .terminal := by
          simpa [allowed, hexpected] using hallowed
        refine .symbol ((symbolKinds?_iff htake).mp rfl) ?_ (Kinds.mem_symbol_iff.mpr hsymbol)
        simpa using hled.symbols_ne_nil
    | _ => exact absurd hallowed hexpected

/-- A reading expects what can come next and is not left out. -/
theorem mem_expected_iff :
    kind ∈ reading.expected ↔
      Kinds.Viable (lexemes.map Lexeme.kind ++ [kind]) ∧
        ¬Kinds.LeftOut (lexemes.map Lexeme.kind) kind := by
  have hsubset : kind ∈ reading.expected → kind ∈ reading.allowed := by
    obtain ⟨rules, stage⟩ := reading
    cases stage <;> simp only [allowed, List.mem_cons] <;> tauto
  rw [viable_snoc_kind_iff htake, leftOut_iff htake]
  tauto

end Reached

variable {reading : Reading} {expected : List TokenKind} {found : Token}

/-- The token that is reported was refused at the reading whose kinds the error names. -/
theorem exists_refusal_of_judge (before : List Token) (scan : Scanned)
    (htake : start.takeAll? (before.map Token.lexeme) = some reading)
    (hscan : scan.result ≠ .error (.unexpectedToken expected found))
    (hjudge : reading.judge scan = .error (.unexpectedToken expected found)) :
    ∃ front back refusing, scan.tokens = front ++ found :: back ∧
      start.takeAll? ((before ++ front).map Token.lexeme) = some refusing ∧
      expected = refusing.expected ∧
      ¬Kinds.Viable ((before ++ front ++ [found]).map Token.kind) := by
  induction scan generalizing reading before with
  | fault error =>
      cases hjudge
      exact absurd rfl hscan
  | endOfText token hend =>
      rw [judge] at hjudge
      split at hjudge
      · cases hjudge
      · rename_i hcomplete
        cases hjudge
        refine ⟨[], [], reading, rfl, by simpa using htake, rfl, ?_⟩
        have hviable := viable_snoc_endOfText_iff htake
        rw [← hend, ← List.map_singleton, ← List.map_append, ← map_kind_eq] at hviable
        rw [List.append_nil, hviable]
        exact hcomplete
  | next token hend later ih =>
      rw [judge] at hjudge
      cases htoken : reading.take? token.lexeme with
      | none =>
          rw [htoken] at hjudge
          cases hjudge
          refine ⟨[], later.tokens, reading, rfl, by simpa using htake, rfl, ?_⟩
          have hviable := viable_snoc_iff htake hend
          rw [← List.map_singleton, ← List.map_append, ← map_kind_eq, htoken] at hviable
          rw [List.append_nil, hviable]
          simp
      | some after =>
          rw [htoken] at hjudge
          rw [ne_eq, Scanned.result_next_eq_error_iff] at hscan
          obtain ⟨front, back, refusing, htokens, hfront, hexpected, hnot⟩ :=
            ih (before ++ [token]) (by simp [htake, htoken]) hscan hjudge
          refine ⟨token :: front, back, refusing, ?_, ?_, hexpected, ?_⟩
          · rw [Scanned.tokens, htokens, List.cons_append]
          · rw [List.append_cons]
            exact hfront
          · rw [List.append_cons before]
            exact hnot

end Reading

variable {text : String} {expected : List TokenKind} {found : Token}

/-- No scan ends with a token that it has read. -/
theorem Cursor.result_scanAll_ne (cursor : Cursor) :
    cursor.scanAll.result ≠ .error (.unexpectedToken expected found) := by
  fun_induction Cursor.scanAll cursor with
  | case1 cursor error next hscan =>
      intro hresult
      obtain rfl : error = .unexpectedToken expected found := by
        simpa [Scanned.result] using hresult
      unfold Cursor.scan at hscan
      dsimp only at hscan
      split at hscan <;> simp at hscan
  | case2 => simp [Scanned.result]
  | case3 cursor token next hscan hend ih =>
      rw [ne_eq, Scanned.result_next_eq_error_iff]
      exact ih

/-- The kinds that an error expects are those that can come behind the tokens in front of the
reported one, except for those that are left out, and these can come there as well. -/
theorem parse_expected_exact (hparse : parse text = .error (.unexpectedToken expected found)) :
    ∃ before after, (scanned text).tokens = before ++ found :: after ∧
      Kinds.Viable (before.map Token.kind) ∧
      ¬Kinds.Viable ((before ++ [found]).map Token.kind) ∧
      ∀ kind,
        (kind ∈ expected ↔ Kinds.Viable (before.map Token.kind ++ [kind]) ∧
          ¬Kinds.LeftOut (before.map Token.kind) kind) ∧
        (Kinds.LeftOut (before.map Token.kind) kind →
          Kinds.Viable (before.map Token.kind ++ [kind])) := by
  rw [parse_eq_judge] at hparse
  obtain ⟨before, after, refusing, htokens, htake, rfl, hnot⟩ :=
    Reading.exists_refusal_of_judge [] (scanned text) rfl (Cursor.result_scanAll_ne _) hparse
  rw [List.nil_append] at htake hnot
  refine ⟨before, after, htokens, ?_, hnot, ?_⟩
  · rw [map_kind_eq, Reading.viable_iff]
    exact .inl ⟨refusing, htake⟩
  · intro kind
    rw [map_kind_eq]
    refine ⟨Reading.mem_expected_iff htake, fun hleft => ?_⟩
    exact (Reading.viable_snoc_kind_iff htake).mpr ((Reading.leftOut_iff htake).mp hleft).1

/-- A pipe where an alternative should begin. -/
theorem pipe_expected_exact :
    parse "a: | 'x';" = .error (.unexpectedToken [.nonterminal, .terminal] ⟨.pipe, ⟨3, 1, 4⟩⟩) ∧
      ∀ kind, kind ∈ [TokenKind.nonterminal, .terminal] ↔
        Kinds.Viable [.nonterminal, .colon, kind] ∧
          ¬Kinds.LeftOut [.nonterminal, .colon] kind := by
  have hparse : parse "a: | 'x';" =
      .error (.unexpectedToken [.nonterminal, .terminal] ⟨.pipe, ⟨3, 1, 4⟩⟩) := by decide +kernel
  have htokens : (scanned "a: | 'x';").tokens =
      [⟨.nonterminal "a", ⟨0, 1, 1⟩⟩, ⟨.colon, ⟨1, 1, 2⟩⟩] ++ ⟨.pipe, ⟨3, 1, 4⟩⟩ ::
        [⟨.terminal "x", ⟨5, 1, 6⟩⟩, ⟨.semicolon, ⟨8, 1, 9⟩⟩, ⟨.endOfText, ⟨9, 1, 10⟩⟩] := by
    decide +kernel
  obtain ⟨before, after, hsplit, _, _, hexact⟩ := parse_expected_exact hparse
  rw [htokens, List.append_cons_inj_of_notMem (by decide) (by decide)] at hsplit
  obtain ⟨rfl, _⟩ := hsplit
  exact ⟨hparse, fun kind => (hexact kind).1⟩

/-- Errors do not name `!` where an alternative begins, nor symbols behind another symbol. -/
theorem parse_expected_incomplete :
    parse "a: | 'x';" = .error (.unexpectedToken [.nonterminal, .terminal] ⟨.pipe, ⟨3, 1, 4⟩⟩) ∧
      (scanned "a: | 'x';").tokens.take 3 =
        [⟨.nonterminal "a", ⟨0, 1, 1⟩⟩, ⟨.colon, ⟨1, 1, 2⟩⟩, ⟨.pipe, ⟨3, 1, 4⟩⟩] ∧
      ¬(TokenKind.empty ∈ [TokenKind.nonterminal, .terminal] ↔
        Kinds.Viable [.nonterminal, .colon, .empty]) ∧
      parse "a: 'x'" = .error (.unexpectedToken [.pipe, .semicolon] ⟨.endOfText, ⟨6, 1, 7⟩⟩) ∧
      (scanned "a: 'x'").tokens =
        [⟨.nonterminal "a", ⟨0, 1, 1⟩⟩, ⟨.colon, ⟨1, 1, 2⟩⟩, ⟨.terminal "x", ⟨3, 1, 4⟩⟩,
          ⟨.endOfText, ⟨6, 1, 7⟩⟩] ∧
      ¬(TokenKind.terminal ∈ [TokenKind.pipe, .semicolon] ↔
        Kinds.Viable [.nonterminal, .colon, .terminal, .terminal]) := by
  have hempty : Kinds.Viable ([.nonterminal "a", .colon, .empty].map Lexeme.kind) :=
    Reading.viable_iff.mpr (.inl ⟨_, rfl⟩)
  have hsymbol :
      Kinds.Viable ([.nonterminal "a", .colon, .terminal "x", .terminal "x"].map Lexeme.kind) :=
    Reading.viable_iff.mpr (.inl ⟨_, rfl⟩)
  refine ⟨by decide +kernel, by decide +kernel, fun hiff => ?_, by decide +kernel,
    by decide +kernel, fun hiff => ?_⟩
  · exact absurd (hiff.mpr hempty) (by decide)
  · exact absurd (hiff.mpr hsymbol) (by decide)

end TopDown.Definition
