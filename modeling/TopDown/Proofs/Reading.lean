import TopDown.Proofs.Attempt
import TopDown.Proofs.Numbering

/-!
# Reading without a bound

How symbols are read from an input, and how that stops at a token that cannot come next, without a
bound on the open expansions. An attempt that stays below its bound is one of the two.
-/

namespace TopDown

variable {τ : Type}

namespace Input

theorem next_fst (input : Input τ) : input.next.1 = input.peek := by
  obtain ⟨ahead, last, position⟩ := input
  cases ahead <;> rfl

/-- The rest of an input behind some tokens of it. -/
structure Passes (input : Input τ) (tokens : List τ) (rest : Input τ) : Prop where
  ahead_eq : input.ahead = tokens ++ rest.ahead
  last_eq : rest.last = input.last
  position_eq : rest.position = input.position + tokens.length

namespace Passes

variable {input middle rest : Input τ} {tokens left right : List τ}

theorem nil (input : Input τ) : input.Passes [] input :=
  ⟨rfl, rfl, rfl⟩

theorem append (hleft : input.Passes left middle) (hright : middle.Passes right rest) :
    input.Passes (left ++ right) rest where
  ahead_eq := by rw [hleft.ahead_eq, hright.ahead_eq, List.append_assoc]
  last_eq := by rw [hright.last_eq, hleft.last_eq]
  position_eq := by
    rw [hright.position_eq, hleft.position_eq, List.length_append]
    omega

theorem append_split (hpasses : input.Passes (left ++ right) rest) :
    ∃ middle, input.Passes left middle ∧ middle.Passes right rest := by
  refine ⟨⟨right ++ rest.ahead, input.last, input.position + left.length⟩, ?_, ?_⟩
  · exact ⟨by rw [hpasses.ahead_eq, List.append_assoc], rfl, rfl⟩
  · refine ⟨rfl, hpasses.last_eq, ?_⟩
    rw [hpasses.position_eq, List.length_append, Nat.add_assoc]

theorem next {token : τ} (hpasses : input.Passes (token :: tokens) rest) :
    input.next.1 = token ∧ input.next.2.Passes tokens rest := by
  obtain ⟨hahead, hlast, hposition⟩ := hpasses
  obtain ⟨ahead, last, position⟩ := input
  dsimp only at hahead hlast hposition
  subst hahead
  refine ⟨rfl, rfl, hlast, ?_⟩
  change rest.position = position + 1 + tokens.length
  rw [hposition, List.length_cons]
  omega

theorem eq_of_nil (hpasses : input.Passes [] rest) : rest = input := by
  obtain ⟨hahead, hlast, hposition⟩ := hpasses
  obtain ⟨ahead, last, position⟩ := input
  obtain ⟨ahead', last', position'⟩ := rest
  simp_all

theorem tokens_eq (hpasses : input.Passes left rest) (hpasses' : input.Passes right rest) :
    left = right := by
  have hahead := hpasses.ahead_eq
  rw [hpasses'.ahead_eq] at hahead
  exact (List.append_cancel_right hahead).symm

theorem position_le (hpasses : input.Passes tokens rest) : input.position ≤ rest.position := by
  rw [hpasses.position_eq]
  omega

end Passes

variable [InputToken τ] {input rest : Input τ} {tokens : List τ}

theorem Passes.kind_peek (hpasses : input.Passes tokens rest) :
    InputToken.kind input.peek =
      (tokens.map InputToken.kind).headD (InputToken.kind rest.peek) := by
  rw [peek, hpasses.ahead_eq]
  cases tokens with
  | nil => rw [peek, hpasses.last_eq, List.nil_append, List.map_nil, List.headD_nil]
  | cons token tokens => rfl

/-- Only the last token stands at the end of the input, so any other kind is passed. -/
theorem passes_next (hlast : InputToken.kind input.last = .endOfInput)
    (hkind : InputToken.kind input.peek ≠ .endOfInput) :
    input.Passes [input.next.1] input.next.2 := by
  obtain ⟨ahead, last, position⟩ := input
  cases ahead with
  | nil => exact absurd hlast hkind
  | cons token ahead => exact ⟨rfl, rfl, rfl⟩

end Input

namespace Analysis

variable [InputToken τ]

/-- The symbols are read from the input as the trees, by expanding the rules in order. -/
inductive Reads (analysis : Analysis) : List NumberedSymbol → Input τ → List (Tree τ) → Input τ →
    List Nat → Prop
  | nil {input : Input τ} : Reads analysis [] input [] input []
  | token {id : Nat} {symbols : List NumberedSymbol} {input rest : Input τ} {trees : List (Tree τ)}
      {expanded : List Nat} (hkind : InputToken.kind input.peek = analysis.numbering.lookahead id)
      (hlater : Reads analysis symbols input.next.2 trees rest expanded) :
      Reads analysis (.terminal id :: symbols) input (.leaf input.next.1 :: trees) rest expanded
  | expand {nonterminal index : Nat} {symbols : List NumberedSymbol} {input middle rest : Input τ}
      {children trees : List (Tree τ)} {inner expanded : List Nat}
      (hselect : analysis.select? nonterminal (InputToken.kind input.peek) = some index)
      (hchildren : Reads analysis (analysis.grammar.production index) input children middle inner)
      (hlater : Reads analysis symbols middle trees rest expanded) :
      Reads analysis (.nonterminal nonterminal :: symbols) input
        (.node (analysis.numbering.nonterminalName nonterminal) children :: trees) rest
        (index :: inner ++ expanded)

/-- The symbol cannot begin with what is seen, but with any of the lookaheads expected. -/
inductive Refuses (analysis : Analysis) (seen : Lookahead) : NumberedSymbol → List Lookahead → Prop
  | terminal {id : Nat} (hseen : seen ≠ analysis.numbering.lookahead id) :
      Refuses analysis seen (.terminal id) [analysis.numbering.lookahead id]
  | nonterminal {id : Nat} (hselect : analysis.select? id seen = none) :
      Refuses analysis seen (.nonterminal id) (analysis.predictAnyLookaheads id)

/-- The symbols are read up to an input whose current token the next symbol refuses. -/
inductive Stops (analysis : Analysis) : List NumberedSymbol → Input τ → List Lookahead → Input τ →
    List Nat → Prop
  | refuse {symbol : NumberedSymbol} {symbols : List NumberedSymbol} {input : Input τ}
      {expected : List Lookahead}
      (hrefuses : analysis.Refuses (InputToken.kind input.peek) symbol expected) :
      Stops analysis (symbol :: symbols) input expected input []
  | inside {nonterminal index : Nat} {symbols : List NumberedSymbol} {input rest : Input τ}
      {expected : List Lookahead} {inner : List Nat}
      (hselect : analysis.select? nonterminal (InputToken.kind input.peek) = some index)
      (hstops : Stops analysis (analysis.grammar.production index) input expected rest inner) :
      Stops analysis (.nonterminal nonterminal :: symbols) input expected rest (index :: inner)
  | behind {symbol : NumberedSymbol} {symbols : List NumberedSymbol} {input middle rest : Input τ}
      {trees : List (Tree τ)} {expected : List Lookahead} {inner expanded : List Nat}
      (hreads : Reads analysis [symbol] input trees middle inner)
      (hstops : Stops analysis symbols middle expected rest expanded) :
      Stops analysis (symbol :: symbols) input expected rest (inner ++ expanded)

/-- An attempt to read the symbols has succeeded or stopped, unless it ran out of expansions. -/
def Settles (analysis : Analysis) (symbols : List NumberedSymbol) (input : Input τ)
    (attempt : Attempt τ (List (Tree τ))) : Prop :=
  match attempt.outcome with
  | .ok trees => analysis.Reads symbols input trees attempt.rest attempt.expanded
  | .error (.unexpectedToken expected found) =>
      found = attempt.rest.peek ∧
        analysis.Stops symbols input expected attempt.rest attempt.expanded
  | .error .depthExceeded => True

variable {analysis : Analysis} {symbol : NumberedSymbol} {symbols left right : List NumberedSymbol}
  {input middle rest : Input τ} {trees trees' : List (Tree τ)} {expected : List Lookahead}
  {inner expanded : List Nat}

theorem Reads.append (hleft : analysis.Reads left input trees middle inner)
    (hright : analysis.Reads right middle trees' rest expanded) :
    analysis.Reads (left ++ right) input (trees ++ trees') rest (inner ++ expanded) := by
  induction hleft with
  | nil => exact hright
  | token hkind _ ih => exact .token hkind (ih hright)
  | expand hselect hchildren _ _ ih =>
      have hreads := Reads.expand hselect hchildren (ih hright)
      rw [← List.append_assoc] at hreads
      exact hreads

theorem Stops.append_right (hstops : analysis.Stops left input expected rest expanded)
    (right : List NumberedSymbol) :
    analysis.Stops (left ++ right) input expected rest expanded := by
  induction hstops with
  | refuse hrefuses => exact .refuse hrefuses
  | inside hselect hstops _ => exact .inside hselect hstops
  | behind hreads _ ih => exact .behind hreads ih

theorem Reads.cons_split
    (hreads : analysis.Reads (symbol :: symbols) input trees rest expanded) :
    ∃ tree later middle inner outer, trees = tree :: later ∧
      analysis.Reads [symbol] input [tree] middle inner ∧
      analysis.Reads symbols middle later rest outer := by
  cases hreads with
  | token hkind hlater => exact ⟨_, _, _, _, _, rfl, .token hkind .nil, hlater⟩
  | expand hselect hchildren hlater =>
      exact ⟨_, _, _, _, _, rfl, .expand hselect hchildren .nil, hlater⟩

/-! ### No choice

At every token at most one rule is selected, so symbols are read in at most one way, and they are
not both read and stopped at. -/

theorem Reads.unique {rest' : Input τ} {expanded' : List Nat}
    (hreads : analysis.Reads symbols input trees rest expanded)
    (hreads' : analysis.Reads symbols input trees' rest' expanded') :
    trees' = trees ∧ rest' = rest ∧ expanded' = expanded := by
  induction hreads generalizing trees' rest' expanded' with
  | nil =>
      cases hreads'
      exact ⟨rfl, rfl, rfl⟩
  | token _ _ ih =>
      cases hreads' with
      | token _ hlater =>
          obtain ⟨rfl, rfl, rfl⟩ := ih hlater
          exact ⟨rfl, rfl, rfl⟩
  | expand hselect _ _ ihchildren ih =>
      cases hreads' with
      | expand hselect' hchildren hlater =>
          rw [hselect, Option.some.injEq] at hselect'
          subst hselect'
          obtain ⟨rfl, rfl, rfl⟩ := ihchildren hchildren
          obtain ⟨rfl, rfl, rfl⟩ := ih hlater
          exact ⟨rfl, rfl, rfl⟩

theorem Stops.not_reads {rest' : Input τ} {expanded' : List Nat}
    (hstops : analysis.Stops symbols input expected rest expanded) :
    ¬ analysis.Reads symbols input trees rest' expanded' := by
  induction hstops generalizing trees rest' expanded' with
  | refuse hrefuses =>
      intro hreads
      cases hrefuses with
      | terminal hseen =>
          cases hreads with
          | token hkind _ => exact hseen hkind
      | nonterminal hselect =>
          cases hreads with
          | expand hselect' _ _ =>
              rw [hselect] at hselect'
              cases hselect'
  | inside hselect _ ih =>
      intro hreads
      cases hreads with
      | expand hselect' hchildren _ =>
          rw [hselect, Option.some.injEq] at hselect'
          subst hselect'
          exact ih hchildren
  | behind hfirst _ ih =>
      intro hreads
      obtain ⟨_, _, _, _, _, _, hfirst', hlater⟩ := hreads.cons_split
      obtain ⟨_, rfl, _⟩ := hfirst.unique hfirst'
      exact ih hlater

theorem Refuses.unique {seen : Lookahead} {expected' : List Lookahead}
    (hrefuses : analysis.Refuses seen symbol expected)
    (hrefuses' : analysis.Refuses seen symbol expected') : expected' = expected := by
  cases hrefuses <;> cases hrefuses' <;> rfl

theorem Stops.unique {rest' : Input τ} {expected' : List Lookahead} {expanded' : List Nat}
    (hstops : analysis.Stops symbols input expected rest expanded)
    (hstops' : analysis.Stops symbols input expected' rest' expanded') :
    expected' = expected ∧ rest' = rest := by
  induction hstops generalizing expected' rest' expanded' with
  | refuse hrefuses =>
      cases hstops' with
      | refuse hrefuses' => exact ⟨hrefuses.unique hrefuses', rfl⟩
      | inside hselect _ =>
          cases hrefuses with
          | nonterminal hnone =>
              rw [hnone] at hselect
              cases hselect
      | behind hreads _ => exact absurd hreads (Stops.refuse hrefuses).not_reads
  | inside hselect hinner ih =>
      cases hstops' with
      | refuse hrefuses =>
          cases hrefuses with
          | nonterminal hnone =>
              rw [hnone] at hselect
              cases hselect
      | inside hselect' hinner' =>
          rw [hselect, Option.some.injEq] at hselect'
          subst hselect'
          exact ih hinner'
      | behind hreads _ => exact absurd hreads (Stops.inside hselect hinner).not_reads
  | behind hreads _ ih =>
      cases hstops' with
      | refuse hrefuses => exact absurd hreads (Stops.refuse hrefuses).not_reads
      | inside hselect hinner => exact absurd hreads (Stops.inside hselect hinner).not_reads
      | behind hreads' hlater =>
          obtain ⟨_, rfl, _⟩ := hreads.unique hreads'
          exact ih hlater

/-- What comes behind a symbol is read from where the symbol ends. -/
theorem Settles.andThen {first : Attempt τ (Tree τ)} {later : Input τ → Attempt τ (List (Tree τ))}
    (hfirst : analysis.Settles [symbol] input (first.map ([·])))
    (hlater : ∀ rest, analysis.Settles symbols rest (later rest)) :
    analysis.Settles (symbol :: symbols) input
      (first.andThen fun tree rest => (later rest).map (tree :: ·)) := by
  obtain ⟨outcome, middle, inner⟩ := first
  cases outcome with
  | ok tree =>
      have hsettles := hlater middle
      unfold Settles at hsettles
      unfold Attempt.andThen
      dsimp only
      cases houtcome : (later middle).outcome with
      | ok trees =>
          rw [houtcome] at hsettles
          simp only [Settles, Attempt.map, houtcome, Except.map]
          exact Reads.append hfirst hsettles
      | error error =>
          rw [houtcome] at hsettles
          cases error with
          | unexpectedToken expected found =>
              simp only [Settles, Attempt.map, houtcome, Except.map]
              exact ⟨hsettles.1, .behind hfirst hsettles.2⟩
          | depthExceeded => simp only [Settles, Attempt.map, houtcome, Except.map]
  | error error =>
      cases error with
      | unexpectedToken expected found => exact ⟨hfirst.1, hfirst.2.append_right symbols⟩
      | depthExceeded => trivial

theorem settles_parseSymbols {parse : Nat → Input τ → Attempt τ (Tree τ)}
    (hparse : ∀ nonterminal input,
      analysis.Settles [.nonterminal nonterminal] input ((parse nonterminal input).map ([·])))
    (symbols : List NumberedSymbol) (input : Input τ) :
    analysis.Settles symbols input (analysis.parseSymbols parse symbols input) := by
  induction symbols generalizing input with
  | nil => exact .nil
  | cons symbol symbols ih =>
      rw [parseSymbols_cons]
      refine Settles.andThen ?_ ih
      cases symbol with
      | terminal id =>
          by_cases hkind : InputToken.kind input.peek = analysis.numbering.lookahead id
          · rw [parseSymbol, Attempt.token_of_eq hkind]
            exact .token hkind .nil
          · rw [parseSymbol, Attempt.token_of_ne hkind]
            exact ⟨rfl, .refuse (.terminal hkind)⟩
      | nonterminal id => exact hparse id input

theorem settles_parseNonterminal (depth nonterminal : Nat) (input : Input τ) :
    analysis.Settles [.nonterminal nonterminal] input
      ((analysis.parseNonterminal depth nonterminal input).map ([·])) := by
  induction depth generalizing nonterminal input with
  | zero => trivial
  | succ depth ih =>
      cases hselect : analysis.select? nonterminal (InputToken.kind input.peek) with
      | none =>
          rw [parseNonterminal, hselect]
          exact ⟨rfl, .refuse (.nonterminal hselect)⟩
      | some index =>
          have hsettles := settles_parseSymbols ih (analysis.grammar.production index) input
          rw [parseNonterminal, hselect]
          cases houtcome : (analysis.parseSymbols (analysis.parseNonterminal depth)
              (analysis.grammar.production index) input).outcome with
          | ok children =>
              simp only [Settles, houtcome] at hsettles
              have hreads := Reads.expand hselect hsettles .nil
              rw [List.append_nil] at hreads
              simp only [Settles, Attempt.map, houtcome, Except.map]
              exact hreads
          | error error =>
              cases error with
              | unexpectedToken expected found =>
                  simp only [Settles, houtcome] at hsettles
                  simp only [Settles, Attempt.map, houtcome, Except.map]
                  exact ⟨hsettles.1, .inside hselect hsettles.2⟩
              | depthExceeded => simp only [Settles, Attempt.map, houtcome, Except.map]

theorem settles (analysis : Analysis) (depth : Nat) (symbols : List NumberedSymbol)
    (input : Input τ) :
    analysis.Settles symbols input
      (analysis.parseSymbols (analysis.parseNonterminal depth) symbols input) :=
  settles_parseSymbols (settles_parseNonterminal depth) symbols input

end Analysis

end TopDown
