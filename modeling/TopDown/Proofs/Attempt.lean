import TopDown.Parsing.Parser

/-!
# Attempts one after another

The symbols of a production are read one after another, terminals and nonterminals alike. A bound on
the open expansions that is not exceeded has no effect.
-/

namespace TopDown

variable {τ α β γ : Type}

namespace Attempt

/-- The attempt ran out of expansions. -/
def Exceeds (attempt : Attempt τ α) : Prop :=
  attempt.outcome = .error .depthExceeded

variable {attempt : Attempt τ α} {next next' : α → Input τ → Attempt τ β}

theorem map_andThen (attempt : Attempt τ α) (convert : α → β) (next : β → Input τ → Attempt τ γ) :
    (attempt.map convert).andThen next = attempt.andThen fun value => next (convert value) := by
  obtain ⟨outcome, rest, expanded⟩ := attempt
  cases outcome <;> rfl

theorem andThen_map (attempt : Attempt τ α) (next : α → Input τ → Attempt τ β)
    (convert : β → γ) :
    (attempt.andThen next).map convert =
      attempt.andThen fun value rest => (next value rest).map convert := by
  obtain ⟨outcome, rest, expanded⟩ := attempt
  cases outcome <;> rfl

theorem map_id (attempt : Attempt τ α) : attempt.map (fun value => value) = attempt := by
  obtain ⟨outcome, rest, expanded⟩ := attempt
  cases outcome <;> rfl

theorem map_map (attempt : Attempt τ α) (first : α → β) (second : β → γ) :
    (attempt.map first).map second = attempt.map fun value => second (first value) := by
  obtain ⟨outcome, rest, expanded⟩ := attempt
  cases outcome <;> rfl

theorem andThen_assoc (attempt : Attempt τ α) (first : α → Input τ → Attempt τ β)
    (second : β → Input τ → Attempt τ γ) :
    (attempt.andThen first).andThen second =
      attempt.andThen fun value rest => (first value rest).andThen second := by
  obtain ⟨outcome, rest, expanded⟩ := attempt
  cases outcome with
  | error error => rfl
  | ok value =>
      simp only [andThen]
      cases (first value rest).outcome <;> simp [List.append_assoc]

theorem andThen_congr
    (hnext : ∀ value, attempt.outcome = .ok value →
      next' value attempt.rest = next value attempt.rest) :
    attempt.andThen next' = attempt.andThen next := by
  obtain ⟨outcome, rest, expanded⟩ := attempt
  cases outcome with
  | ok value =>
      have hsame := hnext value rfl
      dsimp only at hsame
      simp only [andThen, hsame]
  | error error => rfl

theorem exceeds_map_iff {convert : α → β} : (attempt.map convert).Exceeds ↔ attempt.Exceeds := by
  obtain ⟨outcome, rest, expanded⟩ := attempt
  cases outcome <;> simp [Exceeds, map, Except.map]

theorem exceeds_andThen_iff :
    (attempt.andThen next).Exceeds ↔
      attempt.Exceeds ∨
        ∃ value, attempt.outcome = .ok value ∧ (next value attempt.rest).Exceeds := by
  obtain ⟨outcome, rest, expanded⟩ := attempt
  cases outcome <;> simp [Exceeds, andThen]

variable [InputToken τ] {kind : Lookahead} {input : Input τ}

theorem token_of_eq (hkind : InputToken.kind input.peek = kind) :
    token kind input = { outcome := .ok input.next.1, rest := input.next.2, expanded := [] } := by
  have hhas : input.has [kind] = true := by simp [Input.has, hkind]
  rw [token, Input.expect, if_pos hhas]

theorem token_of_ne (hkind : InputToken.kind input.peek ≠ kind) :
    token kind input =
      { outcome := .error (.unexpectedToken [kind] input.peek)
        rest := input
        expanded := [] } := by
  have hhas : ¬ input.has [kind] = true := by simp [Input.has, hkind]
  rw [token, Input.expect, if_neg hhas]

theorem not_exceeds_token (kind : Lookahead) (input : Input τ) : ¬ (token kind input).Exceeds := by
  by_cases hkind : InputToken.kind input.peek = kind
  · simp [token_of_eq hkind, Exceeds]
  · simp [token_of_ne hkind, Exceeds]

end Attempt

namespace Analysis

variable [InputToken τ] {analysis : Analysis} {parse parse' : Nat → Input τ → Attempt τ (Tree τ)}

/-- Reads one symbol of a production. -/
def parseSymbol (analysis : Analysis) (parse : Nat → Input τ → Attempt τ (Tree τ)) :
    NumberedSymbol → Input τ → Attempt τ (Tree τ)
  | .terminal id, input => (Attempt.token (analysis.numbering.lookahead id) input).map .leaf
  | .nonterminal id, input => parse id input

theorem parseSymbols_cons (symbol : NumberedSymbol) (symbols : List NumberedSymbol)
    (input : Input τ) :
    analysis.parseSymbols parse (symbol :: symbols) input =
      (analysis.parseSymbol parse symbol input).andThen fun tree rest =>
        (analysis.parseSymbols parse symbols rest).map (tree :: ·) := by
  cases symbol with
  | terminal id => rw [parseSymbols, parseSymbol, Attempt.map_andThen]
  | nonterminal id => rw [parseSymbols, parseSymbol]

theorem parseSymbols_append (left right : List NumberedSymbol) (input : Input τ) :
    analysis.parseSymbols parse (left ++ right) input =
      (analysis.parseSymbols parse left input).andThen fun trees rest =>
        (analysis.parseSymbols parse right rest).map (trees ++ ·) := by
  induction left generalizing input with
  | nil =>
      simp only [List.nil_append, parseSymbols, Attempt.andThen, Attempt.map_id]
  | cons symbol left ih =>
      rw [List.cons_append, parseSymbols_cons, parseSymbols_cons, Attempt.andThen_assoc]
      apply Attempt.andThen_congr
      intro tree _
      rw [ih, Attempt.andThen_map, Attempt.map_andThen]
      simp only [Attempt.map_map, List.cons_append]

/-- The bound is exceeded in a nonterminal in front of which all symbols were read. -/
theorem exceeds_parseSymbols_iff {symbols : List NumberedSymbol} {input : Input τ} :
    (analysis.parseSymbols parse symbols input).Exceeds ↔
      ∃ before nonterminal after trees,
        symbols = before ++ .nonterminal nonterminal :: after ∧
        (analysis.parseSymbols parse before input).outcome = .ok trees ∧
        (parse nonterminal (analysis.parseSymbols parse before input).rest).Exceeds := by
  constructor
  · intro hexceeds
    induction symbols generalizing input with
    | nil => cases hexceeds
    | cons symbol symbols ih =>
        rw [parseSymbols_cons, Attempt.exceeds_andThen_iff] at hexceeds
        rcases hexceeds with hexceeds | ⟨tree, htree, hexceeds⟩
        · cases symbol with
          | terminal id =>
              exact absurd (Attempt.exceeds_map_iff.mp hexceeds) (Attempt.not_exceeds_token _ _)
          | nonterminal id => exact ⟨[], id, symbols, [], rfl, rfl, hexceeds⟩
        · obtain ⟨before, nonterminal, after, trees, rfl, hbefore, hexceeds⟩ :=
            ih (Attempt.exceeds_map_iff.mp hexceeds)
          refine ⟨symbol :: before, nonterminal, after, tree :: trees, rfl, ?_, ?_⟩
          · rw [parseSymbols_cons]
            simp [Attempt.andThen, htree, Attempt.map, hbefore, Except.map]
          · rw [parseSymbols_cons]
            simpa [Attempt.andThen, htree, Attempt.map] using hexceeds
  · rintro ⟨before, nonterminal, after, trees, rfl, hbefore, hexceeds⟩
    rw [parseSymbols_append, Attempt.exceeds_andThen_iff]
    refine .inr ⟨trees, hbefore, Attempt.exceeds_map_iff.mpr ?_⟩
    rw [parseSymbols_cons, Attempt.exceeds_andThen_iff]
    exact .inl hexceeds

theorem parseSymbols_eq_of_not_exceeds
    (hparse : ∀ nonterminal input, ¬ (parse nonterminal input).Exceeds →
      parse' nonterminal input = parse nonterminal input)
    {symbols : List NumberedSymbol} {input : Input τ}
    (hexceeds : ¬ (analysis.parseSymbols parse symbols input).Exceeds) :
    analysis.parseSymbols parse' symbols input = analysis.parseSymbols parse symbols input := by
  induction symbols generalizing input with
  | nil => rfl
  | cons symbol symbols ih =>
      rw [parseSymbols_cons, Attempt.exceeds_andThen_iff, not_or, not_exists] at hexceeds
      have hfirst : analysis.parseSymbol parse' symbol input =
          analysis.parseSymbol parse symbol input := by
        cases symbol with
        | terminal id => rfl
        | nonterminal id => exact hparse id input hexceeds.1
      rw [parseSymbols_cons, parseSymbols_cons, hfirst]
      apply Attempt.andThen_congr
      intro tree htree
      have hlater := fun hlater => hexceeds.2 tree ⟨htree, Attempt.exceeds_map_iff.mpr hlater⟩
      rw [ih hlater]

theorem parseNonterminal_eq_of_not_exceeds {depth depth' : Nat} (hdepth : depth ≤ depth')
    {nonterminal : Nat} {input : Input τ}
    (hexceeds : ¬ (analysis.parseNonterminal depth nonterminal input).Exceeds) :
    analysis.parseNonterminal depth' nonterminal input =
      analysis.parseNonterminal depth nonterminal input := by
  induction depth generalizing depth' nonterminal input with
  | zero => exact absurd rfl hexceeds
  | succ depth ih =>
      obtain ⟨depth', rfl⟩ : ∃ other, depth' = other + 1 := ⟨depth' - 1, by omega⟩
      rw [parseNonterminal] at hexceeds ⊢
      rw [parseNonterminal]
      cases hselect : analysis.select? nonterminal (InputToken.kind input.peek) with
      | none => rfl
      | some index =>
          rw [hselect] at hexceeds
          have hchildren := parseSymbols_eq_of_not_exceeds
            (fun nonterminal input hexceeds => ih (Nat.le_of_succ_le_succ hdepth) hexceeds)
            (fun hchildren => hexceeds (Attempt.exceeds_map_iff.mpr hchildren))
          dsimp only
          rw [hchildren]

theorem parseSymbols_depth_eq {depth depth' : Nat} {symbols : List NumberedSymbol} {input : Input τ}
    (hexceeds : ¬ (analysis.parseSymbols (analysis.parseNonterminal depth) symbols input).Exceeds)
    (hexceeds' :
      ¬ (analysis.parseSymbols (analysis.parseNonterminal depth') symbols input).Exceeds) :
    analysis.parseSymbols (analysis.parseNonterminal depth) symbols input =
      analysis.parseSymbols (analysis.parseNonterminal depth') symbols input := by
  have hleft := parseSymbols_eq_of_not_exceeds (fun nonterminal input hnot =>
    parseNonterminal_eq_of_not_exceeds (Nat.le_max_left depth depth') hnot) hexceeds
  have hright := parseSymbols_eq_of_not_exceeds (fun nonterminal input hnot =>
    parseNonterminal_eq_of_not_exceeds (Nat.le_max_right depth depth') hnot) hexceeds'
  rw [← hleft, hright]

end Analysis

end TopDown
