import TopDown.Proofs.Lookahead

/-!
# Follow sets and derivations

A terminal follows a nonterminal when some nonterminal derives the two side by side, no matter
whether the start symbol reaches it. The end of the input follows what the start symbol derives at
the end.
-/

namespace TopDown.Grammar

variable {grammar : Grammar} {name next : String} {seen : Lookahead}

/-- Something that is derived from the left-hand side of one of the rules has the nonterminal in
front of the terminal. -/
def Adjoins (grammar : Grammar) (rules : List Rule) (name next : String) : Prop :=
  ∃ rule ∈ rules, ∃ before after,
    grammar.Derives [.nonterminal rule.lhs] (before ++ .nonterminal name :: .terminal next :: after)

/-- The start symbol derives something that ends in the nonterminal. -/
def EndsIn (grammar : Grammar) (name : String) : Prop :=
  ∃ start before, grammar.start? = some start ∧
    grammar.Derives [.nonterminal start] (before ++ [.nonterminal name])

theorem derives_beside {rule : Rule} {before after rest : List Symbol}
    (hrule : rule ∈ grammar.rules) (hsplit : rule.production = before ++ .nonterminal name :: after)
    (hafter : grammar.Derives after rest) :
    grammar.Derives [.nonterminal rule.lhs] (before ++ .nonterminal name :: rest) := by
  have hproduction := derives_of_rule hrule
  rw [hsplit] at hproduction
  exact hproduction.trans ((hafter.append_left [.nonterminal name]).append_left before)

/-- The nonterminal takes the place of a left-hand side that it ends. -/
theorem derives_behind {rule : Rule} {before after front back form : List Symbol}
    (hrule : rule ∈ grammar.rules) (hsplit : rule.production = before ++ .nonterminal name :: after)
    (hafter : grammar.Derives after [])
    (hform : grammar.Derives form (front ++ .nonterminal rule.lhs :: back)) :
    grammar.Derives form ((front ++ before) ++ .nonterminal name :: back) := by
  have hinner := ((derives_beside hrule hsplit hafter).append_right back).append_left front
  simp only [List.append_assoc, List.singleton_append] at hinner ⊢
  exact hform.trans hinner

theorem derived_of_follows (hfollows : grammar.Follows name seen) :
    (seen = .endOfInput ∧ grammar.EndsIn name) ∨
      ∃ next, seen = .terminal next ∧ grammar.Adjoins grammar.rules name next := by
  induction hfollows with
  | @endOfInput start hstart => exact .inl ⟨rfl, start, [], hstart, .refl _⟩
  | beside hrule hsplit hafter =>
      exact .inr ⟨_, rfl, _, hrule, _, _, derives_beside hrule hsplit hafter⟩
  | behind hrule hsplit hafter _ ih =>
      rcases ih with ⟨hend, start, front, hstart, hderives⟩ |
        ⟨next, hnext, origin, horigin, front, back, hderives⟩
      · exact .inl ⟨hend, start, _, hstart, derives_behind hrule hsplit hafter hderives⟩
      · exact .inr ⟨next, hnext, origin, horigin, _, back,
          derives_behind hrule hsplit hafter hderives⟩

/-- In front of nothing, anything fits. -/
theorem fits_alone (grammar : Grammar) (name : String) :
    grammar.Fits [.nonterminal name] fun _ => False := by
  intro before other after hsplit seen hshows
  cases before with
  | nil =>
      rw [List.nil_append, List.cons.injEq] at hsplit
      rw [← hsplit.2] at hshows
      cases hshows with
      | behind hbehind => exact hbehind.elim
  | cons symbol before => simp at hsplit

theorem follows_terminal_iff :
    grammar.Follows name (.terminal next) ↔ grammar.Adjoins grammar.rules name next := by
  constructor
  · intro hfollows
    rcases derived_of_follows hfollows with ⟨hend, _⟩ | ⟨other, hother, hadjoins⟩
    · cases hend
    · cases hother
      exact hadjoins
  · rintro ⟨rule, _, before, after, hderives⟩
    exact (fits_alone grammar rule.lhs).derives hderives before name _ rfl _ (.terminal rfl)

theorem follows_endOfInput_iff : grammar.Follows name .endOfInput ↔ grammar.EndsIn name := by
  constructor
  · intro hfollows
    rcases derived_of_follows hfollows with ⟨_, hends⟩ | ⟨next, hnext, _⟩
    · exact hends
    · cases hnext
  · rintro ⟨start, before, hstart, hderives⟩
    exact (fits_start hstart).derives hderives before name [] rfl _ (.behind rfl)

end TopDown.Grammar
