import TopDown.Proofs.Choice
import TopDown.Proofs.DerivationTree

/-!
# Grammars that one token of lookahead decides

A grammar is LL(1) when, in front of any rest of a leftmost derivation, the first token of what is
to come decides which rule to expand. The analysis finds no overlap in exactly these grammars, as
long as every nonterminal is of use.
-/

namespace TopDown

namespace Grammar

/-- The nonterminal stands in something that the start symbol derives. -/
def Reachable (grammar : Grammar) (name : String) : Prop :=
  ∃ (start : String) (before after : List Symbol), grammar.start? = some start ∧
    grammar.Derives [.nonterminal start] (before ++ .nonterminal name :: after)

/-- Wherever a leftmost derivation has two rules to choose from that lead to words with the same
first lookahead, the rules stand at the same place. -/
def IsLL1 (grammar : Grammar) : Prop :=
  ∀ (start : String) (i j : Nat) (first second : Rule) (passed left right : List String)
    (rest : List Symbol),
    grammar.start? = some start → grammar.rules[i]? = some first →
    grammar.rules[j]? = some second → first.lhs = second.lhs →
    grammar.LeftmostDerives [.nonterminal start]
      (passed.map .terminal ++ .nonterminal first.lhs :: rest) →
    grammar.Derives (first.production ++ rest) (left.map .terminal) →
    grammar.Derives (second.production ++ rest) (right.map .terminal) →
    firstLookahead left = firstLookahead right → i = j

variable {grammar : Grammar}

theorem Predictive.isLL1 (hpredictive : grammar.Predictive) : grammar.IsLL1 := by
  intro start i j first second passed left right rest hstart hfirst hsecond hlhs hleftmost hleft
    hright hsame
  have hfits := ((fits_start hstart).derives hleftmost.derives).of_append
  refine hpredictive i j first second hfirst hsecond hlhs (firstLookahead left) ?_ ?_
  · exact hfits.predicts rfl (shows_of_derives_word hleft)
  · rw [hsame]
    exact hfits.predicts hlhs.symm (shows_of_derives_word hright)

/-- What can stand behind a nonterminal when it is the leftmost one. -/
def Leaves (grammar : Grammar) (name : String) (rest : List Symbol) : Prop :=
  ∃ (start : String) (passed : List String), grammar.start? = some start ∧
    grammar.LeftmostDerives [.nonterminal start]
      (passed.map .terminal ++ .nonterminal name :: rest)

theorem leaves_start {start : String} (hstart : grammar.start? = some start) :
    grammar.Leaves start [] :=
  ⟨start, [], hstart, .refl _⟩

theorem Leaves.descend (hfruitful : grammar.Fruitful) {rule : Rule} (hrule : rule ∈ grammar.rules)
    {before after rest : List Symbol} {name : String}
    (hsplit : rule.production = before ++ .nonterminal name :: after)
    (hleaves : grammar.Leaves rule.lhs rest) : grammar.Leaves name (after ++ rest) := by
  obtain ⟨start, passed, hstart, hleftmost⟩ := hleaves
  obtain ⟨word, hword⟩ := (hfruitful.yields_split hrule hsplit).1
  refine ⟨start, passed ++ word, hstart, hleftmost.trans ?_⟩
  rw [List.map_append, List.append_assoc]
  refine LeftmostDerives.append_left ?_ passed
  have hexpand := (LeftmostDerives.of_rule hrule).append_right rest
  rw [hsplit, List.append_assoc] at hexpand
  exact hexpand.trans (hword.leftmost.append_right (.nonterminal name :: after ++ rest))

theorem exists_leaves (hfruitful : grammar.Fruitful) {start : String}
    (hstart : grammar.start? = some start) {form : List Symbol}
    (hderives : grammar.Derives [.nonterminal start] form) {before after : List Symbol}
    {name : String} (hsplit : form = before ++ .nonterminal name :: after) :
    ∃ rest, grammar.Leaves name rest ∧ grammar.Yields rest := by
  induction hderives generalizing before after name with
  | refl =>
      cases before with
      | nil =>
          rw [List.nil_append, List.cons.injEq, Symbol.nonterminal.injEq] at hsplit
          rw [← hsplit.1]
          exact ⟨[], leaves_start hstart, yields_nil grammar⟩
      | cons symbol before => simp at hsplit
  | tail _ hstep ih =>
      obtain ⟨left, right, hreplaces⟩ := hstep
      obtain @⟨rule, hrule⟩ := hreplaces
      -- what stands outside the production stood there before
      rcases Rewriting.append_cons_cases hsplit with ⟨middle, hfront, rfl⟩ | ⟨middle, rfl, rfl⟩
      · rcases Rewriting.append_cons_cases hfront with ⟨inner, rfl, rfl⟩ | ⟨inner, rfl, hproduction⟩
        · exact ih (List.append_assoc ..)
        · obtain ⟨rest, hleaves, hrest⟩ := ih rfl
          have hmiddle := (hfruitful.yields_split hrule hproduction).2
          exact ⟨middle ++ rest, hleaves.descend hfruitful hrule hproduction,
            yields_append.mpr ⟨hmiddle, hrest⟩⟩
      · have hplace : left ++ .nonterminal rule.lhs :: (middle ++ .nonterminal name :: after) =
            (left ++ .nonterminal rule.lhs :: middle) ++ .nonterminal name :: after := by simp
        exact ih hplace

/-- Everything that follows a nonterminal comes behind it in a leftmost derivation. -/
theorem exists_leaves_of_follows (hfruitful : grammar.Fruitful)
    (hreachable : ∀ rule ∈ grammar.rules, grammar.Reachable rule.lhs) {name : String}
    {seen : Lookahead} (hfollows : grammar.Follows name seen) :
    ∃ rest word, grammar.Leaves name rest ∧ grammar.Derives rest (word.map .terminal) ∧
      firstLookahead word = seen := by
  induction hfollows with
  | endOfInput hstart => exact ⟨[], [], leaves_start hstart, .refl _, rfl⟩
  | @beside rule before after next name seen hrule hsplit hafter =>
      obtain ⟨start, front, back, hstart, hderives⟩ := hreachable rule hrule
      obtain ⟨rest, hleaves, word, hword⟩ := exists_leaves hfruitful hstart hderives rfl
      have hyields := hfruitful.yields_of_derives hafter (hfruitful.yields_split hrule hsplit).2
      obtain ⟨inner, hinner⟩ := (yields_cons.mp hyields).2
      refine ⟨after ++ rest, seen :: (inner ++ word), hleaves.descend hfruitful hrule hsplit, ?_,
        rfl⟩
      have hfirst := hafter.trans (hinner.append_left [.terminal seen])
      rw [List.map_cons, List.map_append, ← List.cons_append]
      exact hfirst.append hword
  | @behind rule before after name seen hrule hsplit hafter _ ih =>
      obtain ⟨rest, word, hleaves, hword, hseen⟩ := ih
      refine ⟨after ++ rest, word, hleaves.descend hfruitful hrule hsplit, ?_, hseen⟩
      exact hafter.append hword

theorem exists_word_of_predicts (hfruitful : grammar.Fruitful) {rule : Rule}
    (hrule : rule ∈ grammar.rules) {rest : List Symbol} {word : List String}
    (hword : grammar.Derives rest (word.map .terminal)) {seen : Lookahead}
    (hseen : grammar.Follows rule.lhs seen → firstLookahead word = seen)
    (hpredicts : grammar.Predicts rule seen) :
    ∃ word' : List String, grammar.Derives (rule.production ++ rest) (word'.map .terminal) ∧
      firstLookahead word' = seen := by
  rcases shows_iff.mp hpredicts with ⟨next, form, rfl, hderives⟩ | ⟨hderives, hfollows⟩
  · have hyields := hfruitful.yields_of_derives hderives (hfruitful rule hrule)
    obtain ⟨inner, hinner⟩ := (yields_cons.mp hyields).2
    refine ⟨next :: (inner ++ word), ?_, rfl⟩
    have hfirst := hderives.trans (hinner.append_left [.terminal next])
    rw [List.map_cons, List.map_append, ← List.cons_append]
    exact hfirst.append hword
  · exact ⟨word, hderives.append hword, hseen hfollows⟩

theorem IsLL1.predictive (hfruitful : grammar.Fruitful)
    (hreachable : ∀ rule ∈ grammar.rules, grammar.Reachable rule.lhs) (hisLL1 : grammar.IsLL1) :
    grammar.Predictive := by
  intro i j first second hfirst hsecond hlhs seen hseen hseen'
  have hmem := List.mem_of_getElem? hfirst
  have hmem' := List.mem_of_getElem? hsecond
  -- one rest serves both rules
  have hleaves : ∃ rest word, grammar.Leaves first.lhs rest ∧
      grammar.Derives rest (word.map .terminal) ∧
      (grammar.Follows first.lhs seen → firstLookahead word = seen) := by
    by_cases hfollows : grammar.Follows first.lhs seen
    · obtain ⟨rest, word, hleaves, hword, hfirst⟩ :=
        exists_leaves_of_follows hfruitful hreachable hfollows
      exact ⟨rest, word, hleaves, hword, fun _ => hfirst⟩
    · obtain ⟨start, before, after, hstart, hderives⟩ := hreachable first hmem
      obtain ⟨rest, hleaves, word, hword⟩ := exists_leaves hfruitful hstart hderives rfl
      exact ⟨rest, word, hleaves, hword, fun hseen => absurd hseen hfollows⟩
  obtain ⟨rest, word, ⟨start, passed, hstart, hleftmost⟩, hword, hfollows⟩ := hleaves
  obtain ⟨left, hleft, rfl⟩ := exists_word_of_predicts hfruitful hmem hword hfollows hseen
  rw [hlhs] at hfollows
  obtain ⟨right, hright, hsame⟩ := exists_word_of_predicts hfruitful hmem' hword hfollows hseen'
  exact hisLL1 start i j first second passed left right rest hstart hfirst hsecond hlhs hleftmost
    hleft hright hsame.symm

end Grammar

/-- Without useless nonterminals, an analysis finds no overlap exactly in the LL(1) grammars. -/
theorem Analysis.isAmbiguous_eq_false_iff_isLL1 {grammar : Grammar} {analysis : Analysis}
    (hanalysis : Analysis.ofGrammar grammar = .ok analysis)
    (hreachable : ∀ rule ∈ grammar.rules, grammar.Reachable rule.lhs)
    (hproductive : ∀ rule ∈ grammar.rules, grammar.Yields [.nonterminal rule.lhs]) :
    analysis.isAmbiguous = false ↔ grammar.IsLL1 := by
  have hdescribes := Analysis.describes_of_ofGrammar hanalysis
  rw [hdescribes.isAmbiguous_eq_false]
  constructor
  · exact Grammar.Predictive.isLL1
  · exact Grammar.IsLL1.predictive (hdescribes.represents.fruitful hproductive) hreachable

theorem Analysis.pairs_isLL1 : Analysis.pairs.isAmbiguous = false ∧ Grammar.pairs.IsLL1 := by
  have hlhs : ∀ rule ∈ Grammar.pairs.rules, rule.lhs = "s" := by decide
  have hreachable : ∀ rule ∈ Grammar.pairs.rules, Grammar.pairs.Reachable rule.lhs := by
    intro rule hrule
    rw [hlhs rule hrule]
    exact ⟨"s", [], [], rfl, .refl _⟩
  have hiff := isAmbiguous_eq_false_iff_isLL1 ofGrammar_pairs hreachable Grammar.pairs_yields
  exact ⟨Parser.pairs.unambiguous, hiff.mp Parser.pairs.unambiguous⟩

end TopDown
