import TopDown.Grammar.Basic
import TopDown.Grammar.Lookahead
import TopDown.Proofs.Rewriting

/-!
# Derivations

A rule of a grammar replaces its left-hand side by its production, wherever it stands. The sentences
of a grammar are the sequences of terminals that the start symbol derives.
-/

namespace TopDown

open Relation

namespace Grammar

inductive Replaces (grammar : Grammar) : Symbol → List Symbol → Prop
  | rule {rule : Rule} (hrule : rule ∈ grammar.rules) :
      Replaces grammar (.nonterminal rule.lhs) rule.production

/-- One symbol sequence comes from another by any number of replacements, at any places. -/
abbrev Derives (grammar : Grammar) : List Symbol → List Symbol → Prop :=
  Rewriting.Derives grammar.Replaces

/-- A sequence of lookaheads is a sentence when it consists of terminals that the start symbol
derives. -/
def IsSentence (grammar : Grammar) (kinds : List Lookahead) : Prop :=
  ∃ (start : String) (word : List String), grammar.start? = some start ∧
    kinds = word.map .terminal ∧ grammar.Derives [.nonterminal start] (word.map .terminal)

variable {grammar : Grammar}

theorem exists_rule_of_start {start : String} (hstart : grammar.start? = some start) :
    ∃ rule ∈ grammar.rules, rule.lhs = start := by
  obtain ⟨rule, hrule, hlhs⟩ := Option.map_eq_some_iff.mp hstart
  exact ⟨rule, List.mem_of_head? hrule, hlhs⟩

theorem derives_of_rule {rule : Rule} (hrule : rule ∈ grammar.rules) :
    grammar.Derives [.nonterminal rule.lhs] rule.production :=
  .of_replaces (.rule hrule)

theorem derives_expand {rule : Rule} {rest form : List Symbol} (hrule : rule ∈ grammar.rules)
    (hderives : grammar.Derives (rule.production ++ rest) form) :
    grammar.Derives (.nonterminal rule.lhs :: rest) form :=
  ((derives_of_rule hrule).append_right rest).trans hderives

theorem derives_word_append {left right : List Symbol} {word : List String}
    (hderives : grammar.Derives (left ++ right) (word.map .terminal)) :
    ∃ leftWord rightWord, word = leftWord ++ rightWord ∧
      grammar.Derives left (leftWord.map .terminal) ∧
      grammar.Derives right (rightWord.map .terminal) := by
  obtain ⟨left', right', hword, hleft, hright⟩ := hderives.append_split
  obtain ⟨leftWord, rightWord, rfl, rfl, rfl⟩ := List.map_eq_append_iff.mp hword
  exact ⟨leftWord, rightWord, rfl, hleft, hright⟩

/-- The symbols derive some sequence of terminals. -/
def Yields (grammar : Grammar) (symbols : List Symbol) : Prop :=
  ∃ word : List String, grammar.Derives symbols (word.map .terminal)

def Fruitful (grammar : Grammar) : Prop :=
  ∀ rule ∈ grammar.rules, grammar.Yields rule.production

theorem yields_nil (grammar : Grammar) : grammar.Yields [] :=
  ⟨[], .refl _⟩

theorem yields_append {left right : List Symbol} :
    grammar.Yields (left ++ right) ↔ grammar.Yields left ∧ grammar.Yields right := by
  constructor
  · rintro ⟨word, hderives⟩
    obtain ⟨leftWord, rightWord, _, hleft, hright⟩ := derives_word_append hderives
    exact ⟨⟨leftWord, hleft⟩, rightWord, hright⟩
  · rintro ⟨⟨leftWord, hleft⟩, rightWord, hright⟩
    refine ⟨leftWord ++ rightWord, ?_⟩
    rw [List.map_append]
    exact hleft.append hright

theorem yields_cons {symbol : Symbol} {symbols : List Symbol} :
    grammar.Yields (symbol :: symbols) ↔ grammar.Yields [symbol] ∧ grammar.Yields symbols := by
  rw [← List.singleton_append, yields_append]

theorem yields_of_forall {symbols : List Symbol}
    (hsymbols : ∀ symbol ∈ symbols, grammar.Yields [symbol]) : grammar.Yields symbols := by
  induction symbols with
  | nil => exact yields_nil grammar
  | cons symbol symbols ih =>
      rw [List.forall_mem_cons] at hsymbols
      exact yields_cons.mpr ⟨hsymbols.1, ih hsymbols.2⟩

theorem Fruitful.yields_split (hfruitful : grammar.Fruitful) {rule : Rule}
    (hrule : rule ∈ grammar.rules) {before after : List Symbol} {symbol : Symbol}
    (hsplit : rule.production = before ++ symbol :: after) :
    grammar.Yields before ∧ grammar.Yields after := by
  have hyields := hfruitful rule hrule
  rw [hsplit] at hyields
  obtain ⟨hbefore, hrest⟩ := yields_append.mp hyields
  exact ⟨hbefore, (yields_cons.mp hrest).2⟩

/-- No derivation leads a fruitful grammar into a dead end. -/
theorem Fruitful.yields_of_derives (hfruitful : grammar.Fruitful) {form next : List Symbol}
    (hderives : grammar.Derives form next) (hform : grammar.Yields form) : grammar.Yields next := by
  induction hderives with
  | refl => exact hform
  | tail _ hstep ih =>
      obtain ⟨before, after, hreplaces⟩ := hstep
      obtain @⟨rule, hrule⟩ := hreplaces
      obtain ⟨hbefore, hrest⟩ := yields_append.mp ih
      have hafter := (yields_cons.mp hrest).2
      exact yields_append.mpr ⟨yields_append.mpr ⟨hbefore, hfruitful rule hrule⟩, hafter⟩

end Grammar

end TopDown
