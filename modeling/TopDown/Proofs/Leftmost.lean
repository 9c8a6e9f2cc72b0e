import TopDown.Proofs.Derivation

/-!
# Leftmost derivations

A leftmost derivation replaces the first nonterminal at every step, which is the order in which a
parser expands them. The rules alone determine it: at every step there is only one place for the
next one.
-/

namespace TopDown

open Relation

namespace Grammar

inductive LeftmostStep (grammar : Grammar) : List Symbol → List Symbol → Prop
  | expand {rule : Rule} (word : List String) (rest : List Symbol) (hrule : rule ∈ grammar.rules) :
      LeftmostStep grammar (word.map .terminal ++ .nonterminal rule.lhs :: rest)
        (word.map .terminal ++ rule.production ++ rest)

def LeftmostDerives (grammar : Grammar) : List Symbol → List Symbol → Prop :=
  ReflTransGen grammar.LeftmostStep

variable {grammar : Grammar}

theorem LeftmostStep.append_left {form next : List Symbol}
    (hstep : grammar.LeftmostStep form next) (word : List String) :
    grammar.LeftmostStep (word.map .terminal ++ form) (word.map .terminal ++ next) := by
  obtain ⟨inner, rest, hrule⟩ := hstep
  have happended := LeftmostStep.expand (word ++ inner) rest hrule
  simpa using happended

theorem LeftmostStep.append_right {form next : List Symbol}
    (hstep : grammar.LeftmostStep form next) (after : List Symbol) :
    grammar.LeftmostStep (form ++ after) (next ++ after) := by
  obtain ⟨word, rest, hrule⟩ := hstep
  have happended := LeftmostStep.expand word (rest ++ after) hrule
  simpa using happended

namespace LeftmostDerives

theorem refl (form : List Symbol) : grammar.LeftmostDerives form form :=
  ReflTransGen.refl

theorem trans {first second third : List Symbol} (hfirst : grammar.LeftmostDerives first second)
    (hsecond : grammar.LeftmostDerives second third) : grammar.LeftmostDerives first third :=
  ReflTransGen.trans hfirst hsecond

theorem of_rule {rule : Rule} (hrule : rule ∈ grammar.rules) :
    grammar.LeftmostDerives [.nonterminal rule.lhs] rule.production := by
  refine ReflTransGen.single ?_
  simpa using LeftmostStep.expand [] [] hrule

theorem append_left {form next : List Symbol} (hderives : grammar.LeftmostDerives form next)
    (word : List String) :
    grammar.LeftmostDerives (word.map .terminal ++ form) (word.map .terminal ++ next) := by
  induction hderives with
  | refl => exact .refl _
  | tail _ hstep ih => exact ReflTransGen.tail ih (hstep.append_left word)

theorem append_right {form next : List Symbol} (hderives : grammar.LeftmostDerives form next)
    (after : List Symbol) : grammar.LeftmostDerives (form ++ after) (next ++ after) := by
  induction hderives with
  | refl => exact .refl _
  | tail _ hstep ih => exact ReflTransGen.tail ih (hstep.append_right after)

theorem derives {form next : List Symbol} (hderives : grammar.LeftmostDerives form next) :
    grammar.Derives form next := by
  induction hderives with
  | refl => exact .refl _
  | tail _ hstep ih =>
      obtain ⟨word, rest, hrule⟩ := hstep
      exact ih.tail (.replace _ rest (.rule hrule))

/-- The first symbols are derived to the end before the rest is begun. -/
theorem append {left right : List Symbol} {word : List String} {form : List Symbol}
    (hleft : grammar.LeftmostDerives left (word.map .terminal))
    (hright : grammar.LeftmostDerives right form) :
    grammar.LeftmostDerives (left ++ right) (word.map .terminal ++ form) :=
  (hleft.append_right right).trans (hright.append_left word)

end LeftmostDerives

/-- Replaces the first nonterminal by the production of the rule, if it is its left-hand side. -/
def rewriteFirst? (rule : Rule) : List Symbol → Option (List Symbol)
  | [] => none
  | .terminal name :: symbols => (rewriteFirst? rule symbols).map (.terminal name :: ·)
  | .nonterminal name :: symbols =>
      if name = rule.lhs then some (rule.production ++ symbols) else none

/-- Replaces the first nonterminal by one rule after another. -/
def rewriteAll? : List Rule → List Symbol → Option (List Symbol)
  | [], form => some form
  | rule :: rules, form => (rewriteFirst? rule form).bind (rewriteAll? rules)

section Rewriting

variable {rule : Rule} {rules later : List Rule} {form middle next left right : List Symbol}
  {word : List String}

theorem rewriteFirst?_nonterminal (rule : Rule) (rest : List Symbol) :
    rewriteFirst? rule (.nonterminal rule.lhs :: rest) = some (rule.production ++ rest) := by
  rw [rewriteFirst?, if_pos rfl]

theorem rewriteFirst?_word_append (rule : Rule) (word : List String) (form : List Symbol) :
    rewriteFirst? rule (word.map .terminal ++ form) =
      (rewriteFirst? rule form).map (word.map .terminal ++ ·) := by
  induction word with
  | nil => simp
  | cons name word ih =>
      rw [List.map_cons, List.cons_append, rewriteFirst?, ih, Option.map_map]
      rfl

theorem rewriteFirst?_append_right (hrewrite : rewriteFirst? rule form = some next)
    (after : List Symbol) : rewriteFirst? rule (form ++ after) = some (next ++ after) := by
  induction form generalizing next with
  | nil => cases hrewrite
  | cons symbol form ih =>
      cases symbol with
      | terminal name =>
          obtain ⟨rest, hrest, rfl⟩ := Option.map_eq_some_iff.mp hrewrite
          rw [List.cons_append, rewriteFirst?, ih hrest]
          rfl
      | nonterminal name =>
          rw [rewriteFirst?, Option.ite_none_right_eq_some] at hrewrite
          obtain ⟨hname, hnext⟩ := hrewrite
          obtain rfl := Option.some.inj hnext
          rw [List.cons_append, rewriteFirst?, if_pos hname, List.append_assoc]

/-- The steps of leftmost derivations are the rewritings by rules of the grammar. -/
theorem leftmostStep_iff :
    grammar.LeftmostStep form next ↔
      ∃ rule ∈ grammar.rules, rewriteFirst? rule form = some next := by
  constructor
  · rintro ⟨word, rest, hrule⟩
    refine ⟨_, hrule, ?_⟩
    rw [rewriteFirst?_word_append, rewriteFirst?_nonterminal, Option.map_some, List.append_assoc]
  · rintro ⟨rule, hrule, hrewrite⟩
    induction form generalizing next with
    | nil => cases hrewrite
    | cons symbol form ih =>
        cases symbol with
        | terminal name =>
            obtain ⟨rest, hrest, rfl⟩ := Option.map_eq_some_iff.mp hrewrite
            exact (ih hrest).append_left [name]
        | nonterminal name =>
            rw [rewriteFirst?, Option.ite_none_right_eq_some] at hrewrite
            obtain ⟨rfl, hnext⟩ := hrewrite
            obtain rfl := Option.some.inj hnext
            exact .expand [] form hrule

theorem rewriteAll?_append (hfirst : rewriteAll? rules form = some middle)
    (hlater : rewriteAll? later middle = some next) :
    rewriteAll? (rules ++ later) form = some next := by
  induction rules generalizing form with
  | nil =>
      cases hfirst
      exact hlater
  | cons rule rules ih =>
      obtain ⟨between, hrule, hrules⟩ := Option.bind_eq_some_iff.mp hfirst
      rw [List.cons_append, rewriteAll?, hrule, Option.bind_some, ih hrules]

theorem rewriteAll?_append_right (hrewrite : rewriteAll? rules form = some next)
    (after : List Symbol) : rewriteAll? rules (form ++ after) = some (next ++ after) := by
  induction rules generalizing form with
  | nil =>
      cases hrewrite
      rfl
  | cons rule rules ih =>
      obtain ⟨between, hrule, hrules⟩ := Option.bind_eq_some_iff.mp hrewrite
      rw [rewriteAll?, rewriteFirst?_append_right hrule, Option.bind_some, ih hrules]

theorem rewriteAll?_append_left (hrewrite : rewriteAll? rules form = some next)
    (word : List String) :
    rewriteAll? rules (word.map .terminal ++ form) = some (word.map .terminal ++ next) := by
  induction rules generalizing form with
  | nil =>
      cases hrewrite
      rfl
  | cons rule rules ih =>
      obtain ⟨between, hrule, hrules⟩ := Option.bind_eq_some_iff.mp hrewrite
      rw [rewriteAll?, rewriteFirst?_word_append, hrule, Option.map_some, Option.bind_some,
        ih hrules]

theorem rewriteAll?_expand {rest : List Symbol}
    (hrewrite : rewriteAll? rules (rule.production ++ rest) = some next) :
    rewriteAll? (rule :: rules) (.nonterminal rule.lhs :: rest) = some next := by
  rw [rewriteAll?, rewriteFirst?_nonterminal, Option.bind_some, hrewrite]

/-- The first symbols are rewritten to the end before the rest is begun. -/
theorem rewriteAll?_both (hleft : rewriteAll? rules left = some (word.map .terminal))
    (hright : rewriteAll? later right = some form) :
    rewriteAll? (rules ++ later) (left ++ right) = some (word.map .terminal ++ form) :=
  rewriteAll?_append (rewriteAll?_append_right hleft right) (rewriteAll?_append_left hright word)

theorem LeftmostDerives.of_rewriteAll? (hrules : ∀ rule ∈ rules, rule ∈ grammar.rules)
    (hrewrite : rewriteAll? rules form = some next) : grammar.LeftmostDerives form next := by
  induction rules generalizing form with
  | nil =>
      cases hrewrite
      exact .refl _
  | cons rule rules ih =>
      rw [List.forall_mem_cons] at hrules
      obtain ⟨middle, hrule, hlater⟩ := Option.bind_eq_some_iff.mp hrewrite
      exact .head (leftmostStep_iff.mpr ⟨rule, hrules.1, hrule⟩) (ih hrules.2 hlater)

end Rewriting

end Grammar

end TopDown
