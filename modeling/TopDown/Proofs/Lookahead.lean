import TopDown.Proofs.Derivation

/-!
# What can be seen ahead

At the front of a sequence of symbols a lookahead is seen when leftmost replacements bring it to the
front, or make the sequence vanish in front of it. This gives the lookaheads that predict a rule.
The main statement says that in everything the start symbol derives, each nonterminal is followed
only by what its follow set allows.
-/

namespace TopDown.Grammar

variable {grammar : Grammar} {behind behind' : Lookahead → Prop} {seen : Lookahead}

/-- The lookahead is seen at the front of the symbols, behind which one of `behind` comes. -/
inductive Shows (grammar : Grammar) (behind : Lookahead → Prop) (seen : Lookahead) :
    List Symbol → Prop
  | behind (hbehind : behind seen) : Shows grammar behind seen []
  | terminal {name : String} {rest : List Symbol} (hseen : seen = .terminal name) :
      Shows grammar behind seen (.terminal name :: rest)
  | expand {rule : Rule} {rest : List Symbol} (hrule : rule ∈ grammar.rules)
      (hshows : Shows grammar behind seen (rule.production ++ rest)) :
      Shows grammar behind seen (.nonterminal rule.lhs :: rest)

namespace Shows

theorem mono (hmono : behind seen → behind' seen) {symbols : List Symbol}
    (hshows : grammar.Shows behind seen symbols) : grammar.Shows behind' seen symbols := by
  induction hshows with
  | behind hbehind => exact .behind (hmono hbehind)
  | terminal hseen => exact .terminal hseen
  | expand hrule _ ih => exact .expand hrule ih

theorem append {left right : List Symbol}
    (hshows : grammar.Shows (fun later => grammar.Shows behind later right) seen left) :
    grammar.Shows behind seen (left ++ right) := by
  induction hshows with
  | behind hright => exact hright
  | terminal hseen => exact .terminal hseen
  | expand hrule _ ih =>
      rw [List.append_assoc] at ih
      exact .expand hrule ih

theorem of_append {left right : List Symbol} (hshows : grammar.Shows behind seen (left ++ right)) :
    grammar.Shows (fun later => grammar.Shows behind later right) seen left := by
  generalize hsymbols : left ++ right = symbols at hshows
  induction hshows generalizing left with
  | behind hbehind =>
      obtain ⟨rfl, rfl⟩ := List.append_eq_nil_iff.mp hsymbols
      exact .behind (.behind hbehind)
  | terminal hseen =>
      cases left with
      | nil =>
          rw [List.nil_append] at hsymbols
          exact .behind (hsymbols ▸ .terminal hseen)
      | cons symbol left =>
          rw [List.cons_append, List.cons.injEq] at hsymbols
          rw [hsymbols.1]
          exact .terminal hseen
  | expand hrule hshows ih =>
      cases left with
      | nil =>
          rw [List.nil_append] at hsymbols
          exact .behind (hsymbols ▸ .expand hrule hshows)
      | cons symbol left =>
          rw [List.cons_append, List.cons.injEq] at hsymbols
          obtain ⟨rfl, rfl⟩ := hsymbols
          exact .expand hrule (ih (List.append_assoc ..))

theorem of_step {first second : List Symbol} (hstep : Rewriting.Step grammar.Replaces first second)
    (hshows : grammar.Shows behind seen second) : grammar.Shows behind seen first := by
  obtain ⟨before, after, hreplaces⟩ := hstep
  obtain ⟨hrule⟩ := hreplaces
  rw [List.append_assoc] at hshows
  refine append (hshows.of_append.mono fun hrest => ?_)
  exact .expand hrule hrest

theorem of_derives {first second : List Symbol} (hderives : grammar.Derives first second)
    (hshows : grammar.Shows behind seen second) : grammar.Shows behind seen first :=
  hderives.carry_back (grammar.Shows behind seen) of_step hshows

end Shows

/-- Either the sequence derives something that begins with the lookahead, or it vanishes. -/
theorem shows_iff {symbols : List Symbol} :
    grammar.Shows behind seen symbols ↔
      (∃ name rest, seen = .terminal name ∧ grammar.Derives symbols (.terminal name :: rest)) ∨
        (grammar.Derives symbols [] ∧ behind seen) := by
  constructor
  · intro hshows
    induction hshows with
    | behind hbehind => exact .inr ⟨.refl [], hbehind⟩
    | @terminal name rest hseen => exact .inl ⟨name, rest, hseen, .refl _⟩
    | expand hrule _ ih =>
        rcases ih with ⟨name, rest, hseen, hderives⟩ | ⟨hderives, hbehind⟩
        · exact .inl ⟨name, rest, hseen, derives_expand hrule hderives⟩
        · exact .inr ⟨derives_expand hrule hderives, hbehind⟩
  · rintro (⟨name, rest, hseen, hderives⟩ | ⟨hderives, hbehind⟩)
    · exact .of_derives hderives (.terminal hseen)
    · exact .of_derives hderives (.behind hbehind)

/-- The first terminal of a word, or the end of the input. -/
def firstLookahead (word : List String) : Lookahead :=
  (word.map .terminal).headD .endOfInput

theorem shows_of_derives_word {symbols : List Symbol} {word : List String}
    (hderives : grammar.Derives symbols (word.map .terminal)) :
    grammar.Shows (· = .endOfInput) (firstLookahead word) symbols := by
  refine .of_derives hderives ?_
  cases word with
  | nil => exact .behind rfl
  | cons name word => exact .terminal rfl

/-- The end of the input follows the start symbol. In a production a nonterminal is followed by what
the symbols behind it begin with and, if they can vanish, by what follows the left-hand side. -/
inductive Follows (grammar : Grammar) : String → Lookahead → Prop
  | endOfInput {start : String} (hstart : grammar.start? = some start) :
      Follows grammar start .endOfInput
  | beside {rule : Rule} {before after rest : List Symbol} {name next : String}
      (hrule : rule ∈ grammar.rules)
      (hsplit : rule.production = before ++ .nonterminal name :: after)
      (hafter : grammar.Derives after (.terminal next :: rest)) :
      Follows grammar name (.terminal next)
  | behind {rule : Rule} {before after : List Symbol} {name : String} {seen : Lookahead}
      (hrule : rule ∈ grammar.rules)
      (hsplit : rule.production = before ++ .nonterminal name :: after)
      (hafter : grammar.Derives after []) (hlhs : Follows grammar rule.lhs seen) :
      Follows grammar name seen

/-- The lookaheads at which a rule is to be expanded. -/
def Predicts (grammar : Grammar) (rule : Rule) (seen : Lookahead) : Prop :=
  grammar.Shows (grammar.Follows rule.lhs) seen rule.production

/-- A lookahead predicts at most one of the rules of a nonterminal, told apart by their places. -/
def Predictive (grammar : Grammar) : Prop :=
  ∀ (i j : Nat) (first second : Rule), grammar.rules[i]? = some first →
    grammar.rules[j]? = some second → first.lhs = second.lhs →
      ∀ seen, grammar.Predicts first seen → grammar.Predicts second seen → i = j

theorem Predictive.rule_eq (hpredictive : grammar.Predictive) {first second : Rule}
    (hfirst : first ∈ grammar.rules) (hsecond : second ∈ grammar.rules)
    (hlhs : first.lhs = second.lhs) (hseen : grammar.Predicts first seen)
    (hseen' : grammar.Predicts second seen) : first = second := by
  obtain ⟨i, hi⟩ := List.mem_iff_getElem?.mp hfirst
  obtain ⟨j, hj⟩ := List.mem_iff_getElem?.mp hsecond
  obtain rfl := hpredictive i j first second hi hj hlhs seen hseen hseen'
  rw [hi, Option.some.injEq] at hj
  exact hj

/-- Each nonterminal among the symbols is followed only by what its follow set allows. -/
def Fits (grammar : Grammar) (symbols : List Symbol) (behind : Lookahead → Prop) : Prop :=
  ∀ before name after, symbols = before ++ .nonterminal name :: after →
    ∀ seen, grammar.Shows behind seen after → grammar.Follows name seen

theorem fits_production {rule : Rule} (hrule : rule ∈ grammar.rules) :
    grammar.Fits rule.production (grammar.Follows rule.lhs) := by
  intro before name after hsplit seen hshows
  rcases shows_iff.mp hshows with ⟨next, rest, rfl, hafter⟩ | ⟨hafter, hlhs⟩
  · exact .beside hrule hsplit hafter
  · exact .behind hrule hsplit hafter hlhs

theorem fits_start {start : String} (hstart : grammar.start? = some start) :
    grammar.Fits [.nonterminal start] (· = .endOfInput) := by
  intro before name after hsplit seen hshows
  cases before with
  | nil =>
      rw [List.nil_append, List.cons.injEq, Symbol.nonterminal.injEq] at hsplit
      obtain ⟨rfl, rfl⟩ := hsplit
      cases hshows with
      | behind hbehind =>
          rw [hbehind]
          exact .endOfInput hstart
  | cons symbol before => simp at hsplit

namespace Fits

variable {rest : List Symbol} {name : String}

theorem of_append {left right : List Symbol} (hfits : grammar.Fits (left ++ right) behind) :
    grammar.Fits right behind := by
  intro before name after hsplit
  exact hfits (left ++ before) name after (by rw [hsplit, List.append_assoc])

theorem tail {symbol : Symbol} (hfits : grammar.Fits (symbol :: rest) behind) :
    grammar.Fits rest behind := by
  have hsplit : grammar.Fits ([symbol] ++ rest) behind := hfits
  exact hsplit.of_append

theorem head (hfits : grammar.Fits (.nonterminal name :: rest) behind)
    (hshows : grammar.Shows behind seen rest) : grammar.Follows name seen :=
  hfits [] name rest rfl seen hshows

theorem predicts (hfits : grammar.Fits (.nonterminal name :: rest) behind) {rule : Rule}
    (hlhs : rule.lhs = name) (hshows : grammar.Shows behind seen (rule.production ++ rest)) :
    grammar.Predicts rule seen := by
  refine hshows.of_append.mono fun hrest => ?_
  rw [hlhs]
  exact hfits.head hrest

theorem step {first second : List Symbol} (hstep : Rewriting.Step grammar.Replaces first second)
    (hfits : grammar.Fits first behind) : grammar.Fits second behind := by
  obtain ⟨left, right, hreplaces⟩ := hstep
  obtain @⟨rule, hrule⟩ := hreplaces
  intro before name after hsplit seen hshows
  -- the nonterminal stands in front of the production, in it, or behind it
  rcases Rewriting.append_cons_cases hsplit with ⟨middle, hfront, rfl⟩ | ⟨middle, rfl, rfl⟩
  · rcases Rewriting.append_cons_cases hfront with ⟨inner, rfl, rfl⟩ | ⟨inner, rfl, hproduction⟩
    · refine hfits before name (inner ++ .nonterminal rule.lhs :: right) (by simp) seen ?_
      exact hshows.of_step (.replace inner right (.rule hrule))
    · refine fits_production hrule inner name middle hproduction seen ?_
      exact hshows.of_append.mono (hfits left rule.lhs right rfl seen)
  · exact hfits (left ++ .nonterminal rule.lhs :: middle) name after (by simp) seen hshows

theorem derives {first second : List Symbol} (hderives : grammar.Derives first second)
    (hfits : grammar.Fits first behind) : grammar.Fits second behind := by
  induction hderives with
  | refl => exact hfits
  | tail _ hstep ih => exact ih.step hstep

end Fits

end TopDown.Grammar
