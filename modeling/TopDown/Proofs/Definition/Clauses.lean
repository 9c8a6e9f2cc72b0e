import Mathlib.Computability.Language
import TopDown.Definition.Token
import TopDown.Grammar.Basic

/-!
# Clauses

A definition is one or more clauses. A clause is a name with its alternatives, and says one rule for
each of them. The main statement says that the kinds of a definition, given as a language, are the
kinds of the lexemes that clauses are written with.
-/

namespace TopDown

/-- The lexeme that a symbol is written with. -/
def Symbol.lexeme : Symbol → Definition.Lexeme
  | .terminal name => .terminal name
  | .nonterminal name => .nonterminal name

namespace Definition

open scoped Computability

namespace Kinds

def symbol : Language TokenKind :=
  {[.nonterminal]} + {[.terminal]}

/-- An alternative is `!`, or one or more symbols. -/
def production : Language TokenKind :=
  {[.empty]} + symbol * symbol∗

/-- A clause is a name, a colon, alternatives between pipes, and a semicolon. -/
def clause : Language TokenKind :=
  {[.nonterminal]} * {[.colon]} * (production * ({[.pipe]} * production)∗) * {[.semicolon]}

def definition : Language TokenKind :=
  clause * clause∗ * {[.endOfText]}

end Kinds

def productionLexemes : List Symbol → List Lexeme
  | [] => [.empty]
  | symbols => symbols.map Symbol.lexeme

theorem productionLexemes_eq_map {production : List Symbol} (hne : production ≠ []) :
    productionLexemes production = production.map Symbol.lexeme := by
  obtain ⟨symbol, others, rfl⟩ := List.exists_cons_of_ne_nil hne
  rfl

theorem mem_productionLexemes {production : List Symbol} {symbol : Symbol}
    (hsymbol : symbol ∈ production) : symbol.lexeme ∈ productionLexemes production := by
  rw [productionLexemes_eq_map (List.ne_nil_of_mem hsymbol)]
  exact List.mem_map_of_mem hsymbol

structure Clause where
  name : String
  first : List Symbol
  others : List (List Symbol)

namespace Clause

def lexemes (clause : Clause) : List Lexeme :=
  [.nonterminal clause.name, .colon] ++
    (productionLexemes clause.first ++
      clause.others.flatMap fun production => .pipe :: productionLexemes production) ++
    [.semicolon]

/-- One rule for each alternative, in order. -/
def rules (clause : Clause) : List Rule :=
  (clause.first :: clause.others).map fun production =>
    { lhs := clause.name, production := production }

end Clause

/-! ### Languages of printed values

Sums, products and repetitions of languages are printed from sums, products and lists of values. In
this way the language of definitions is printed from lists of clauses. -/

/-- The language holds the kinds of what the values are printed as, and of no other lexemes. -/
def Prints {α : Type} (language : Language TokenKind) (print : α → List Lexeme) : Prop :=
  ∀ lexemes : List Lexeme,
    lexemes.map Lexeme.kind ∈ language ↔ ∃ value, print value = lexemes

namespace Prints

variable {α β : Type} {language other : Language TokenKind} {print : α → List Lexeme}
  {print' : β → List Lexeme}

theorem add (hprints : Prints language print) (hother : Prints other print') :
    Prints (language + other) (Sum.elim print print') := by
  intro lexemes
  rw [Language.mem_add, hprints lexemes, hother lexemes, Sum.exists]
  rfl

theorem mul (hprints : Prints language print) (hother : Prints other print') :
    Prints (language * other) fun value : α × β => print value.1 ++ print' value.2 := by
  intro lexemes
  rw [Language.mem_mul]
  constructor
  · rintro ⟨left, hleft, right, hright, happend⟩
    obtain ⟨front, back, rfl, rfl, rfl⟩ := List.map_eq_append_iff.mp happend.symm
    obtain ⟨value, rfl⟩ := (hprints front).mp hleft
    obtain ⟨value', rfl⟩ := (hother back).mp hright
    exact ⟨(value, value'), rfl⟩
  · rintro ⟨⟨value, value'⟩, rfl⟩
    exact ⟨_, (hprints _).mpr ⟨value, rfl⟩, _, (hother _).mpr ⟨value', rfl⟩,
      List.map_append.symm⟩

theorem kstar (hprints : Prints language print) :
    Prints language∗ fun values : List α => values.flatMap print := by
  intro lexemes
  rw [Language.mem_kstar]
  constructor
  · rintro ⟨words, hwords, hall⟩
    induction words generalizing lexemes with
    | nil => exact ⟨[], (List.map_eq_nil_iff.mp hwords).symm⟩
    | cons word words ih =>
        rw [List.forall_mem_cons] at hall
        obtain ⟨front, back, rfl, rfl, hback⟩ := List.map_eq_append_iff.mp hwords
        obtain ⟨value, rfl⟩ := (hprints front).mp hall.1
        obtain ⟨values, rfl⟩ := ih back hback hall.2
        exact ⟨value :: values, rfl⟩
  · rintro ⟨values, rfl⟩
    refine ⟨values.map fun value => (print value).map Lexeme.kind, ?_, ?_⟩
    · dsimp only
      rw [List.map_flatMap, List.flatMap_def]
    · intro word hword
      obtain ⟨value, _, rfl⟩ := List.mem_map.mp hword
      exact (hprints _).mpr ⟨value, rfl⟩

/-- The values can be told in another way. -/
theorem of_surjective (hprints : Prints language print) (convert : α → β)
    (hsurjective : convert.Surjective) (hsame : ∀ value, print' (convert value) = print value) :
    Prints language print' := by
  intro lexemes
  rw [hprints lexemes, hsurjective.exists]
  simp only [hsame]

/-- Lexemes of one kind, one for each value. -/
theorem single {kind : TokenKind} {make : α → Lexeme}
    (hmake : ∀ lexeme : Lexeme, lexeme.kind = kind ↔ ∃ value, make value = lexeme) :
    Prints {[kind]} fun value => [make value] := by
  intro lexemes
  change lexemes.map Lexeme.kind = [kind] ↔ _
  rw [List.map_eq_singleton_iff]
  constructor
  · rintro ⟨lexeme, rfl, hkind⟩
    obtain ⟨value, rfl⟩ := (hmake lexeme).mp hkind
    exact ⟨value, rfl⟩
  · rintro ⟨value, rfl⟩
    exact ⟨make value, rfl, (hmake _).mpr ⟨value, rfl⟩⟩

end Prints

theorem prints_name : Prints {[.nonterminal]} fun name => [Lexeme.nonterminal name] :=
  .single fun lexeme => by cases lexeme <;> simp [Lexeme.kind]

theorem prints_symbol : Prints Kinds.symbol fun symbol : Symbol => [symbol.lexeme] := by
  have hterminal : Prints {[.terminal]} fun name => [Lexeme.terminal name] :=
    .single fun lexeme => by cases lexeme <;> simp [Lexeme.kind]
  refine (prints_name.add hterminal).of_surjective
    (Sum.elim Symbol.nonterminal Symbol.terminal) ?_ ?_
  · intro symbol
    cases symbol with
    | terminal name => exact ⟨.inr name, rfl⟩
    | nonterminal name => exact ⟨.inl name, rfl⟩
  · rintro (name | name) <;> rfl

theorem prints_production : Prints Kinds.production productionLexemes := by
  have hempty : Prints {[.empty]} fun _ : Unit => [Lexeme.empty] :=
    .single fun lexeme => by cases lexeme <;> simp [Lexeme.kind]
  refine (hempty.add (prints_symbol.mul prints_symbol.kstar)).of_surjective
    (Sum.elim (fun _ => []) fun symbols => symbols.1 :: symbols.2) ?_ ?_
  · intro production
    cases production with
    | nil => exact ⟨.inl (), rfl⟩
    | cons symbol rest => exact ⟨.inr (symbol, rest), rfl⟩
  · rintro (_ | ⟨symbol, rest⟩)
    · rfl
    · simp [productionLexemes, List.map_eq_flatMap]

theorem prints_clause : Prints Kinds.clause Clause.lexemes := by
  have hcolon : Prints {[.colon]} fun _ : Unit => [Lexeme.colon] :=
    .single fun lexeme => by cases lexeme <;> simp [Lexeme.kind]
  have hpipe : Prints {[.pipe]} fun _ : Unit => [Lexeme.pipe] :=
    .single fun lexeme => by cases lexeme <;> simp [Lexeme.kind]
  have hsemicolon : Prints {[.semicolon]} fun _ : Unit => [Lexeme.semicolon] :=
    .single fun lexeme => by cases lexeme <;> simp [Lexeme.kind]
  have hproductions := prints_production.mul (hpipe.mul prints_production).kstar
  refine (((prints_name.mul hcolon).mul hproductions).mul hsemicolon).of_surjective
    (fun value => ⟨value.1.1.1, value.1.2.1, value.1.2.2.map Prod.snd⟩) ?_ ?_
  · rintro ⟨name, first, others⟩
    exact ⟨(((name, ()), first, others.map fun production => ((), production)), ()), by simp⟩
  · rintro ⟨⟨⟨name, _⟩, first, others⟩, _⟩
    simp [Clause.lexemes, List.flatMap_map]

/-- The words of the language are the kinds of one or more clauses and the end of the text. -/
theorem prints_definition :
    Prints Kinds.definition fun clauses : Clause × List Clause =>
      clauses.1.lexemes ++ clauses.2.flatMap Clause.lexemes ++ [.endOfText] := by
  have hend : Prints {[.endOfText]} fun _ : Unit => [Lexeme.endOfText] :=
    .single fun lexeme => by cases lexeme <;> simp [Lexeme.kind]
  refine ((prints_clause.mul prints_clause.kstar).mul hend).of_surjective Prod.fst
    Prod.fst_surjective ?_
  exact fun _ => rfl

end Definition

end TopDown
