import TopDown.Analysis.Basic
import TopDown.Proofs.NumberedDerivation
import TopDown.Proofs.Registration

/-!
# Which grammars are analysed

A grammar is analysed when it has rules and every nonterminal that its productions use has a rule.
-/

namespace TopDown

variable {grammar : Grammar} {name : String}

/-- Every nonterminal in a production has a rule. -/
def Grammar.IsClosed (grammar : Grammar) : Prop :=
  ∀ rule ∈ grammar.rules, ∀ name, .nonterminal name ∈ rule.production →
    ∃ other ∈ grammar.rules, other.lhs = name

theorem NumberedGrammar.Represents.isClosed {numbered : NumberedGrammar}
    (hrepresents : numbered.Represents grammar) : grammar.IsClosed := by
  intro rule hrule name hname
  obtain ⟨origin, horigin, rfl⟩ := hrepresents.mem_rules.mp hrule
  obtain ⟨symbol, hsymbol, hdecode⟩ := List.mem_map.mp hname
  cases symbol with
  | terminal id => cases hdecode
  | nonterminal id =>
      rw [Numbering.decode, Symbol.nonterminal.injEq] at hdecode
      rw [← hdecode]
      exact hrepresents.exists_rule (hrepresents.uses origin horigin _ hsymbol)

theorem exists_map_eq_ok_iff {α β ε : Type} {converted : Except ε α} {build : α → β} :
    (∃ built, (do let result ← converted; return build result) = Except.ok built) ↔
      ∃ result, converted = .ok result := by
  cases converted with
  | error other =>
      constructor <;>
      · rintro ⟨_, ⟨⟩⟩
  | ok result => exact iff_of_true ⟨_, rfl⟩ ⟨_, rfl⟩

theorem exists_mapM_eq_ok_iff {α β ε : Type} {convert : α → Except ε β} {values : List α} :
    (∃ results, values.mapM convert = .ok results) ↔
      ∀ value ∈ values, ∃ result, convert value = .ok result := by
  induction values with
  | nil => exact iff_of_true ⟨[], List.mapM_nil⟩ (by simp)
  | cons value values ih =>
      rw [List.mapM_cons, List.forall_mem_cons]
      cases hvalue : convert value with
      | error error =>
          refine iff_of_false ?_ ?_
          · rintro ⟨results, ⟨⟩⟩
          · rintro ⟨⟨result, ⟨⟩⟩, _⟩
      | ok result =>
          rw [← ih, and_iff_right ⟨result, rfl⟩]
          exact exists_map_eq_ok_iff

theorem exists_idxOf?_of_mem {names : List String} (hname : name ∈ names) :
    ∃ id, names.idxOf? name = some id := by
  rw [← Option.isSome_iff_exists, List.isSome_idxOf?]
  exact hname

namespace Numbering

variable {numbering : Numbering} {rule : Rule} {symbol : Symbol}

theorem exists_rule_iff :
    (∃ numbered, numbering.rule rule = .ok numbered) ↔
      ∃ production, rule.production.mapM (numbering.symbolOf rule) = .ok production :=
  exists_map_eq_ok_iff

theorem exists_symbolOf_iff :
    (∃ id, numbering.symbolOf rule symbol = .ok id) ↔
      ∃ id, numbering.symbol? symbol = some id := by
  unfold symbolOf
  cases numbering.symbol? symbol <;> simp

end Numbering

namespace Grammar

theorem mem_terminals_numbering {rule : Rule} (hrule : rule ∈ grammar.rules)
    (hname : .terminal name ∈ rule.production) : name ∈ grammar.numbering.terminals := by
  rw [numbering, List.mem_eraseDups, List.mem_flatMap]
  exact ⟨rule, hrule, List.mem_filterMap.mpr ⟨.terminal name, hname, rfl⟩⟩

theorem IsClosed.exists_symbol? (hclosed : grammar.IsClosed) {rule : Rule}
    (hrule : rule ∈ grammar.rules) {symbol : Symbol} (hsymbol : symbol ∈ rule.production) :
    ∃ numbered, grammar.numbering.symbol? symbol = some numbered := by
  cases symbol with
  | terminal name =>
      obtain ⟨id, hid⟩ := exists_idxOf?_of_mem (mem_terminals_numbering hrule hsymbol)
      exact ⟨.terminal id, Option.map_eq_some_iff.mpr ⟨id, hid, rfl⟩⟩
  | nonterminal name =>
      obtain ⟨id, hid⟩ :=
        exists_idxOf?_of_mem (mem_nonterminals_numbering.mpr (hclosed rule hrule name hsymbol))
      exact ⟨.nonterminal id, Option.map_eq_some_iff.mpr ⟨id, hid, rfl⟩⟩

theorem IsClosed.exists_rule (hclosed : grammar.IsClosed) {rule : Rule}
    (hrule : rule ∈ grammar.rules) : ∃ numbered, grammar.numbering.rule rule = .ok numbered := by
  rw [Numbering.exists_rule_iff, exists_mapM_eq_ok_iff]
  exact fun symbol hsymbol =>
    Numbering.exists_symbolOf_iff.mpr (hclosed.exists_symbol? hrule hsymbol)

/-- Exactly the grammars with rules that are closed can be numbered. -/
theorem exists_number_iff :
    (∃ numbered, grammar.number = .ok numbered) ↔ grammar.rules ≠ [] ∧ grammar.IsClosed := by
  constructor
  · rintro ⟨numbered, hnumber⟩
    have hrepresents := NumberedGrammar.represents_of_number hnumber
    exact ⟨hrepresents.rules_ne_nil, hrepresents.isClosed⟩
  · rintro ⟨hrules, hclosed⟩
    obtain ⟨rules, hmap⟩ :=
      exists_mapM_eq_ok_iff.mpr fun rule hrule => hclosed.exists_rule hrule
    refine ⟨{ grammar := grammar, numbering := grammar.numbering, rules := rules }, ?_⟩
    rw [number, if_neg (by simpa using hrules), hmap]
    rfl

end Grammar

theorem Analysis.exists_ofGrammar_iff :
    (∃ analysis, ofGrammar grammar = .ok analysis) ↔ grammar.rules ≠ [] ∧ grammar.IsClosed := by
  rw [← Grammar.exists_number_iff]
  unfold ofGrammar
  constructor
  · rintro ⟨analysis, hanalysis⟩
    cases hnumber : grammar.number with
    | error defect =>
        rw [hnumber] at hanalysis
        cases hanalysis
    | ok numbered => exact ⟨numbered, rfl⟩
  · rintro ⟨numbered, hnumber⟩
    rw [hnumber]
    exact ⟨ofNumbered numbered, rfl⟩

end TopDown
