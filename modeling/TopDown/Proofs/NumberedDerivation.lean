import TopDown.Proofs.Derivation
import TopDown.Proofs.Numbering

/-!
# Derivations by numbers

A numbered grammar derives the numbers of what the grammar derives.
-/

namespace TopDown.NumberedGrammar

inductive Replaces (numbered : NumberedGrammar) : NumberedSymbol → List NumberedSymbol → Prop
  | rule {rule : NumberedRule} (hrule : rule ∈ numbered.rules) :
      Replaces numbered (.nonterminal rule.lhs) rule.production

abbrev Derives (numbered : NumberedGrammar) : List NumberedSymbol → List NumberedSymbol → Prop :=
  Rewriting.Derives numbered.Replaces

theorem derives_of_rule {numbered : NumberedGrammar} {rule : NumberedRule}
    (hrule : rule ∈ numbered.rules) :
    numbered.Derives [.nonterminal rule.lhs] rule.production :=
  .of_replaces (.rule hrule)

namespace Represents

variable {grammar : Grammar} {numbered : NumberedGrammar}

theorem mem_rules (hrepresents : numbered.Represents grammar) {rule : Rule} :
    rule ∈ grammar.rules ↔
      ∃ numberedRule ∈ numbered.rules, numbered.numbering.decodeRule numberedRule = rule := by
  rw [← hrepresents.map_decodeRule, List.mem_map]

theorem decodeRule_mem (hrepresents : numbered.Represents grammar) {rule : NumberedRule}
    (hrule : rule ∈ numbered.rules) : numbered.numbering.decodeRule rule ∈ grammar.rules :=
  hrepresents.mem_rules.mpr ⟨rule, hrule, rfl⟩

theorem getElem?_rules (hrepresents : numbered.Represents grammar) {index : Nat}
    {rule : NumberedRule} (hrule : numbered.rules[index]? = some rule) :
    grammar.rules[index]? = some (numbered.numbering.decodeRule rule) := by
  rw [← hrepresents.map_decodeRule, List.getElem?_map, hrule, Option.map_some]

theorem exists_getElem?_rules (hrepresents : numbered.Represents grammar) {index : Nat}
    {rule : Rule} (hrule : grammar.rules[index]? = some rule) :
    ∃ origin, numbered.rules[index]? = some origin ∧
      numbered.numbering.decodeRule origin = rule := by
  rw [← hrepresents.map_decodeRule, List.getElem?_map, Option.map_eq_some_iff] at hrule
  exact hrule

theorem nonterminalName_inj (hrepresents : numbered.Represents grammar) {left right : Nat}
    (hleft : left < numbered.nonterminalCount) (hright : right < numbered.nonterminalCount)
    (hname : numbered.numbering.nonterminalName left = numbered.numbering.nonterminalName right) :
    left = right := by
  have hget := List.getElem?_eq_getElem hleft
  have hget' := List.getElem?_eq_getElem hright
  rw [Numbering.nonterminalName_eq_of_getElem? hget,
    Numbering.nonterminalName_eq_of_getElem? hget'] at hname
  exact (List.Nodup.getElem_inj_iff hrepresents.nonterminals_nodup).mp hname

/-- Every nonterminal has a rule. -/
theorem exists_rule (hrepresents : numbered.Represents grammar) {id : Nat}
    (hid : id < numbered.nonterminalCount) :
    ∃ rule ∈ grammar.rules, rule.lhs = numbered.numbering.nonterminalName id := by
  apply hrepresents.mem_nonterminals.mp
  rw [Numbering.nonterminalName_eq_of_getElem? (List.getElem?_eq_getElem hid)]
  exact List.getElem_mem hid

theorem start_lt (hrepresents : numbered.Represents grammar) :
    Numbering.start < numbered.nonterminalCount := by
  obtain ⟨rule, rest, hrules⟩ := List.exists_cons_of_ne_nil hrepresents.rules_ne_nil
  have hstart := hrepresents.start_eq
  rw [Grammar.start?, hrules, List.head?_cons, Option.map_some] at hstart
  exact (List.getElem?_eq_some_iff.mp hstart).1

theorem start?_eq (hrepresents : numbered.Represents grammar) :
    grammar.start? = some (numbered.numbering.nonterminalName Numbering.start) := by
  have hget := List.getElem?_eq_getElem hrepresents.start_lt
  rw [← hrepresents.start_eq, Numbering.nonterminalName_eq_of_getElem? hget]
  exact hget

theorem fruitful (hrepresents : numbered.Represents grammar)
    (hproductive : ∀ rule ∈ grammar.rules, grammar.Yields [.nonterminal rule.lhs]) :
    grammar.Fruitful := by
  intro rule hrule
  obtain ⟨origin, horigin, rfl⟩ := hrepresents.mem_rules.mp hrule
  apply Grammar.yields_of_forall
  intro symbol hsymbol
  obtain ⟨id, hid, rfl⟩ := List.mem_map.mp hsymbol
  cases id with
  | terminal id => exact ⟨[_], .refl _⟩
  | nonterminal id =>
      obtain ⟨rule, hrule, hlhs⟩ := hrepresents.exists_rule (hrepresents.uses origin horigin _ hid)
      rw [Numbering.decode, ← hlhs]
      exact hproductive rule hrule

theorem decode_derives (hrepresents : numbered.Represents grammar)
    {form next : List NumberedSymbol} (hderives : numbered.Derives form next) :
    grammar.Derives (form.map numbered.numbering.decode) (next.map numbered.numbering.decode) := by
  apply hderives.map
  intro symbol replacement hreplaces
  obtain ⟨hrule⟩ := hreplaces
  exact .rule (hrepresents.decodeRule_mem hrule)

theorem uses_of_derives (hrepresents : numbered.Represents grammar)
    {form next : List NumberedSymbol} (huses : ∀ symbol ∈ form, numbered.numbering.Uses symbol)
    (hderives : numbered.Derives form next) :
    ∀ symbol ∈ next, numbered.numbering.Uses symbol := by
  refine hderives.forall_mem (fun hreplaces _ => ?_) huses
  obtain ⟨hrule⟩ := hreplaces
  exact hrepresents.uses _ hrule

theorem exists_replaces (hrepresents : numbered.Represents grammar) {symbol : NumberedSymbol}
    {replacement : List Symbol} (huses : numbered.numbering.Uses symbol)
    (hreplaces : grammar.Replaces (numbered.numbering.decode symbol) replacement) :
    ∃ origin, replacement = origin.map numbered.numbering.decode ∧
      numbered.Replaces symbol origin ∧ ∀ symbol ∈ origin, numbered.numbering.Uses symbol := by
  generalize hdecode : numbered.numbering.decode symbol = decoded at hreplaces
  obtain ⟨hrule⟩ := hreplaces
  obtain ⟨rule, hmem, rfl⟩ := hrepresents.mem_rules.mp hrule
  cases symbol with
  | terminal id => cases hdecode
  | nonterminal id =>
      rw [Numbering.decode, Numbering.decodeRule, Symbol.nonterminal.injEq] at hdecode
      have hid := hrepresents.nonterminalName_inj huses (hrepresents.lhs_lt rule hmem) hdecode
      subst hid
      exact ⟨rule.production, rfl, .rule hmem, hrepresents.uses rule hmem⟩

theorem exists_derives (hrepresents : numbered.Represents grammar) {form : List NumberedSymbol}
    {next : List Symbol} (huses : ∀ symbol ∈ form, numbered.numbering.Uses symbol)
    (hderives : grammar.Derives (form.map numbered.numbering.decode) next) :
    ∃ origin, next = origin.map numbered.numbering.decode ∧ numbered.Derives form origin ∧
      ∀ symbol ∈ origin, numbered.numbering.Uses symbol :=
  hderives.of_map (fun huses hreplaces => hrepresents.exists_replaces huses hreplaces) huses

end Represents

end TopDown.NumberedGrammar
