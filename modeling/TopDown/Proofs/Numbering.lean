import Mathlib.Data.List.Nodup
import TopDown.Grammar.Numbered

/-!
# Numbers and names

A numbered grammar says what the grammar says: each number stands for one name, and each rule by
numbers is the rule by names. The main statement gives this for every grammar that can be numbered.
-/

namespace TopDown

theorem nodup_eraseDups (names : List String) : names.eraseDups.Nodup := by
  match names with
  | [] => exact List.nodup_nil
  | name :: rest =>
      rw [List.eraseDups_cons, List.nodup_cons, List.mem_eraseDups]
      exact ⟨by simp, nodup_eraseDups (rest.filter fun other => !other == name)⟩
termination_by names.length
decreasing_by
  exact Nat.lt_succ_of_le (List.length_filter_le ..)

theorem head?_eraseDups (names : List String) : names.eraseDups.head? = names.head? := by
  cases names with
  | nil => rfl
  | cons name rest => rw [List.eraseDups_cons, List.head?_cons, List.head?_cons]

theorem getElem?_of_idxOf? {names : List String} {name : String} {id : Nat}
    (hid : names.idxOf? name = some id) : names[id]? = some name := by
  obtain ⟨hlt, hname, _⟩ := List.idxOf?_eq_some_iff.mp hid
  rw [List.getElem?_eq_getElem hlt, hname]

theorem idxOf?_of_getElem? {names : List String} (hnodup : names.Nodup) {name : String} {id : Nat}
    (hname : names[id]? = some name) : names.idxOf? name = some id := by
  obtain ⟨hlt, hget⟩ := List.getElem?_eq_some_iff.mp hname
  refine List.idxOf?_eq_some_iff.mpr ⟨hlt, hget, fun other hother heq => ?_⟩
  have hsame := (List.Nodup.getElem_inj_iff hnodup).mp (heq.trans hget.symm)
  omega

/-- A conversion that can be undone converts a list element by element. -/
theorem map_eq_of_mapM {α β ε : Type} {convert : α → Except ε β} (undo : β → α) (good : β → Prop)
    {values : List α} {results : List β}
    (hconvert : ∀ value ∈ values, ∀ result, convert value = .ok result →
      undo result = value ∧ good result)
    (hresults : values.mapM convert = .ok results) :
    results.map undo = values ∧ ∀ result ∈ results, good result := by
  induction values generalizing results with
  | nil =>
      rw [List.mapM_nil] at hresults
      cases hresults
      simp
  | cons value values ih =>
      rw [List.mapM_cons] at hresults
      cases hvalue : convert value with
      | error error =>
          rw [hvalue] at hresults
          cases hresults
      | ok result =>
          cases hrest : values.mapM convert with
          | error error =>
              rw [hvalue, hrest] at hresults
              cases hresults
          | ok rest =>
              rw [hvalue, hrest] at hresults
              cases hresults
              rw [List.forall_mem_cons] at hconvert
              obtain ⟨hundo, hgood⟩ := hconvert.1 result hvalue
              obtain ⟨hundoRest, hgoodRest⟩ := ih hconvert.2 hrest
              rw [List.map_cons, hundo, hundoRest, List.forall_mem_cons]
              exact ⟨rfl, hgood, hgoodRest⟩

namespace Numbering

def nonterminalName (numbering : Numbering) (id : Nat) : String :=
  (numbering.nonterminalName? id).getD ""

def decode (numbering : Numbering) : NumberedSymbol → Symbol
  | .terminal id => .terminal (numbering.terminals[id]?.getD "")
  | .nonterminal id => .nonterminal (numbering.nonterminalName id)

def decodeRule (numbering : Numbering) (rule : NumberedRule) : Rule :=
  { lhs := numbering.nonterminalName rule.lhs
    production := rule.production.map numbering.decode }

/-- The number of the symbol is in use. -/
def Uses (numbering : Numbering) : NumberedSymbol → Prop
  | .terminal id => id < numbering.terminals.length
  | .nonterminal id => id < numbering.nonterminals.length

variable {numbering : Numbering}

theorem nonterminalName_eq_of_getElem? {id : Nat} {name : String}
    (hname : numbering.nonterminals[id]? = some name) : numbering.nonterminalName id = name := by
  rw [nonterminalName, nonterminalName?, hname, Option.getD_some]

theorem decode_of_symbol? {symbol : Symbol} {numbered : NumberedSymbol}
    (hsymbol : numbering.symbol? symbol = some numbered) :
    numbering.decode numbered = symbol ∧ numbering.Uses numbered := by
  cases symbol with
  | terminal name =>
      obtain ⟨id, hid, rfl⟩ := Option.map_eq_some_iff.mp hsymbol
      have hname := getElem?_of_idxOf? hid
      refine ⟨?_, (List.getElem?_eq_some_iff.mp hname).1⟩
      rw [decode, hname, Option.getD_some]
  | nonterminal name =>
      obtain ⟨id, hid, rfl⟩ := Option.map_eq_some_iff.mp hsymbol
      have hname := getElem?_of_idxOf? hid
      refine ⟨?_, (List.getElem?_eq_some_iff.mp hname).1⟩
      rw [decode, nonterminalName_eq_of_getElem? hname]

theorem decodeRule_of_rule {rule : Rule} {numbered : NumberedRule}
    (hlhs : rule.lhs ∈ numbering.nonterminals) (hrule : numbering.rule rule = .ok numbered) :
    numbering.decodeRule numbered = rule ∧ numbered.lhs < numbering.nonterminals.length ∧
      ∀ symbol ∈ numbered.production, numbering.Uses symbol := by
  obtain ⟨convert, hconvert, hrule⟩ : ∃ convert : Symbol → Except GrammarDefect NumberedSymbol,
      (∀ symbol result, convert symbol = .ok result → numbering.symbol? symbol = some result) ∧
      (do
        let production ← rule.production.mapM convert
        return { lhs := numbering.nonterminals.idxOf rule.lhs, production := production }) =
          Except.ok numbered := by
    refine ⟨_, ?_, hrule⟩
    intro symbol result hresult
    split at hresult
    · cases hresult
      assumption
    · cases hresult
  cases hproduction : rule.production.mapM convert with
  | error error =>
      rw [hproduction] at hrule
      cases hrule
  | ok production =>
      rw [hproduction] at hrule
      cases hrule
      obtain ⟨hsymbols, huses⟩ := map_eq_of_mapM numbering.decode numbering.Uses
        (fun symbol _ result hresult => decode_of_symbol? (hconvert symbol result hresult))
        hproduction
      have hlt := List.idxOf_lt_length_of_mem hlhs
      refine ⟨?_, hlt, huses⟩
      have hname :
          numbering.nonterminals[numbering.nonterminals.idxOf rule.lhs]? = some rule.lhs := by
        rw [List.getElem?_eq_getElem hlt, List.getElem_idxOf hlt]
      rw [decodeRule, hsymbols, nonterminalName_eq_of_getElem? hname]

end Numbering

/-- A numbered grammar with the names and the rules of a grammar. -/
structure NumberedGrammar.Represents (numbered : NumberedGrammar) (grammar : Grammar) : Prop where
  grammar_eq : numbered.grammar = grammar
  terminals_nodup : numbered.numbering.terminals.Nodup
  nonterminals_nodup : numbered.numbering.nonterminals.Nodup
  mem_nonterminals : ∀ {name}, name ∈ numbered.numbering.nonterminals ↔
    ∃ rule ∈ grammar.rules, rule.lhs = name
  start_eq : numbered.numbering.nonterminals[Numbering.start]? = grammar.start?
  rules_ne_nil : grammar.rules ≠ []
  map_decodeRule : numbered.rules.map numbered.numbering.decodeRule = grammar.rules
  lhs_lt : ∀ rule ∈ numbered.rules, rule.lhs < numbered.nonterminalCount
  uses : ∀ rule ∈ numbered.rules, ∀ symbol ∈ rule.production, numbered.numbering.Uses symbol

theorem Grammar.mem_nonterminals_numbering {grammar : Grammar} {name : String} :
    name ∈ grammar.numbering.nonterminals ↔ ∃ rule ∈ grammar.rules, rule.lhs = name := by
  rw [numbering, List.mem_eraseDups, List.mem_map]

/-- Numbering a grammar neither adds to it nor loses any of it. -/
theorem NumberedGrammar.represents_of_number {grammar : Grammar} {numbered : NumberedGrammar}
    (hnumber : grammar.number = .ok numbered) : numbered.Represents grammar := by
  unfold Grammar.number at hnumber
  split at hnumber
  · cases hnumber
  · rename_i hrules
    cases hmap : grammar.rules.mapM grammar.numbering.rule with
    | error error =>
        rw [hmap] at hnumber
        cases hnumber
    | ok rules =>
        rw [hmap] at hnumber
        cases hnumber
        have hmem : ∀ rule ∈ grammar.rules, rule.lhs ∈ grammar.numbering.nonterminals :=
          fun rule hrule => Grammar.mem_nonterminals_numbering.mpr ⟨rule, hrule, rfl⟩
        obtain ⟨hdecode, hgood⟩ := map_eq_of_mapM grammar.numbering.decodeRule
          (fun rule => rule.lhs < grammar.numbering.nonterminals.length ∧
            ∀ symbol ∈ rule.production, grammar.numbering.Uses symbol)
          (fun rule hrule _ hok => Numbering.decodeRule_of_rule (hmem rule hrule) hok) hmap
        exact
          { grammar_eq := rfl
            terminals_nodup := nodup_eraseDups _
            nonterminals_nodup := nodup_eraseDups _
            mem_nonterminals := Grammar.mem_nonterminals_numbering
            start_eq := by
              rw [Grammar.start?, ← List.head?_map, ← head?_eraseDups, List.head?_eq_getElem?]
              rfl
            rules_ne_nil := by simpa using hrules
            map_decodeRule := hdecode
            lhs_lt := fun rule hrule => (hgood rule hrule).1
            uses := fun rule hrule => (hgood rule hrule).2 }

end TopDown
