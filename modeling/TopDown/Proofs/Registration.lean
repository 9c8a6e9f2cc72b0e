import Mathlib.Data.List.Induction
import TopDown.Proofs.Numbering

/-!
# Numbering in two passes

A first pass over the rules enters every left-hand side and every terminal where it meets them
first, and notes each rule with its nonterminal; a number is the place of an entry among those made
so far. A second pass translates the productions. The main statement says that the tables which grow
on the way give the numbered grammar.
-/

namespace TopDown

theorem eraseDups_concat (names : List String) (name : String) :
    (names ++ [name]).eraseDups =
      if name ∈ names then names.eraseDups else names.eraseDups ++ [name] := by
  rw [List.eraseDups_append]
  split <;> simp [List.removeAll, List.eraseDups_cons, *]

/-- A name is entered behind the others, unless it is there. -/
def enterName (names : List String) (name : String) : List String :=
  if name ∈ names then names else names ++ [name]

/-- Notes a rule with its nonterminal, which is entered behind the others if it is new. -/
def enterRule (name : String) (rule : Nat) : List (String × List Nat) → List (String × List Nat)
  | [] => [(name, [rule])]
  | entry :: rest =>
      if entry.1 = name then (name, entry.2 ++ [rule]) :: rest
      else entry :: enterRule name rule rest

theorem enterName_eraseDups (names : List String) (name : String) :
    enterName names.eraseDups name = (names ++ [name]).eraseDups := by
  rw [eraseDups_concat, enterName]
  simp only [List.mem_eraseDups]

theorem foldl_enterName (names others : List String) :
    others.foldl enterName names.eraseDups = (names ++ others).eraseDups := by
  induction others generalizing names with
  | nil => rw [List.append_nil, List.foldl_nil]
  | cons name others ih =>
      rw [List.foldl_cons, enterName_eraseDups, ih, List.append_assoc, List.singleton_append]

/-- Entries stay where they are, so their places are their numbers for good. -/
theorem idxOf_enterName {names : List String} {name other : String} (hname : name ∈ names) :
    (enterName names other).idxOf name = names.idxOf name := by
  rw [enterName]
  split
  · rfl
  · exact List.idxOf_append_of_mem hname

/-- The place of an entry is known before it is made. -/
theorem idxOf_enterName_self (names : List String) (name : String) :
    (enterName names name).idxOf name = names.idxOf name := by
  rw [enterName]
  split
  · rfl
  · rename_i hname
    rw [List.idxOf_append_of_notMem hname, List.idxOf_cons_self, Nat.add_zero,
      List.idxOf_eq_length_iff.mpr hname]

theorem enterName_cons {first name : String} (names : List String) (hne : first ≠ name) :
    enterName (first :: names) name = first :: enterName names name := by
  simp only [enterName, List.mem_cons, hne.symm, false_or]
  split <;> rfl

theorem enterRule_map {names : List String} (hnodup : names.Nodup) {name : String} (rule : Nat)
    {noted : String → List Nat} (hnoted : name ∉ names → noted name = []) :
    enterRule name rule (names.map fun other => (other, noted other)) =
      (enterName names name).map fun other =>
        (other, if other = name then noted other ++ [rule] else noted other) := by
  induction names with
  | nil => simp [enterRule, enterName, hnoted]
  | cons first names ih =>
      rw [List.nodup_cons] at hnodup
      rw [List.map_cons, enterRule]
      by_cases hfirst : first = name
      · subst hfirst
        have hkept : ∀ other ∈ names, other ≠ first := fun other hother heq =>
          hnodup.1 (heq ▸ hother)
        rw [if_pos rfl, enterName, if_pos List.mem_cons_self, List.map_cons, if_pos rfl]
        refine congrArg _ (List.map_congr_left fun other hother => ?_)
        rw [if_neg (hkept other hother)]
      · have hrest : name ∉ names → noted name = [] := fun hname =>
          hnoted (List.not_mem_cons_of_ne_of_not_mem (Ne.symm hfirst) hname)
        rw [if_neg hfirst, enterName_cons names hfirst, List.map_cons, if_neg hfirst,
          ih hnodup.2 hrest]

/-! ### The first pass

What the register holds behind some rules is known from these rules: their left-hand sides and
terminals, each once, in the order in which they appear. Noting one more rule keeps this. -/

/-- What the first pass has noted: the names in the order of their entries, each nonterminal with
its rules, and for each rule the number of its left-hand side. -/
structure Register where
  terminals : List String
  nonterminals : List (String × List Nat)
  lhs : List Nat
deriving DecidableEq, Repr

namespace Register

def empty : Register :=
  { terminals := [], nonterminals := [], lhs := [] }

/-- Notes a rule under its number. -/
def note (register : Register) (entry : Rule × Nat) : Register :=
  { terminals := (entry.1.production.filterMap Symbol.terminal?).foldl enterName register.terminals
    nonterminals := enterRule entry.1.lhs entry.2 register.nonterminals
    lhs := register.lhs ++ [(register.nonterminals.map Prod.fst).idxOf entry.1.lhs] }

def ofGrammar (grammar : Grammar) : Register :=
  grammar.rules.zipIdx.foldl note empty

def numbering (register : Register) : Numbering :=
  { terminals := register.terminals, nonterminals := register.nonterminals.map Prod.fst }

end Register

/-- The numbers of the rules of a nonterminal. -/
def Grammar.rulesOf (grammar : Grammar) (name : String) : List Nat :=
  grammar.rules.zipIdx.filterMap fun entry => if entry.1.lhs = name then some entry.2 else none

theorem Grammar.rulesOf_concat (rules : List Rule) (rule : Rule) (name : String) :
    rulesOf { rules := rules ++ [rule] } name =
      if name = rule.lhs then rulesOf { rules := rules } name ++ [rules.length]
      else rulesOf { rules := rules } name := by
  rw [rulesOf, rulesOf, List.zipIdx_append, List.filterMap_append]
  by_cases hname : name = rule.lhs
  · simp [hname]
  · simp [hname, Ne.symm hname]

theorem Grammar.rulesOf_eq_nil {grammar : Grammar} {name : String}
    (hname : name ∉ grammar.rules.map Rule.lhs) : grammar.rulesOf name = [] := by
  rw [rulesOf, List.filterMap_eq_nil_iff]
  intro entry hentry
  rw [if_neg]
  rintro rfl
  exact hname (List.mem_map_of_mem (List.fst_mem_of_mem_zipIdx hentry))

namespace Register

/-- What is to be noted of a grammar. -/
def complete (grammar : Grammar) : Register :=
  { terminals := grammar.numbering.terminals
    nonterminals :=
      grammar.numbering.nonterminals.map fun name => (name, grammar.rulesOf name)
    lhs := grammar.rules.map fun rule => grammar.numbering.nonterminals.idxOf rule.lhs }

theorem map_fst_nonterminals (grammar : Grammar) :
    (complete grammar).nonterminals.map Prod.fst = grammar.numbering.nonterminals := by
  rw [complete, List.map_map]
  exact List.map_id _

theorem numbering_complete (grammar : Grammar) :
    (complete grammar).numbering = grammar.numbering := by
  rw [numbering, map_fst_nonterminals]
  rfl

/-- A register that is complete for some rules is so for one more when that is noted. -/
theorem note_complete (rules : List Rule) (rule : Rule) :
    (complete { rules := rules }).note (rule, rules.length) =
      complete { rules := rules ++ [rule] } := by
  have hentered : enterName (rules.map Rule.lhs).eraseDups rule.lhs =
      ((rules ++ [rule]).map Rule.lhs).eraseDups := by
    rw [enterName_eraseDups, List.map_append, List.map_singleton]
  rw [note, map_fst_nonterminals, complete, complete, mk.injEq]
  refine ⟨?_, ?_, ?_⟩
  · rw [Grammar.numbering, Grammar.numbering]
    dsimp only
    rw [foldl_enterName, List.flatMap_append, List.flatMap_singleton]
  · dsimp only [Grammar.numbering]
    rw [enterRule_map (nodup_eraseDups _) rules.length fun hname =>
      Grammar.rulesOf_eq_nil (by simpa using hname), hentered]
    simp only [Grammar.rulesOf_concat]
  · -- the numbers noted earlier stay right because entries keep their places
    dsimp only [Grammar.numbering]
    have hkept : ∀ earlier ∈ rules, ((rules ++ [rule]).map Rule.lhs).eraseDups.idxOf earlier.lhs =
        (rules.map Rule.lhs).eraseDups.idxOf earlier.lhs := by
      intro earlier hearlier
      rw [← hentered, idxOf_enterName (List.mem_eraseDups.mpr (List.mem_map_of_mem hearlier))]
    rw [List.map_append, List.map_congr_left hkept, List.map_singleton, ← hentered,
      idxOf_enterName_self]

/-- The first pass notes all there is. -/
theorem ofGrammar_eq (grammar : Grammar) : ofGrammar grammar = complete grammar := by
  obtain ⟨rules⟩ := grammar
  induction rules using List.reverseRecOn with
  | nil => rfl
  | append_singleton rules rule ih =>
      rw [ofGrammar, List.zipIdx_append, List.foldl_append, Nat.zero_add]
      exact (congrArg (·.note (rule, rules.length)) ih).trans (note_complete rules rule)

end Register

namespace Numbering

/-- A symbol of a rule by numbers. -/
def symbolOf (numbering : Numbering) (rule : Rule) (symbol : Symbol) :
    Except GrammarDefect NumberedSymbol :=
  match numbering.symbol? symbol with
  | some id => .ok id
  | none => .error (.undefinedNonterminal symbol.name rule)

/-- A rule by numbers, whose left-hand side has one already. -/
def translate (numbering : Numbering) (entry : Rule × Nat) : Except GrammarDefect NumberedRule := do
  let production ← entry.1.production.mapM (numbering.symbolOf entry.1)
  return { lhs := entry.2, production := production }

theorem translate_idxOf (numbering : Numbering) (rule : Rule) :
    numbering.translate (rule, numbering.nonterminals.idxOf rule.lhs) = numbering.rule rule :=
  rfl

end Numbering

namespace Grammar

/-- Numbers a grammar in two passes. -/
def numberInPasses (grammar : Grammar) : Except GrammarDefect NumberedGrammar :=
  if grammar.rules.isEmpty then .error .noRules
  else do
    let register := Register.ofGrammar grammar
    let rules ← (grammar.rules.zip register.lhs).mapM register.numbering.translate
    return { grammar := grammar, numbering := register.numbering, rules := rules }

theorem numberInPasses_eq (grammar : Grammar) : grammar.numberInPasses = grammar.number := by
  have hrules : grammar.rules.zip (Register.complete grammar).lhs =
      grammar.rules.map fun rule => (rule, grammar.numbering.nonterminals.idxOf rule.lhs) := by
    have hzip : (grammar.rules.map id).zip (Register.complete grammar).lhs = _ := List.zip_map'
    rwa [List.map_id] at hzip
  have htranslate : (grammar.numbering.translate ∘ fun rule =>
      (rule, grammar.numbering.nonterminals.idxOf rule.lhs)) = grammar.numbering.rule :=
    funext grammar.numbering.translate_idxOf
  rw [numberInPasses, Register.ofGrammar_eq]
  dsimp only
  rw [Register.numbering_complete, hrules, List.mapM_map, htranslate]
  rfl

end Grammar

end TopDown
