import Mathlib.Data.List.Chain
import TopDown.Proofs.Attempt

/-!
# Open calls

The expansions that are open at a time are a chain of calls, each made while its predecessor is
reading a production. A bound on the open expansions is exceeded exactly when there is a longer
chain.
-/

namespace TopDown

variable {τ : Type}

/-- A nonterminal that is to be read, and the input where its reading begins. -/
structure Call (τ : Type) where
  nonterminal : Nat
  input : Input τ

namespace Analysis

variable [InputToken τ]

/-- The outer call makes the inner one, once it has read what stands in front of the nonterminal. -/
inductive Opens (analysis : Analysis) : Call τ → Call τ → Prop
  | expand {outer : Call τ} {index depth nonterminal : Nat} {before after : List NumberedSymbol}
      {trees : List (Tree τ)}
      (hselect :
        analysis.select? outer.nonterminal (InputToken.kind outer.input.peek) = some index)
      (hsplit : analysis.grammar.production index = before ++ .nonterminal nonterminal :: after)
      (hbefore : (analysis.parseSymbols (analysis.parseNonterminal depth) before
        outer.input).outcome = .ok trees) :
      Opens analysis outer
        { nonterminal := nonterminal
          input := (analysis.parseSymbols (analysis.parseNonterminal depth) before
            outer.input).rest }

/-- The calls that are open at some time after the first one was made, in the order in which they
were made. -/
def OpenCalls (analysis : Analysis) (first : Call τ) (calls : List (Call τ)) : Prop :=
  calls.head? = some first ∧ calls.IsChain analysis.Opens

variable {analysis : Analysis}

theorem openCalls_singleton (call : Call τ) : analysis.OpenCalls call [call] :=
  ⟨rfl, .singleton call⟩

theorem openCalls_cons_cons_iff {first call next : Call τ} {calls : List (Call τ)} :
    analysis.OpenCalls first (call :: next :: calls) ↔
      call = first ∧ analysis.Opens call next ∧ analysis.OpenCalls next (next :: calls) := by
  simp [OpenCalls, List.isChain_cons_cons]

theorem exists_openCalls_of_exceeds {depth : Nat} (call : Call τ)
    (hexceeds : (analysis.parseNonterminal depth call.nonterminal call.input).Exceeds) :
    ∃ calls, analysis.OpenCalls call calls ∧ depth < calls.length := by
  induction depth generalizing call with
  | zero => exact ⟨[call], openCalls_singleton call, Nat.one_pos⟩
  | succ depth ih =>
      rw [parseNonterminal] at hexceeds
      cases hselect : analysis.select? call.nonterminal (InputToken.kind call.input.peek) with
      | none =>
          rw [hselect] at hexceeds
          cases hexceeds
      | some index =>
          rw [hselect] at hexceeds
          have hchildren := Attempt.exceeds_map_iff.mp hexceeds
          obtain ⟨before, nonterminal, after, trees, hsplit, hbefore, hinner⟩ :=
            exceeds_parseSymbols_iff.mp hchildren
          obtain ⟨calls, ⟨hhead, hchain⟩, hlength⟩ := ih ⟨nonterminal, _⟩ hinner
          refine ⟨call :: calls, ⟨rfl, ?_⟩, Nat.succ_lt_succ hlength⟩
          cases calls with
          | nil => cases hhead
          | cons next calls =>
              rw [List.head?_cons, Option.some.injEq] at hhead
              rw [List.isChain_cons_cons, hhead]
              rw [hhead] at hchain
              exact ⟨.expand hselect hsplit hbefore, hchain⟩

theorem exceeds_of_openCalls {depth : Nat} {call : Call τ} {calls : List (Call τ)}
    (hopen : analysis.OpenCalls call calls) (hlength : depth < calls.length) :
    (analysis.parseNonterminal depth call.nonterminal call.input).Exceeds := by
  induction depth generalizing call calls with
  | zero => rfl
  | succ depth ih =>
      obtain ⟨outer, next, calls, rfl⟩ : ∃ first next rest, calls = first :: next :: rest := by
        match calls, hlength with
        | first :: next :: rest, _ => exact ⟨first, next, rest, rfl⟩
      obtain ⟨rfl, hopens, hlater⟩ := openCalls_cons_cons_iff.mp hopen
      have hnext := ih hlater (Nat.lt_of_succ_lt_succ hlength)
      obtain @⟨index, depth', nonterminal, before, after, trees, hselect, hsplit, hbefore⟩ :=
        hopens
      rw [parseNonterminal, hselect]
      refine Attempt.exceeds_map_iff.mpr ?_
      rw [hsplit]
      by_cases hexceeds :
          (analysis.parseSymbols (analysis.parseNonterminal depth) before outer.input).Exceeds
      · rw [parseSymbols_append, Attempt.exceeds_andThen_iff]
        exact .inl hexceeds
      · have hexceeds' :
            ¬ (analysis.parseSymbols (analysis.parseNonterminal depth') before
              outer.input).Exceeds := by
          rw [Attempt.Exceeds, hbefore]
          intro hcontra
          cases hcontra
        have hsame := parseSymbols_depth_eq hexceeds' hexceeds
        rw [hsame] at hbefore hnext
        exact exceeds_parseSymbols_iff.mpr ⟨before, nonterminal, after, trees, rfl, hbefore, hnext⟩

/-- The bound counts the open calls. -/
theorem exceeds_iff {depth : Nat} {call : Call τ} :
    (analysis.parseNonterminal depth call.nonterminal call.input).Exceeds ↔
      ∃ calls, analysis.OpenCalls call calls ∧ depth < calls.length := by
  constructor
  · exact exists_openCalls_of_exceeds call
  · rintro ⟨calls, hopen, hlength⟩
    exact exceeds_of_openCalls hopen hlength

end Analysis

end TopDown
