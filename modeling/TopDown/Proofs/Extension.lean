import TopDown.Proofs.Acceptance
import TopDown.Proofs.FollowDerivation
import TopDown.Proofs.Tables

/-!
# Rules that are added

Rules for new nonterminals are put behind the rules of a grammar. The start symbol reaches none of
them, yet their productions can put terminals behind the nonterminals of the grammar. The main
statement says that this is all that they change in the analysis.
-/

namespace TopDown

namespace Grammar

/-- The grammar with more rules behind its own. -/
def extend (grammar : Grammar) (extra : List Rule) : Grammar :=
  { rules := grammar.rules ++ extra }

/-- Terminals have no rules; a nonterminal is one of the grammar when it has rules there. -/
def Has (grammar : Grammar) : Symbol → Prop
  | .terminal _ => True
  | .nonterminal name => ∃ rule ∈ grammar.rules, rule.lhs = name

/-- The added rules put the terminal behind the nonterminal. -/
def Adds (grammar : Grammar) (extra : List Rule) (name : String) (seen : Lookahead) : Prop :=
  ∃ next, seen = .terminal next ∧ (grammar.extend extra).Adjoins extra name next

variable {grammar : Grammar} {extra : List Rule} {form next : List Symbol} {name : String}
  {seen : Lookahead}

theorem mem_extend {rule : Rule} :
    rule ∈ (grammar.extend extra).rules ↔ rule ∈ grammar.rules ∨ rule ∈ extra :=
  List.mem_append

theorem getElem?_extend {index : Nat} (hindex : index < grammar.rules.length) :
    (grammar.extend extra).rules[index]? = grammar.rules[index]? :=
  List.getElem?_append_left hindex

theorem lt_of_getElem?_extend {index : Nat} {rule : Rule}
    (hrule : (grammar.extend extra).rules[index]? = some rule) (hextra : rule ∉ extra) :
    index < grammar.rules.length := by
  by_contra hge
  rw [extend, List.getElem?_append_right (Nat.le_of_not_lt hge)] at hrule
  exact hextra (List.mem_of_getElem? hrule)

theorem IsClosed.has (hclosed : grammar.IsClosed) {rule : Rule} (hrule : rule ∈ grammar.rules) :
    ∀ symbol ∈ rule.production, grammar.Has symbol := by
  intro symbol hsymbol
  cases symbol with
  | terminal name => trivial
  | nonterminal name => exact hclosed rule hrule name hsymbol

theorem derives_extend (hderives : grammar.Derives form next) :
    (grammar.extend extra).Derives form next := by
  refine hderives.mono fun hreplaces => ?_
  obtain ⟨hrule⟩ := hreplaces
  exact .rule (mem_extend.mpr (.inl hrule))

/-! ### Rules for new nonterminals

Rules of the grammar apply as before, since the added rules are for other nonterminals. What the
added rules derive can hold nonterminals of the grammar, and there something new can stand behind
them. -/

section Fresh

variable (hclosed : grammar.IsClosed)
  (hfresh : ∀ rule ∈ extra, ∀ own ∈ grammar.rules, own.lhs ≠ rule.lhs)
include hclosed hfresh

/-- Where only nonterminals of the grammar stand, only rules of the grammar apply. -/
theorem derives_of_extend (hform : ∀ symbol ∈ form, grammar.Has symbol)
    (hderives : (grammar.extend extra).Derives form next) : grammar.Derives form next := by
  induction hderives with
  | refl => exact .refl form
  | tail _ hstep ih =>
      obtain ⟨before, after, hreplaces⟩ := hstep
      obtain @⟨rule, hrule⟩ := hreplaces
      have hhas : ∀ symbol ∈ before ++ .nonterminal rule.lhs :: after, grammar.Has symbol := by
        refine ih.forall_mem (fun hreplaces _ => ?_) hform
        obtain ⟨hown⟩ := hreplaces
        exact hclosed.has hown
      -- an added rule would need an added nonterminal to apply to
      obtain ⟨own, hown, hlhs⟩ := hhas (.nonterminal rule.lhs) (by simp)
      have hrule := (mem_extend.mp hrule).resolve_right fun hextra =>
        hfresh rule hextra own hown hlhs
      exact ih.tail (.replace before after (.rule hrule))

theorem derives_extend_iff (hform : ∀ symbol ∈ form, grammar.Has symbol) :
    (grammar.extend extra).Derives form next ↔ grammar.Derives form next :=
  ⟨derives_of_extend hclosed hfresh hform, derives_extend⟩

theorem derives_lhs_extend_iff {rule : Rule} (hrule : rule ∈ grammar.rules) :
    (grammar.extend extra).Derives [.nonterminal rule.lhs] next ↔
      grammar.Derives [.nonterminal rule.lhs] next := by
  refine derives_extend_iff hclosed hfresh fun symbol hsymbol => ?_
  rw [List.mem_singleton.mp hsymbol]
  exact ⟨rule, hrule, rfl⟩

theorem adjoins_extend_iff {next : String} :
    (grammar.extend extra).Adjoins (grammar.extend extra).rules name next ↔
      grammar.Adjoins grammar.rules name next ∨
        (grammar.extend extra).Adjoins extra name next := by
  constructor
  · rintro ⟨rule, hrule, before, after, hderives⟩
    rcases mem_extend.mp hrule with hown | hextra
    · exact .inl ⟨rule, hown, before, after,
        (derives_lhs_extend_iff hclosed hfresh hown).mp hderives⟩
    · exact .inr ⟨rule, hextra, before, after, hderives⟩
  · rintro (⟨rule, hown, before, after, hderives⟩ | ⟨rule, hextra, hderives⟩)
    · exact ⟨rule, mem_extend.mpr (.inl hown), before, after, derives_extend hderives⟩
    · exact ⟨rule, mem_extend.mpr (.inr hextra), hderives⟩

theorem endsIn_extend_iff (hrules : grammar.rules ≠ []) :
    (grammar.extend extra).EndsIn name ↔ grammar.EndsIn name := by
  have hstart : (grammar.extend extra).start? = grammar.start? := by
    obtain ⟨rule, rest, hcons⟩ := List.exists_cons_of_ne_nil hrules
    rw [start?, start?, extend, hcons, List.cons_append, List.head?_cons, List.head?_cons]
  unfold EndsIn
  rw [hstart]
  constructor
  · rintro ⟨start, before, hstart, hderives⟩
    obtain ⟨rule, hrule, rfl⟩ := exists_rule_of_start hstart
    exact ⟨_, before, hstart, (derives_lhs_extend_iff hclosed hfresh hrule).mp hderives⟩
  · rintro ⟨start, before, hstart, hderives⟩
    exact ⟨start, before, hstart, derives_extend hderives⟩

theorem follows_extend_iff (hrules : grammar.rules ≠ []) :
    (grammar.extend extra).Follows name seen ↔
      grammar.Follows name seen ∨ grammar.Adds extra name seen := by
  cases seen with
  | endOfInput =>
      rw [follows_endOfInput_iff, follows_endOfInput_iff,
        endsIn_extend_iff hclosed hfresh hrules, or_iff_left]
      rintro ⟨next, hnext, _⟩
      cases hnext
  | terminal next =>
      rw [follows_terminal_iff, follows_terminal_iff, adjoins_extend_iff hclosed hfresh]
      refine or_congr_right ⟨fun hadjoins => ⟨next, rfl, hadjoins⟩, ?_⟩
      rintro ⟨other, hother, hadjoins⟩
      cases hother
      exact hadjoins

theorem predicts_extend_iff (hrules : grammar.rules ≠ []) {rule : Rule}
    (hrule : rule ∈ grammar.rules) :
    (grammar.extend extra).Predicts rule seen ↔
      grammar.Predicts rule seen ∨
        grammar.Derives rule.production [] ∧ grammar.Adds extra rule.lhs seen := by
  have hderives {next : List Symbol} : (grammar.extend extra).Derives rule.production next ↔
      grammar.Derives rule.production next :=
    derives_extend_iff hclosed hfresh (hclosed.has hrule)
  rw [Predicts, Predicts, shows_iff, shows_iff, follows_extend_iff hclosed hfresh hrules]
  simp only [hderives, and_or_left, or_assoc]

/-- At a lookahead that followed its left-hand side before, a rule is predicted as before. -/
theorem predicts_of_extend (hrules : grammar.rules ≠ []) {rule : Rule}
    (hrule : rule ∈ grammar.rules) (hfollows : grammar.Follows rule.lhs seen)
    (hpredicts : (grammar.extend extra).Predicts rule seen) : grammar.Predicts rule seen := by
  rcases (predicts_extend_iff hclosed hfresh hrules hrule).mp hpredicts with hown | ⟨hvanish, _⟩
  · exact hown
  · exact shows_iff.mpr (.inr ⟨hvanish, hfollows⟩)

/-- A rule of the grammar meets no new clash but at an added lookahead. -/
theorem clashes_extend_cases (hrules : grammar.rules ≠ []) {index : Nat} {rule : Rule}
    (hindex : index < grammar.rules.length) (hclashes : (grammar.extend extra).Clashes index rule) :
    grammar.Clashes index rule ∨ ∃ seen, grammar.Adds extra rule.lhs seen ∧
      ¬grammar.Follows rule.lhs seen ∧ (grammar.extend extra).Predicts rule seen := by
  obtain ⟨hrule, earlier, other, seen, hlt, hother, hlhs, hseen, hseen'⟩ := hclashes
  rw [getElem?_extend hindex] at hrule
  rw [getElem?_extend (Nat.lt_trans hlt hindex)] at hother
  have hmem := List.mem_of_getElem? hrule
  have hmem' := List.mem_of_getElem? hother
  have hclash (hown : grammar.Predicts other seen) (hown' : grammar.Predicts rule seen) :
      grammar.Clashes index rule := ⟨hrule, earlier, other, seen, hlt, hother, hlhs, hown, hown'⟩
  by_cases hfollows : grammar.Follows rule.lhs seen
  · have hfollows' : grammar.Follows other.lhs seen := hlhs ▸ hfollows
    exact .inl (hclash (predicts_of_extend hclosed hfresh hrules hmem' hfollows' hseen)
      (predicts_of_extend hclosed hfresh hrules hmem hfollows hseen'))
  · rcases (predicts_extend_iff hclosed hfresh hrules hmem').mp hseen with hown | ⟨_, hadds⟩
    · rcases (predicts_extend_iff hclosed hfresh hrules hmem).mp hseen' with hown' | ⟨_, hadds⟩
      · exact .inl (hclash hown hown')
      · exact .inr ⟨seen, hadds, hfollows, hseen'⟩
    · exact .inr ⟨seen, hlhs ▸ hadds, hfollows, hseen'⟩

theorem Clashes.extend (hrules : grammar.rules ≠ []) {index : Nat} {rule : Rule}
    (hclashes : grammar.Clashes index rule) : (grammar.extend extra).Clashes index rule := by
  obtain ⟨hrule, earlier, other, seen, hlt, hother, hlhs, hseen, hseen'⟩ := hclashes
  have hindex := (List.getElem?_eq_some_iff.mp hrule).1
  refine ⟨(getElem?_extend hindex).trans hrule, earlier, other, seen, hlt,
    (getElem?_extend (Nat.lt_trans hlt hindex)).trans hother, hlhs, ?_, ?_⟩
  · exact (predicts_extend_iff hclosed hfresh hrules (List.mem_of_getElem? hother)).mpr (.inl hseen)
  · exact (predicts_extend_iff hclosed hfresh hrules (List.mem_of_getElem? hrule)).mpr (.inl hseen')

end Fresh

/-- Nothing is added behind a nonterminal of the grammar when the added productions use none. -/
theorem not_adds (hfresh : ∀ rule ∈ extra, ∀ own ∈ grammar.rules, own.lhs ≠ rule.lhs)
    (hextended : (grammar.extend extra).IsClosed)
    (hapart : ∀ rule ∈ extra, ∀ own ∈ grammar.rules, .nonterminal own.lhs ∉ rule.production)
    {own : Rule} (hown : own ∈ grammar.rules) : ¬grammar.Adds extra own.lhs seen := by
  rintro ⟨next, _, rule, hrule, before, after, hderives⟩
  -- what the added rules derive stays among the added nonterminals
  have hextra : ∀ symbol ∈ before ++ .nonterminal own.lhs :: .terminal next :: after,
      (Grammar.mk extra).Has symbol := by
    refine hderives.forall_mem (fun hreplaces hlhs => ?_) ?_
    · obtain @⟨applied, happlied⟩ := hreplaces
      obtain ⟨origin, horigin, hsame⟩ := hlhs
      have happlied' := (mem_extend.mp happlied).resolve_left fun hold =>
        hfresh origin horigin applied hold hsame.symm
      intro symbol hsymbol
      cases symbol with
      | terminal name => trivial
      | nonterminal name =>
          obtain ⟨other, hother, rfl⟩ := hextended applied happlied name hsymbol
          refine ⟨other, (mem_extend.mp hother).resolve_left fun hold => ?_, rfl⟩
          exact hapart applied happlied' other hold hsymbol
    · intro symbol hsymbol
      rw [List.mem_singleton.mp hsymbol]
      exact ⟨rule, hrule, rfl⟩
  obtain ⟨origin, horigin, hsame⟩ := hextra (.nonterminal own.lhs) (by simp)
  exact hfresh origin horigin own hown hsame.symm

end Grammar

namespace Analysis

variable {grammar : Grammar} {extra : List Rule} {analysis : Analysis}

/-- The tables of the second analysis have all that the tables of the first have. The follow sets
gain what is added behind their nonterminals, and the predict sets gain the same if their rules can
vanish. A rule becomes ambiguous only at a lookahead that a follow set gains. -/
structure GrowsBy (analysis extended : Analysis) (added : String → Lookahead → Prop) : Prop where
  follow : ∀ {name id}, analysis.nonterminalId? name = some id →
    ∃ id', extended.nonterminalId? name = some id' ∧
      ∀ seen, seen ∈ extended.followLookaheads id' ↔
        seen ∈ analysis.followLookaheads id ∨ added name seen
  predict : ∀ {index rule}, analysis.rule? index = some rule →
    extended.rule? index = some rule ∧
      ∀ seen, seen ∈ extended.predictLookaheads index ↔
        seen ∈ analysis.predictLookaheads index ∨
          analysis.isNullable? rule.production = some true ∧ added rule.lhs seen
  ambiguous : ∀ {name id id' index}, analysis.nonterminalId? name = some id →
    extended.nonterminalId? name = some id' → index ∈ analysis.ambiguousRules id →
      index ∈ extended.ambiguousRules id'
  ambiguous_cases : ∀ {name id id' index}, analysis.nonterminalId? name = some id →
    extended.nonterminalId? name = some id' → index ∈ extended.ambiguousRules id' →
      index ∈ analysis.ambiguousRules id ∨
        ∃ seen, added name seen ∧ seen ∉ analysis.followLookaheads id ∧
          seen ∈ extended.predictLookaheads index

theorem growsBy_of_ofGrammar {extended : Analysis} {added : String → Lookahead → Prop}
    (hanalysis : ofGrammar grammar = .ok analysis)
    (hextended : ofGrammar (grammar.extend extra) = .ok extended)
    (hfresh : ∀ rule ∈ extra, ∀ own ∈ grammar.rules, own.lhs ≠ rule.lhs)
    (hadded : ∀ own ∈ grammar.rules, ∀ seen,
      grammar.Adds extra own.lhs seen ↔ added own.lhs seen) :
    analysis.GrowsBy extended added := by
  obtain ⟨hrules, hclosed⟩ := exists_ofGrammar_iff.mp ⟨analysis, hanalysis⟩
  have hown {name : String} {id : Nat} (hid : analysis.nonterminalId? name = some id) :
      ∃ own ∈ grammar.rules, own.lhs = name :=
    (exists_nonterminalId?_iff hanalysis).mp ⟨id, hid⟩
  constructor
  case follow =>
    intro name id hid
    obtain ⟨own, hmem, rfl⟩ := hown hid
    obtain ⟨id', hid'⟩ :=
      (exists_nonterminalId?_iff hextended).mpr ⟨own, Grammar.mem_extend.mpr (.inl hmem), rfl⟩
    refine ⟨id', hid', fun seen => ?_⟩
    rw [mem_followLookaheads_iff hextended hid', mem_followLookaheads_iff hanalysis hid,
      Grammar.follows_extend_iff hclosed hfresh hrules, hadded own hmem]
  case predict =>
    intro index rule hrule
    rw [rule?_eq hanalysis] at hrule
    have hmem := List.mem_of_getElem? hrule
    have hindex := (List.getElem?_eq_some_iff.mp hrule).1
    have hrule' : (grammar.extend extra).rules[index]? = some rule := by
      rw [Grammar.getElem?_extend hindex, hrule]
    refine ⟨(rule?_eq hextended index).trans hrule', fun seen => ?_⟩
    rw [mem_predictLookaheads_iff hextended hrule', mem_predictLookaheads_iff hanalysis hrule,
      Grammar.predicts_extend_iff hclosed hfresh hrules hmem,
      isNullable?_production_iff hanalysis hmem, hadded rule hmem]
  case ambiguous =>
    intro name id id' index hid hid' hindex
    rw [mem_ambiguousRules_iff hanalysis hid] at hindex
    rw [mem_ambiguousRules_iff hextended hid']
    obtain ⟨rule, hlhs, hclashes⟩ := hindex
    exact ⟨rule, hlhs, hclashes.extend hclosed hfresh hrules⟩
  case ambiguous_cases =>
    intro name id id' index hid hid' hindex
    rw [mem_ambiguousRules_iff hextended hid'] at hindex
    rw [mem_ambiguousRules_iff hanalysis hid]
    obtain ⟨rule, rfl, hclashes⟩ := hindex
    obtain ⟨own, hmem, hlhs⟩ := hown hid
    have hindex : index < grammar.rules.length :=
      Grammar.lt_of_getElem?_extend hclashes.1 fun hextra => hfresh rule hextra own hmem hlhs
    have hrule : rule ∈ grammar.rules := by
      have hget := hclashes.1
      rw [Grammar.getElem?_extend hindex] at hget
      exact List.mem_of_getElem? hget
    rcases Grammar.clashes_extend_cases hclosed hfresh hrules hindex hclashes with
      hold | ⟨seen, hadds, hnew, hseen⟩
    · exact .inl ⟨rule, rfl, hold⟩
    · rw [hadded rule hrule] at hadds
      rw [← mem_followLookaheads_iff hanalysis hid] at hnew
      exact .inr ⟨seen, hadds, hnew, (mem_predictLookaheads_iff hextended hclashes.1).mpr hseen⟩

/-- Rules for new nonterminals add to the analysis of a grammar what they put behind its
nonterminals, and nothing if their productions use none of them. -/
theorem ofGrammar_extend (hanalysis : ofGrammar grammar = .ok analysis)
    (hfresh : ∀ rule ∈ extra, ∀ own ∈ grammar.rules, own.lhs ≠ rule.lhs)
    (hclosed : (grammar.extend extra).IsClosed) :
    ∃ extended, ofGrammar (grammar.extend extra) = .ok extended ∧
      analysis.GrowsBy extended (grammar.Adds extra) ∧
      ((∀ rule ∈ extra, ∀ own ∈ grammar.rules, .nonterminal own.lhs ∉ rule.production) →
        analysis.GrowsBy extended fun _ _ => False) := by
  have hrules : (grammar.extend extra).rules ≠ [] :=
    List.append_ne_nil_of_left_ne_nil (exists_ofGrammar_iff.mp ⟨analysis, hanalysis⟩).1 _
  obtain ⟨extended, hextended⟩ := exists_ofGrammar_iff.mpr ⟨hrules, hclosed⟩
  refine ⟨extended, hextended, ?_, fun hapart => ?_⟩
  · exact growsBy_of_ofGrammar hanalysis hextended hfresh fun _ _ _ => Iff.rfl
  · refine growsBy_of_ofGrammar hanalysis hextended hfresh fun own hown seen => ?_
    exact iff_false_intro (Grammar.not_adds hfresh hclosed hapart hown)

end Analysis

/-- The grammar of an optional letter. -/
def Grammar.optional : Grammar :=
  { rules :=
      [{ lhs := "S", production := [.nonterminal "A"] },
        { lhs := "A", production := [.terminal "b"] },
        { lhs := "A", production := [] }] }

/-- A rule that puts the letter behind the optional letter. -/
def Rule.intruder : Rule :=
  { lhs := "X", production := [.nonterminal "A", .terminal "b"] }

theorem Grammar.isClosed_optional_extend : (Grammar.optional.extend [.intruder]).IsClosed := by
  simp [IsClosed, extend, optional, Rule.intruder]

theorem Grammar.optional_adds :
    Grammar.optional.Adds [.intruder] "A" (.terminal "b") := by
  have hrule : Rule.intruder ∈ (Grammar.optional.extend [.intruder]).rules := by simp [extend]
  exact ⟨"b", rfl, .intruder, List.mem_singleton_self _, [], [], derives_of_rule hrule⟩

namespace Analysis

/-- A list of letters beside the pairs of letters adds nothing to them. The rule that puts the
letter behind the optional letter adds it to what can follow. -/
theorem pairs_and_optional_extend :
    (∃ extended, ofGrammar (Grammar.pairs.extend [⟨"t", [.terminal "a", .nonterminal "t"]⟩]) =
        .ok extended ∧
      Analysis.pairs.GrowsBy extended
        (Grammar.pairs.Adds [⟨"t", [.terminal "a", .nonterminal "t"]⟩]) ∧
      Analysis.pairs.GrowsBy extended fun _ _ => False) ∧
    ∃ analysis extended id, ofGrammar .optional = .ok analysis ∧
      ofGrammar (Grammar.optional.extend [.intruder]) = .ok extended ∧
      analysis.GrowsBy extended (Grammar.optional.Adds [.intruder]) ∧
      Grammar.optional.Adds [.intruder] "A" (.terminal "b") ∧
      analysis.nonterminalId? "A" = some 1 ∧ extended.nonterminalId? "A" = some id ∧
      .terminal "b" ∉ analysis.followLookaheads 1 ∧
      .terminal "b" ∈ extended.followLookaheads id := by
  constructor
  · have hclosed :
        (Grammar.pairs.extend [⟨"t", [.terminal "a", .nonterminal "t"]⟩]).IsClosed := by
      simp [Grammar.IsClosed, Grammar.extend, Grammar.pairs]
    obtain ⟨extended, hextended, hgrows, hsame⟩ :=
      ofGrammar_extend ofGrammar_pairs (by decide) hclosed
    exact ⟨extended, hextended, hgrows, hsame (by decide)⟩
  · obtain ⟨analysis, hanalysis⟩ : ∃ analysis, ofGrammar .optional = .ok analysis := ⟨_, rfl⟩
    have hid : analysis.nonterminalId? "A" = some 1 := by
      cases hanalysis
      rfl
    have hfollow : .terminal "b" ∉ analysis.followLookaheads 1 := by
      cases hanalysis
      decide +kernel
    obtain ⟨extended, hextended, hgrows, _⟩ :=
      ofGrammar_extend hanalysis (by decide) Grammar.isClosed_optional_extend
    obtain ⟨id, hid', hfollow'⟩ := hgrows.follow hid
    exact ⟨analysis, extended, id, hanalysis, hextended, hgrows, Grammar.optional_adds, hid, hid',
      hfollow, (hfollow' _).mpr (.inr Grammar.optional_adds)⟩

/-- What the start symbol does not reach can still make one of its rules ambiguous. -/
theorem optional_extend_ambiguous :
    (∀ own ∈ Grammar.optional.rules, own.lhs ≠ Rule.intruder.lhs ∧
        ∀ symbol ∈ own.production, symbol.name ≠ Rule.intruder.lhs) ∧
      (Grammar.optional.extend [.intruder]).IsClosed ∧
      ∃ analysis extended, ofGrammar .optional = .ok analysis ∧
        ofGrammar (Grammar.optional.extend [.intruder]) = .ok extended ∧
        analysis.nonterminalId? "A" = some 1 ∧ extended.nonterminalId? "A" = some 1 ∧
        analysis.followLookaheads 1 = [.endOfInput] ∧
        extended.followLookaheads 1 = [.terminal "b", .endOfInput] ∧
        analysis.predictLookaheads 2 = [.endOfInput] ∧
        extended.predictLookaheads 2 = [.terminal "b", .endOfInput] ∧
        analysis.ambiguousRules 1 = [] ∧ extended.ambiguousRules 1 = [2] := by
  refine ⟨by decide, Grammar.isClosed_optional_extend, _, _, rfl, rfl, ?_⟩
  decide +kernel

end Analysis

end TopDown
