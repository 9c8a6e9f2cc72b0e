import TopDown.Proofs.Definition.LexicalFormat
import TopDown.Proofs.Definition.Reading

/-!
# Writing a grammar and reading it back

A grammar that has rules is written as a definition of the same grammar, if its names can stand in
a definition. The main statement says that exactly these grammars are read back, and that all
grammars that are read from any text are of this sort.
-/

namespace TopDown

open Definition (IsName IsQuotable)

/-- A terminal can be quoted, and the name of a nonterminal is a name of the notation. -/
def Symbol.IsWritable : Symbol → Prop
  | .terminal name => IsQuotable name
  | .nonterminal name => IsName name

structure Rule.IsWritable (rule : Rule) : Prop where
  lhs : IsName rule.lhs
  production : ∀ symbol ∈ rule.production, symbol.IsWritable

structure Grammar.IsWritable (grammar : Grammar) : Prop where
  ne_nil : grammar.rules ≠ []
  rules : ∀ rule ∈ grammar.rules, rule.IsWritable

namespace Definition

theorem wellFormed_lexeme_iff {symbol : Symbol} :
    symbol.lexeme.WellFormed ↔ symbol.IsWritable := by
  cases symbol <;> rfl

theorem source_lexeme (symbol : Symbol) : symbol.lexeme.source = symbol.render.toList := by
  cases symbol with
  | nonterminal name => rfl
  | terminal name => simp [Symbol.lexeme, Lexeme.source, Symbol.render]

/-- The clause that a rule is written as. -/
def ruleClause (rule : Rule) : Clause :=
  { name := rule.lhs, first := rule.production, others := [] }

theorem rules_ruleClause (rules : List Rule) :
    (rules.map ruleClause).flatMap Clause.rules = rules := by
  rw [List.flatMap_map]
  exact List.flatMap_singleton' rules

namespace Spells

variable {previous : Option TokenKind} {lexeme : Lexeme} {lexemes : List Lexeme}
  {text : List Char} {char : Char}

theorem blank (hblank : Unicode.isWhiteSpace char = true) (hspells : Spells none lexemes text) :
    Spells previous lexemes (char :: text) := by
  cases hspells with
  | last hgap => exact .last (.append (.blank hblank .nil) hgap)
  | next hgap _ hlexeme hrest =>
      exact .next (.blank hblank hgap) (fun _ _ => List.cons_ne_nil _ _) hlexeme hrest

/-- A lexeme without a gap in front, behind no name or not a name. -/
theorem close (hapart : previous = some .nonterminal → lexeme.kind ≠ .nonterminal)
    (hlexeme : lexeme.WellFormed) (hrest : Spells (some lexeme.kind) lexemes text) :
    Spells previous (lexeme :: lexemes) (lexeme.source ++ text) :=
  .next .nil (fun hprevious hkind => absurd hkind (hapart hprevious)) hlexeme hrest

theorem wellFormed (hspells : Spells previous lexemes text) :
    ∀ lexeme ∈ lexemes, lexeme.WellFormed := by
  induction hspells with
  | last => simp
  | next _ _ hlexeme _ ih => exact List.forall_mem_cons.mpr ⟨hlexeme, ih⟩

theorem symbols {symbols : List Symbol} (hsymbols : ∀ symbol ∈ symbols, symbol.IsWritable)
    (hrest : ∀ previous, Spells previous lexemes text) :
    Spells previous (symbols.map Symbol.lexeme ++ lexemes)
      (symbols.flatMap (fun symbol => ' ' :: symbol.render.toList) ++ text) := by
  induction symbols generalizing previous with
  | nil => exact hrest previous
  | cons symbol symbols ih =>
      rw [List.forall_mem_cons] at hsymbols
      rw [List.flatMap_cons, List.append_assoc, ← source_lexeme]
      exact blank (by decide) (close (by simp) (wellFormed_lexeme_iff.mpr hsymbols.1)
        (ih hsymbols.2))

theorem production {rule : Rule} (hrule : rule.IsWritable)
    (hrest : ∀ previous, Spells previous lexemes text) :
    Spells previous (productionLexemes rule.production ++ lexemes)
      (rule.renderProduction.toList ++ text) := by
  -- both forms of a production begin with a space, so any lexeme can stand in front
  unfold Rule.renderProduction
  split
  · rename_i hempty
    have hmark : Spells none (.empty :: lexemes) ('!' :: text) :=
      close (fun hnone => nomatch hnone) trivial (hrest (some .empty))
    rw [hempty]
    exact blank (by decide) hmark
  · rename_i hne
    rw [productionLexemes_eq_map hne, String.toList_join, List.flatMap_map]
    simpa using Spells.symbols hrule.production hrest

theorem rule {rule : Rule} (hrule : rule.IsWritable) (hrest : Spells none lexemes text) :
    Spells none ((ruleClause rule).lexemes ++ lexemes)
      (rule.render.toList ++ '\n' :: text) := by
  have hsemicolon (previous : Option TokenKind) :
      Spells previous (.semicolon :: lexemes) (';' :: '\n' :: text) :=
    close (fun _ hkind => nomatch hkind) trivial (blank (by decide) hrest)
  have hcolon : Spells (some .nonterminal)
      (.colon :: (productionLexemes rule.production ++ .semicolon :: lexemes))
      (':' :: (rule.renderProduction.toList ++ ';' :: '\n' :: text)) :=
    close (fun _ hkind => nomatch hkind) trivial (production hrule hsemicolon)
  have hname : Spells none
      (.nonterminal rule.lhs :: .colon ::
        (productionLexemes rule.production ++ .semicolon :: lexemes))
      (rule.lhs.toList ++ ':' :: (rule.renderProduction.toList ++ ';' :: '\n' :: text)) :=
    close (fun hnone => nomatch hnone) hrule.lhs hcolon
  simpa [Clause.lexemes, ruleClause, Rule.render] using hname

theorem rules {rules : List Rule} (hrules : ∀ rule ∈ rules, rule.IsWritable) :
    Spells none ((rules.map ruleClause).flatMap Clause.lexemes)
      (Grammar.mk rules).render.toList := by
  induction rules with
  | nil => exact .last (.closed .nil)
  | cons rule rules ih =>
      rw [List.forall_mem_cons] at hrules
      have hspells := Spells.rule hrules.1 (ih hrules.2)
      simpa [Grammar.render, String.toList_join] using hspells

end Spells

variable {text : String} {grammar : Grammar}

theorem parse_render_of_isWritable (hwritable : grammar.IsWritable) :
    parse grammar.render = .ok grammar := by
  obtain ⟨tokens, htokens, hlexemes⟩ := exists_tokenize_of_spells (Spells.rules hwritable.rules)
  have hclauses : grammar.rules.map ruleClause ≠ [] := by simpa using hwritable.ne_nil
  rw [parse_of_clauses hclauses htokens hlexemes, rules_ruleClause]

theorem isWritable_of_wellFormed {clause : Clause}
    (hclause : ∀ lexeme ∈ clause.lexemes, lexeme.WellFormed) :
    ∀ rule ∈ clause.rules, rule.IsWritable := by
  intro rule hrule
  obtain ⟨production, hproduction, rfl⟩ := List.mem_map.mp hrule
  have hsubset : productionLexemes production ⊆ clause.lexemes := by
    rcases List.mem_cons.mp hproduction with rfl | hothers
    · exact fun lexeme hlexeme => by simp [Clause.lexemes, hlexeme]
    · intro lexeme hlexeme
      have hmem : lexeme ∈
          clause.others.flatMap fun production => .pipe :: productionLexemes production :=
        List.mem_flatMap.mpr ⟨production, hothers, List.mem_cons_of_mem _ hlexeme⟩
      simp [Clause.lexemes, hmem]
  refine ⟨hclause (.nonterminal clause.name) (by simp [Clause.lexemes]), fun symbol hsymbol => ?_⟩
  exact wellFormed_lexeme_iff.mp (hclause _ (hsubset (mem_productionLexemes hsymbol)))

theorem isWritable_of_parse (hparse : parse text = .ok grammar) : grammar.IsWritable := by
  obtain ⟨clauses, tokens, hclauses, htokens, hlexemes, hrules⟩ := exists_clauses_of_parse hparse
  obtain ⟨lexemes, hsame, hspells⟩ := exists_spells_of_tokenize htokens
  rw [hlexemes, List.append_left_inj] at hsame
  refine ⟨?_, fun rule hrule => ?_⟩
  · rw [hrules]
    exact Reading.rules_ne_nil_iff.mpr hclauses
  · rw [hrules] at hrule
    obtain ⟨clause, hclause, hrule⟩ := List.mem_flatMap.mp hrule
    refine isWritable_of_wellFormed (fun lexeme hlexeme => ?_) rule hrule
    refine hspells.wellFormed lexeme ?_
    rw [← hsame]
    exact List.mem_flatMap.mpr ⟨clause, hclause, hlexeme⟩

/-- A grammar is read back from what it is written as exactly if it can be written, and every
grammar that is read from a text can be. -/
theorem parse_render_iff_isWritable :
    (∀ grammar : Grammar, parse grammar.render = .ok grammar ↔ grammar.IsWritable) ∧
      ∀ (text : String) (grammar : Grammar), parse text = .ok grammar →
        grammar.IsWritable ∧ parse grammar.render = .ok grammar := by
  refine ⟨fun grammar => ⟨isWritable_of_parse, parse_render_of_isWritable⟩, ?_⟩
  intro text grammar hparse
  have hwritable := isWritable_of_parse hparse
  exact ⟨hwritable, parse_render_of_isWritable hwritable⟩

/-- Any number of letters. -/
def letters : Grammar :=
  { rules := [{ lhs := "s", production := [.terminal "a", .nonterminal "s"] },
      { lhs := "s", production := [] }] }

theorem letters_isWritable :
    parse "s:'a's|!;~#" = .ok letters ∧ letters.IsWritable ∧
      parse letters.render = .ok letters := by
  have hread : (parse "s:'a's|!;~#").toOption = some letters := by decide +kernel
  have hparse : parse "s:'a's|!;~#" = .ok letters := by
    cases hresult : parse "s:'a's|!;~#" with
    | error error =>
        rw [hresult] at hread
        cases hread
    | ok grammar =>
        rw [hresult] at hread
        exact congrArg Except.ok (Option.some.inj hread)
  exact ⟨hparse, parse_render_iff_isWritable.2 _ _ hparse⟩

end Definition

end TopDown
