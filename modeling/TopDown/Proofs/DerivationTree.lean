import TopDown.Parsing.Input
import TopDown.Parsing.Tree
import TopDown.Proofs.Leftmost

/-!
# Derivation trees

A forest of a sequence of symbols has a leaf with a token of its kind for each terminal, and a node
with the forest of one of its productions for each nonterminal. The sequences of terminals that have
a forest are those that can be derived, and each of them is derived from the left.
-/

namespace TopDown

/-- A lookahead is a token of its own kind. -/
instance : InputToken Lookahead where
  kind := id
  text := Lookahead.render

theorem map_kind_lookahead (kinds : List Lookahead) : kinds.map InputToken.kind = kinds :=
  List.map_id kinds

/-- What holds of the trees behind a tree and of the children of that tree holds of all trees. -/
@[elab_as_elim]
theorem Tree.forest_induction {τ : Type} {motive : List (Tree τ) → Prop} (nil : motive [])
    (leaf : ∀ token trees, motive trees → motive (.leaf token :: trees))
    (node : ∀ label children trees, motive children → motive trees →
      motive (.node label children :: trees))
    (trees : List (Tree τ)) : motive trees :=
  match trees with
  | [] => nil
  | .leaf token :: trees => leaf token trees (forest_induction nil leaf node trees)
  | .node label children :: trees =>
      node label children trees (forest_induction nil leaf node children)
        (forest_induction nil leaf node trees)
termination_by sizeOf trees

theorem Tree.tokensOfAll_append {τ : Type} (left right : List (Tree τ)) :
    tokensOfAll (left ++ right) = tokensOfAll left ++ tokensOfAll right := by
  induction left with
  | nil => rfl
  | cons tree left ih => rw [List.cons_append, tokensOfAll, ih, tokensOfAll, List.append_assoc]

theorem Tree.tokensOfAll_singleton {τ : Type} (tree : Tree τ) :
    tokensOfAll [tree] = tree.tokens := by
  rw [tokensOfAll, tokensOfAll, List.append_nil]

theorem Tree.tokensOfAll_leaves {τ : Type} (tokens : List τ) :
    tokensOfAll (tokens.map Tree.leaf) = tokens := by
  induction tokens with
  | nil => rfl
  | cons token tokens ih => rw [List.map_cons, tokensOfAll, Tree.tokens, ih, List.singleton_append]

namespace Grammar

variable {τ : Type} [InputToken τ]

inductive Forest (grammar : Grammar) : List Symbol → List (Tree τ) → Prop
  | nil : Forest grammar [] []
  | leaf {name : String} {token : τ} {symbols : List Symbol} {trees : List (Tree τ)}
      (hkind : InputToken.kind token = .terminal name) (hrest : Forest grammar symbols trees) :
      Forest grammar (.terminal name :: symbols) (.leaf token :: trees)
  | node {rule : Rule} {children : List (Tree τ)} {symbols : List Symbol} {trees : List (Tree τ)}
      (hrule : rule ∈ grammar.rules) (hchildren : Forest grammar rule.production children)
      (hrest : Forest grammar symbols trees) :
      Forest grammar (.nonterminal rule.lhs :: symbols) (.node rule.lhs children :: trees)

namespace Forest

variable {grammar : Grammar} {symbols left right : List Symbol} {trees : List (Tree τ)}

theorem append {leftTrees rightTrees : List (Tree τ)} (hleft : grammar.Forest left leftTrees)
    (hright : grammar.Forest right rightTrees) :
    grammar.Forest (left ++ right) (leftTrees ++ rightTrees) := by
  induction hleft with
  | nil => exact hright
  | leaf hkind _ ih => exact .leaf hkind ih
  | node hrule hchildren _ _ ih => exact .node hrule hchildren ih

theorem append_split (hforest : grammar.Forest (left ++ right) trees) :
    ∃ leftTrees rightTrees, trees = leftTrees ++ rightTrees ∧ grammar.Forest left leftTrees ∧
      grammar.Forest right rightTrees := by
  induction left generalizing trees with
  | nil => exact ⟨[], trees, rfl, .nil, hforest⟩
  | cons symbol left ih =>
      cases hforest with
      | leaf hkind hrest =>
          obtain ⟨leftTrees, rightTrees, rfl, hleft, hright⟩ := ih hrest
          exact ⟨_ :: leftTrees, rightTrees, rfl, .leaf hkind hleft, hright⟩
      | node hrule hchildren hrest =>
          obtain ⟨leftTrees, rightTrees, rfl, hleft, hright⟩ := ih hrest
          exact ⟨_ :: leftTrees, rightTrees, rfl, .node hrule hchildren hleft, hright⟩

/-- The tokens of a forest have the kinds of a word that is derived from the symbols. -/
theorem exists_word (hforest : grammar.Forest symbols trees) :
    ∃ word : List String,
      (Tree.tokensOfAll trees).map InputToken.kind = word.map Lookahead.terminal ∧
        grammar.LeftmostDerives symbols (word.map .terminal) := by
  induction hforest with
  | nil => exact ⟨[], rfl, .refl []⟩
  | @leaf name token symbols trees hkind _ ih =>
      obtain ⟨word, hkinds, hderives⟩ := ih
      refine ⟨name :: word, ?_, hderives.append_left [name]⟩
      rw [Tree.tokensOfAll, Tree.tokens, List.singleton_append, List.map_cons, List.map_cons, hkind,
        hkinds]
  | @node rule children symbols trees hrule _ _ ihchildren ih =>
      obtain ⟨first, hfirst, hderives⟩ := ihchildren
      obtain ⟨word, hkinds, hrest⟩ := ih
      refine ⟨first ++ word, ?_, ?_⟩
      · rw [Tree.tokensOfAll, Tree.tokens, List.map_append, List.map_append, hfirst, hkinds]
      · rw [List.map_append]
        exact ((LeftmostDerives.of_rule hrule).trans hderives).append hrest

theorem of_word {word : List String} {tokens : List τ}
    (hkinds : tokens.map InputToken.kind = word.map Lookahead.terminal) :
    grammar.Forest (word.map .terminal) (tokens.map Tree.leaf) := by
  induction word generalizing tokens with
  | nil =>
      rw [List.map_nil, List.map_eq_nil_iff] at hkinds
      rw [hkinds]
      exact .nil
  | cons name word ih =>
      obtain ⟨token, rest, rfl, hkind, hrest⟩ := List.map_eq_cons_iff.mp hkinds
      exact .leaf hkind (ih hrest)

theorem of_step {first second : List Symbol} (hstep : Rewriting.Step grammar.Replaces first second)
    (hforest : grammar.Forest second trees) :
    ∃ trees', grammar.Forest first trees' ∧ Tree.tokensOfAll trees' = Tree.tokensOfAll trees := by
  obtain ⟨before, after, hreplaces⟩ := hstep
  obtain @⟨rule, hrule⟩ := hreplaces
  obtain ⟨front, last, rfl, hfront, hlast⟩ := hforest.append_split
  obtain ⟨beforeTrees, children, rfl, hbefore, hchildren⟩ := hfront.append_split
  refine ⟨beforeTrees ++ .node rule.lhs children :: last, ?_, ?_⟩
  · exact hbefore.append (.node hrule hchildren hlast)
  · simp only [Tree.tokensOfAll_append, Tree.tokensOfAll, Tree.tokens, List.append_assoc]

theorem exists_of_derives {word : List String}
    (hderives : grammar.Derives symbols (word.map .terminal)) {tokens : List τ}
    (hkinds : tokens.map InputToken.kind = word.map Lookahead.terminal) :
    ∃ trees, grammar.Forest symbols trees ∧ Tree.tokensOfAll trees = tokens := by
  refine hderives.carry_back
    (fun form => ∃ trees, grammar.Forest form trees ∧ Tree.tokensOfAll trees = tokens) ?_ ?_
  · rintro first second hstep ⟨trees, hforest, rfl⟩
    exact hforest.of_step hstep
  · exact ⟨_, .of_word hkinds, Tree.tokensOfAll_leaves tokens⟩

end Forest

/-- A tree of the start symbol, in which each node has the children of some rule of its label. -/
def IsDerivationTree (grammar : Grammar) (tree : Tree τ) : Prop :=
  ∃ start : String, grammar.start? = some start ∧ grammar.Forest [.nonterminal start] [tree]

/-- A sentence is what a derivation tree has at its leaves. -/
theorem isSentence_iff {grammar : Grammar} {tokens : List τ} :
    grammar.IsSentence (tokens.map InputToken.kind) ↔
      ∃ tree : Tree τ, grammar.IsDerivationTree tree ∧ tree.tokens = tokens := by
  constructor
  · rintro ⟨start, word, hstart, hkinds, hderives⟩
    obtain ⟨trees, hforest, htokens⟩ := Forest.exists_of_derives hderives hkinds
    cases hforest with
    | node hrule hchildren hrest =>
        cases hrest with
        | nil =>
            rw [Tree.tokensOfAll_singleton] at htokens
            exact ⟨_, ⟨_, hstart, .node hrule hchildren .nil⟩, htokens⟩
  · rintro ⟨tree, ⟨start, hstart, hforest⟩, rfl⟩
    obtain ⟨word, hkinds, hleftmost⟩ := hforest.exists_word
    rw [Tree.tokensOfAll_singleton] at hkinds
    exact ⟨start, word, hstart, hkinds, hleftmost.derives⟩

theorem Derives.leftmost {grammar : Grammar} {symbols : List Symbol} {word : List String}
    (hderives : grammar.Derives symbols (word.map .terminal)) :
    grammar.LeftmostDerives symbols (word.map .terminal) := by
  obtain ⟨trees, hforest, htokens⟩ :=
    Forest.exists_of_derives hderives (map_kind_lookahead (word.map .terminal))
  obtain ⟨word', hkinds, hleftmost⟩ := hforest.exists_word
  have hword : word = word' := by
    rw [htokens] at hkinds
    exact List.map_injective_iff.mpr (fun _ _ => Lookahead.terminal.inj)
      ((map_kind_lookahead _).symm.trans hkinds)
  rw [hword]
  exact hleftmost

end Grammar

end TopDown
