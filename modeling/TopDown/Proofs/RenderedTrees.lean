import TopDown.Proofs.DerivationTree

/-!
# Trees as texts

The text of a tree has brackets behind the label of each node and commas between children. The main
statement says that trees whose labels and tokens hold none of these have the same text only if they
are the same tree, as far as the texts of their tokens go.
-/

namespace TopDown.Tree

variable {τ σ : Type}

mutual

/-- The tree with its tokens converted. -/
def map (convert : τ → σ) : Tree τ → Tree σ
  | .leaf token => .leaf (convert token)
  | .node label children => .node label (mapAll convert children)

def mapAll (convert : τ → σ) : List (Tree τ) → List (Tree σ)
  | [] => []
  | tree :: rest => tree.map convert :: mapAll convert rest

end

/-- The text of trees is made of the texts of their tokens. -/
theorem renderAll_mapAll (text : τ → String) (trees : List (Tree τ)) :
    renderAll id (mapAll text trees) = renderAll text trees ∧
      renderRest id (mapAll text trees) = renderRest text trees := by
  induction trees using forest_induction with
  | nil => exact ⟨rfl, rfl⟩
  | leaf token trees ih =>
      simp only [mapAll, map, renderAll, renderRest, render, ih.2, id_eq, and_self]
  | node label children trees ihchildren ih =>
      simp only [mapAll, map, renderAll, renderRest, render, ihchildren.1, ih.2, and_self]

theorem render_map (text : τ → String) (tree : Tree τ) :
    (tree.map text).render id = tree.render text := by
  cases tree with
  | leaf token => rfl
  | node label children => rw [map, render, (renderAll_mapAll text children).1, render]

/-- The brackets and commas that trees are written with. -/
def isMark (char : Char) : Bool :=
  char = '(' || char = ')' || char = ','

def IsUnmarked (text : String) : Prop :=
  ∀ char ∈ text.toList, isMark char = false

/-- The labels and the texts of the tokens hold no marks, and no token has an empty text. -/
inductive IsPlain (text : τ → String) : Tree τ → Prop
  | leaf {token : τ} (hunmarked : IsUnmarked (text token)) (hne : text token ≠ "") :
      IsPlain text (.leaf token)
  | node {label : String} {children : List (Tree τ)} (hlabel : IsUnmarked label)
      (hchildren : ∀ child ∈ children, child.IsPlain text) : IsPlain text (.node label children)

/-- An unmarked text ends at the first mark. -/
theorem IsUnmarked.append_mark_inj {left right : String} (hleft : IsUnmarked left)
    (hright : IsUnmarked right) {mark mark' : Char} (hmark : isMark mark = true)
    (hmark' : isMark mark' = true) {rest rest' : List Char}
    (hsame : left.toList ++ mark :: rest = right.toList ++ mark' :: rest') :
    left = right ∧ mark = mark' ∧ rest = rest' := by
  have hspan {text : String} (htext : IsUnmarked text) {mark : Char} (hmark : isMark mark = true)
      (rest : List Char) : (text.toList ++ mark :: rest).takeWhile (!isMark ·) = text.toList := by
    rw [List.takeWhile_append_of_pos fun char hchar => by rw [htext char hchar]; rfl,
      List.takeWhile_cons_of_neg (by rw [hmark]; decide), List.append_nil]
  have htext : left.toList = right.toList := by
    rw [← hspan hleft hmark rest, hsame, hspan hright hmark' rest']
  rw [htext, List.append_cancel_left_eq, List.cons.injEq] at hsame
  exact ⟨String.toList_inj.mp htext, hsame⟩

/-! ### Texts in front of a closing bracket

The trees below a node are followed by a closing bracket, and what stands behind the bracket is
arbitrary. Texts are compared from their beginning, where a mark ends each label and each token. -/

section Texts

variable (text : τ → String) (children trees : List (Tree τ)) (rest : List Char)

theorem toList_renderRest_leaf (token : τ) :
    (renderRest text (.leaf token :: trees)).toList ++ rest =
      ',' :: ' ' :: ((text token).toList ++ ((renderRest text trees).toList ++ rest)) := by
  simp [renderRest, render]

theorem toList_renderRest_node (label : String) :
    (renderRest text (.node label children :: trees)).toList ++ rest =
      ',' :: ' ' :: (label.toList ++ '(' :: ((renderAll text children).toList ++
        ')' :: ((renderRest text trees).toList ++ rest))) := by
  simp [renderRest, render]

theorem toList_renderAll_cons (tree : Tree τ) :
    ',' :: ' ' :: ((renderAll text (tree :: trees)).toList ++ rest) =
      (renderRest text (tree :: trees)).toList ++ rest := by
  simp [renderAll, renderRest]

/-- Behind a tree comes a comma or a closing bracket. -/
theorem exists_mark_behind :
    ∃ mark tail, isMark mark = true ∧ mark ≠ '(' ∧
      (renderRest text trees).toList ++ ')' :: rest = mark :: tail := by
  cases trees with
  | nil => exact ⟨')', rest, rfl, by decide, rfl⟩
  | cons tree trees =>
      exact ⟨',', _, rfl, by decide, (toList_renderAll_cons text trees _ tree).symm⟩

end Texts

variable {text : τ → String} {left right children others : List (Tree τ)} {rest rest' : List Char}

theorem isUnmarked_empty : IsUnmarked "" :=
  fun _ hchar => nomatch hchar

/-- The text of plain trees does not begin with a closing bracket. -/
theorem renderAll_cons_ne {tree : Tree τ} (hplain : tree.IsPlain text) :
    (renderAll text (tree :: left)).toList ++ ')' :: rest ≠ ')' :: rest' := by
  intro hsame
  have hfirst := (toList_renderAll_cons text left (')' :: rest) tree).symm
  rw [hsame] at hfirst
  cases hplain with
  | @leaf token hunmarked hne =>
      obtain ⟨mark, tail, hmark, _, hbehind⟩ := exists_mark_behind text left rest
      rw [toList_renderRest_leaf, hbehind, List.cons_inj_right, List.cons_inj_right] at hfirst
      exact hne (hunmarked.append_mark_inj isUnmarked_empty hmark rfl hfirst).1
  | @node label children hlabel _ =>
      rw [toList_renderRest_node, List.cons_inj_right, List.cons_inj_right] at hfirst
      have hmark := (hlabel.append_mark_inj isUnmarked_empty rfl rfl hfirst).2.1
      exact absurd hmark (by decide)

/-- The first tree of a text needs no comma in front. -/
theorem renderRest_eq_of_renderAll_eq (hleft : ∀ tree ∈ left, tree.IsPlain text)
    (hright : ∀ tree ∈ right, tree.IsPlain text)
    (hsame : (renderAll text left).toList ++ ')' :: rest =
      (renderAll text right).toList ++ ')' :: rest') :
    (renderRest text left).toList ++ ')' :: rest =
      (renderRest text right).toList ++ ')' :: rest' := by
  cases left with
  | nil =>
      cases right with
      | nil => exact hsame
      | cons tree right =>
          rw [List.forall_mem_cons] at hright
          exact absurd hsame.symm (renderAll_cons_ne hright.1)
  | cons tree left =>
      rw [List.forall_mem_cons] at hleft
      cases right with
      | nil => exact absurd hsame (renderAll_cons_ne hleft.1)
      | cons other right => rw [← toList_renderAll_cons, ← toList_renderAll_cons, hsame]

section Heads

variable {token token' : τ} {label label' : String}

theorem renderRest_cons_ne {tree : Tree τ} :
    (renderRest text (tree :: left)).toList ++ ')' :: rest ≠ ')' :: rest' := by
  rw [← toList_renderAll_cons]
  exact fun hsame => nomatch hsame

theorem renderRest_leaf_inj (htext : IsUnmarked (text token)) (htext' : IsUnmarked (text token'))
    (hsame : (renderRest text (.leaf token :: left)).toList ++ ')' :: rest =
      (renderRest text (.leaf token' :: right)).toList ++ ')' :: rest') :
    text token = text token' ∧
      (renderRest text left).toList ++ ')' :: rest =
        (renderRest text right).toList ++ ')' :: rest' := by
  obtain ⟨mark, tail, hmark, _, hbehind⟩ := exists_mark_behind text left rest
  obtain ⟨mark', tail', hmark', _, hbehind'⟩ := exists_mark_behind text right rest'
  rw [toList_renderRest_leaf, toList_renderRest_leaf, hbehind, hbehind', List.cons_inj_right,
    List.cons_inj_right] at hsame
  obtain ⟨htexts, rfl, rfl⟩ := htext.append_mark_inj htext' hmark hmark' hsame
  exact ⟨htexts, hbehind.trans hbehind'.symm⟩

theorem renderRest_node_inj (hlabel : IsUnmarked label) (hlabel' : IsUnmarked label')
    (hsame : (renderRest text (.node label children :: left)).toList ++ ')' :: rest =
      (renderRest text (.node label' others :: right)).toList ++ ')' :: rest') :
    label = label' ∧
      (renderAll text children).toList ++ ')' :: ((renderRest text left).toList ++ ')' :: rest) =
        (renderAll text others).toList ++
          ')' :: ((renderRest text right).toList ++ ')' :: rest') := by
  rw [toList_renderRest_node, toList_renderRest_node, List.cons_inj_right,
    List.cons_inj_right] at hsame
  obtain ⟨hlabels, _, hinside⟩ := hlabel.append_mark_inj hlabel' rfl rfl hsame
  exact ⟨hlabels, hinside⟩

/-- The text of a token is not taken for a label. -/
theorem renderRest_leaf_ne_node (htext : IsUnmarked (text token)) (hlabel : IsUnmarked label) :
    (renderRest text (.leaf token :: left)).toList ++ ')' :: rest ≠
      (renderRest text (.node label children :: right)).toList ++ ')' :: rest' := by
  intro hsame
  obtain ⟨mark, tail, hmark, hne, hbehind⟩ := exists_mark_behind text left rest
  rw [toList_renderRest_leaf, toList_renderRest_node, hbehind, List.cons_inj_right,
    List.cons_inj_right] at hsame
  exact hne (htext.append_mark_inj hlabel hmark rfl hsame).2.1

end Heads

/-- Plain trees and what stands behind their closing bracket can be told from a text. -/
theorem renderRest_append_inj (hleft : ∀ tree ∈ left, tree.IsPlain text)
    (hright : ∀ tree ∈ right, tree.IsPlain text)
    (hsame : (renderRest text left).toList ++ ')' :: rest =
      (renderRest text right).toList ++ ')' :: rest') :
    mapAll text left = mapAll text right ∧ rest = rest' := by
  induction left using forest_induction generalizing right rest rest' with
  | nil =>
      cases right with
      | nil => exact ⟨rfl, (List.cons.inj hsame).2⟩
      | cons tree right => exact absurd hsame.symm renderRest_cons_ne
  | leaf token left ih =>
      rw [List.forall_mem_cons] at hleft
      obtain ⟨⟨htext, _⟩, hleft⟩ := hleft
      cases right with
      | nil => exact absurd hsame renderRest_cons_ne
      | cons tree right =>
          rw [List.forall_mem_cons] at hright
          obtain ⟨htree, hright⟩ := hright
          cases htree with
          | node hlabel _ => exact absurd hsame (renderRest_leaf_ne_node htext hlabel)
          | leaf htext' _ =>
              obtain ⟨htexts, hbehind⟩ := renderRest_leaf_inj htext htext' hsame
              obtain ⟨htrees, hrest⟩ := ih hleft hright hbehind
              rw [mapAll, mapAll, map, map, htexts, htrees]
              exact ⟨rfl, hrest⟩
  | node label children left ihchildren ih =>
      rw [List.forall_mem_cons] at hleft
      obtain ⟨_ | ⟨hlabel, hchildren⟩, hleft⟩ := hleft
      cases right with
      | nil => exact absurd hsame renderRest_cons_ne
      | cons tree right =>
          rw [List.forall_mem_cons] at hright
          obtain ⟨htree, hright⟩ := hright
          cases htree with
          | leaf htext _ => exact absurd hsame.symm (renderRest_leaf_ne_node htext hlabel)
          | node hlabel' hothers =>
              obtain ⟨rfl, hinside⟩ := renderRest_node_inj hlabel hlabel' hsame
              obtain ⟨hsubtrees, hbehind⟩ := ihchildren hchildren hothers
                (renderRest_eq_of_renderAll_eq hchildren hothers hinside)
              obtain ⟨htrees, hrest⟩ := ih hleft hright hbehind
              rw [mapAll, mapAll, map, map, hsubtrees, htrees]
              exact ⟨rfl, hrest⟩

/-- Plain trees with the same text have the same labels, children and texts of tokens. -/
theorem render_eq_render_iff {tree other : Tree τ} (htree : tree.IsPlain text)
    (hother : other.IsPlain text) :
    tree.render text = other.render text ↔ tree.map text = other.map text := by
  constructor
  · intro hsame
    have hclosed : (renderRest text [tree]).toList ++ [')'] =
        (renderRest text [other]).toList ++ [')'] := by
      rw [renderRest, renderRest, hsame]
      rfl
    obtain ⟨htrees, _⟩ := renderRest_append_inj (List.forall_mem_singleton.mpr htree)
      (List.forall_mem_singleton.mpr hother) hclosed
    exact (List.cons.inj htrees).1
  · intro hsame
    rw [← render_map, hsame, render_map]

/-- A token and a node without children that have the same text, in front of another token. -/
def lookalikes (place : Nat) : Tree (String × Nat) :=
  .node "s" [.leaf ("a", place), .node "a" [], .leaf ("b", place + 1)]

theorem isPlain_lookalikes (place : Nat) : (lookalikes place).IsPlain Prod.fst := by
  have hunmarked : IsUnmarked "s" ∧ IsUnmarked "a" ∧ IsUnmarked "b" := by
    simp [IsUnmarked, isMark]
  obtain ⟨hlabel, hfirst, hsecond⟩ := hunmarked
  refine .node hlabel ?_
  simp only [List.forall_mem_cons]
  exact ⟨.leaf hfirst (by simp), .node hfirst (List.forall_mem_nil _),
    .leaf hsecond (by simp), List.forall_mem_nil _⟩

theorem lookalikes_render_eq :
    (lookalikes 0).IsPlain Prod.fst ∧ (lookalikes 4).IsPlain Prod.fst ∧
      (lookalikes 0).render Prod.fst = (lookalikes 4).render Prod.fst ∧
      (lookalikes 0).map Prod.fst = (lookalikes 4).map Prod.fst := by
  have hsame : (lookalikes 0).render Prod.fst = (lookalikes 4).render Prod.fst := rfl
  exact ⟨isPlain_lookalikes 0, isPlain_lookalikes 4, hsame,
    (render_eq_render_iff (isPlain_lookalikes 0) (isPlain_lookalikes 4)).mp hsame⟩

-- a token without a text is not seen, and a token with a comma looks like two
example : (node "s" [leaf ""]).render id = (node "s" []).render id := rfl

example : (node "s" [leaf "a, b"]).render id = (node "s" [leaf "a", leaf "b"]).render id := rfl

end TopDown.Tree
