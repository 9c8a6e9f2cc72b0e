/-!
# Parse trees
-/

namespace TopDown

/-- A leaf holds a token; a node holds the name of a nonterminal, and may have no children. -/
inductive Tree (τ : Type) where
  | leaf (token : τ)
  | node (label : String) (children : List (Tree τ))

namespace Tree

variable {τ : Type}

/-- Whether a tree is a leaf. -/
def isLeaf : Tree τ → Bool
  | .leaf _ => true
  | .node _ _ => false

def children : Tree τ → List (Tree τ)
  | .leaf _ => []
  | .node _ children => children

mutual

/-- The tokens at the leaves, from left to right. -/
def tokens : Tree τ → List τ
  | .leaf token => [token]
  | .node _ children => tokensOfAll children

def tokensOfAll : List (Tree τ) → List τ
  | [] => []
  | tree :: rest => tree.tokens ++ tokensOfAll rest

end

mutual

/-- The texts of the children of a node stand between brackets, with commas between them. -/
def render (text : τ → String) : Tree τ → String
  | .leaf token => text token
  | .node label children => label ++ "(" ++ renderAll text children ++ ")"

def renderAll (text : τ → String) : List (Tree τ) → String
  | [] => ""
  | tree :: rest => tree.render text ++ renderRest text rest

/-- The trees behind the first one. -/
def renderRest (text : τ → String) : List (Tree τ) → String
  | [] => ""
  | tree :: rest => ", " ++ tree.render text ++ renderRest text rest

end

mutual

/-- Two trees are equal when they have the same shape, labels and tokens. -/
def decEq [DecidableEq τ] : (left right : Tree τ) → Decidable (left = right)
  | .leaf left, .leaf right =>
      if h : left = right then .isTrue (by rw [h]) else .isFalse (by simpa using h)
  | .node leftLabel leftChildren, .node rightLabel rightChildren =>
      if h : leftLabel = rightLabel then
        match decEqAll leftChildren rightChildren with
        | .isTrue hchildren => .isTrue (by rw [h, hchildren])
        | .isFalse hchildren => .isFalse (by simp [hchildren])
      else .isFalse (by simp [h])
  | .leaf _, .node _ _ => .isFalse (by simp)
  | .node _ _, .leaf _ => .isFalse (by simp)

def decEqAll [DecidableEq τ] : (left right : List (Tree τ)) → Decidable (left = right)
  | [], [] => .isTrue rfl
  | [], _ :: _ => .isFalse (by simp)
  | _ :: _, [] => .isFalse (by simp)
  | left :: leftRest, right :: rightRest =>
      match decEq left right with
      | .isTrue h =>
          match decEqAll leftRest rightRest with
          | .isTrue hrest => .isTrue (by rw [h, hrest])
          | .isFalse hrest => .isFalse (by simp [hrest])
      | .isFalse h => .isFalse (by simp [h])

end

instance [DecidableEq τ] : DecidableEq (Tree τ) := decEq

end Tree

end TopDown
