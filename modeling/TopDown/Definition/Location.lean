/-!
# Locations

Places in the text of a grammar definition, as messages name them. The main statement says that a
location depends only on the text before it.
-/

namespace TopDown.Definition

/-- The number of bytes of a text in UTF-8. -/
def utf8Length : List Char → Nat
  | [] => 0
  | char :: text => char.utf8Size + utf8Length text

@[simp]
theorem utf8Length_nil : utf8Length [] = 0 := rfl

@[simp]
theorem utf8Length_cons (char : Char) (text : List Char) :
    utf8Length (char :: text) = char.utf8Size + utf8Length text := rfl

@[simp]
theorem utf8Length_append (left right : List Char) :
    utf8Length (left ++ right) = utf8Length left + utf8Length right := by
  induction left with
  | nil => simp
  | cons char rest ih => simp [ih, Nat.add_assoc]

/-- The offset counts bytes from zero, the line and the column count from one. The column counts
characters. -/
structure Location where
  offset : Nat
  line : Nat
  column : Nat
deriving DecidableEq, Repr

def Location.start : Location :=
  { offset := 0, line := 1, column := 1 }

/-- The location after a character that stands at `location`. -/
def Location.advance (location : Location) (char : Char) : Location :=
  if char = '\n' then
    { offset := location.offset + char.utf8Size, line := location.line + 1, column := 1 }
  else
    { offset := location.offset + char.utf8Size
      line := location.line
      column := location.column + 1 }

/-- The location after a text that begins at `location`. -/
def Location.past (location : Location) (text : List Char) : Location :=
  text.foldl Location.advance location

@[simp]
theorem Location.past_nil (location : Location) : location.past [] = location := rfl

@[simp]
theorem Location.past_cons (location : Location) (char : Char) (text : List Char) :
    location.past (char :: text) = (location.advance char).past text := rfl

@[simp]
theorem Location.past_append (location : Location) (left right : List Char) :
    location.past (left ++ right) = (location.past left).past right := by
  simp [past]

@[simp]
theorem Location.offset_past (location : Location) (text : List Char) :
    (location.past text).offset = location.offset + utf8Length text := by
  induction text generalizing location with
  | nil => rfl
  | cons char text ih =>
      rw [past_cons, ih, utf8Length_cons, advance]
      split <;> simp only [Nat.add_assoc]

def Location.render (location : Location) : String :=
  toString location.line ++ ":" ++ toString location.column

end TopDown.Definition
