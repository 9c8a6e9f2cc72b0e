import TopDown.Definition.Reading
import TopDown.Parsing.Parser

/-!
# From a definition to a parser
-/

namespace TopDown

/-- Why a text gives no parser. -/
inductive Error where
  /-- The text defines no grammar. -/
  | definition (error : Definition.Error)
  /-- The grammar that it defines has no parser. -/
  | build (error : BuildError)
deriving DecidableEq, Repr

def Error.message : Error → String
  | .definition error => error.message
  | .build error => error.message

/-- The messages of the errors behind an error, from the outermost to the innermost. An error of
building wraps the defect or the ambiguity that it reports. -/
def Error.causes : Error → List String
  | .definition error => [error.message]
  | .build error => [error.message, error.message]

/-- Builds the parser of the grammar that a text defines. -/
def build (text : String) : Except Error Parser :=
  match Definition.parse text with
  | .error error => .error (.definition error)
  | .ok grammar =>
      match Parser.ofGrammar grammar with
      | .error error => .error (.build error)
      | .ok parser => .ok parser

end TopDown
