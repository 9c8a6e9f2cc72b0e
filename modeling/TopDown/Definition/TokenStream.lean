import TopDown.Definition.Cursor

/-!
# Token streams

The tokens of a definition, read one token ahead of their use. A stream whose next token cannot be
read keeps the token that it was about to give, while its cursor stays where the reading stopped.
-/

namespace TopDown.Definition

/-- The token that comes next, and the cursor behind it. -/
structure TokenStream where
  upcoming : Token
  cursor : Cursor
deriving DecidableEq, Repr

namespace TokenStream

def ofCursor? (cursor : Cursor) : Except Error TokenStream :=
  match cursor.scan with
  | (.ok token, cursor) => .ok { upcoming := token, cursor := cursor }
  | (.error error, _) => .error error

def ofText? (text : String) : Except Error TokenStream :=
  ofCursor? (.ofText text.toList)

/-- Gives the upcoming token and reads the one after it. -/
def next (stream : TokenStream) : Except Error Token × TokenStream :=
  match stream.cursor.scan with
  | (.ok token, cursor) => (.ok stream.upcoming, { upcoming := token, cursor := cursor })
  | (.error error, cursor) => (.error error, { stream with cursor := cursor })

def has (stream : TokenStream) (kinds : List TokenKind) : Bool :=
  kinds.contains stream.upcoming.kind

/-- Gives the upcoming token if it is of one of the kinds, and otherwise leaves the stream as it is.
-/
def expect (stream : TokenStream) (kinds : List TokenKind) : Except Error Token × TokenStream :=
  if stream.has kinds then stream.next
  else (.error (.unexpectedToken kinds stream.upcoming), stream)

/-- A bound on the number of tokens that are still to come. -/
def room (stream : TokenStream) : Nat :=
  if stream.upcoming.lexeme = .endOfText then 0 else stream.cursor.ahead.length + 1

theorem room_next_lt {stream after : TokenStream} {token : Token}
    (hnext : stream.next = (.ok token, after)) (hend : stream.upcoming.lexeme ≠ .endOfText) :
    after.room < stream.room := by
  unfold next at hnext
  split at hnext
  · rename_i upcoming cursor hscan
    cases hnext
    simp only [room, if_neg hend]
    split
    · omega
    · rename_i hupcoming
      have := Cursor.length_scan_lt hscan hupcoming
      omega
  · simp at hnext

/-- All tokens that are to come, up to and with the end of the text. -/
def tokens (stream : TokenStream) : Except Error (List Token) :=
  if stream.upcoming.lexeme = .endOfText then .ok [stream.upcoming]
  else
    match _hnext : stream.next with
    | (.ok token, after) => (token :: ·) <$> after.tokens
    | (.error error, _) => .error error
termination_by stream.room
decreasing_by exact room_next_lt _hnext ‹_›

end TokenStream

/-- All tokens of a text, the end of the text being the last. -/
def tokenize (text : String) : Except Error (List Token) :=
  match TokenStream.ofText? text with
  | .ok stream => stream.tokens
  | .error error => .error error

end TopDown.Definition
