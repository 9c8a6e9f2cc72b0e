import TopDown.Definition.TokenStream

/-!
# The tokens of a text

A cursor scans the tokens of its text one after another, up to the end of the text. A stream gives
the same tokens, although it is always one token ahead.
-/

namespace TopDown.Definition

namespace Cursor

variable {cursor next : Cursor} {token : Token} {tokens : List Token}

/-- The tokens from the cursor on, the end of the text being the last. -/
inductive Scans : Cursor → List Token → Prop
  | last {cursor next : Cursor} {token : Token} (hscan : cursor.scan = (.ok token, next))
      (hend : token.lexeme = .endOfText) : Scans cursor [token]
  | next {cursor next : Cursor} {token : Token} {tokens : List Token}
      (hscan : cursor.scan = (.ok token, next)) (hend : token.lexeme ≠ .endOfText)
      (hrest : Scans next tokens) : Scans cursor (token :: tokens)

theorem scan_eq_ok_iff :
    cursor.scan = (.ok token, next) ↔
      Lexeme.read cursor.skipGap.ahead = (.ok token.lexeme, next.ahead) ∧
        token.location = cursor.skipGap.location ∧
        next.location = cursor.skipGap.location.past token.lexeme.source := by
  unfold scan
  dsimp only
  split
  · rename_i lexeme rest hread
    rw [hread]
    constructor
    · intro hscan
      cases hscan
      exact ⟨rfl, rfl, rfl⟩
    · rintro ⟨hlexeme, hlocation, hnext⟩
      cases token
      cases next
      cases hlexeme
      simp_all [move]
  all_goals
    rename_i hread
    simp [hread]

theorem exists_scan_of_read {lexeme : Lexeme} {rest : List Char}
    (hread : Lexeme.read cursor.skipGap.ahead = (.ok lexeme, rest)) :
    ∃ token location, cursor.scan = (.ok token, { location := location, ahead := rest }) ∧
      token.lexeme = lexeme :=
  ⟨{ lexeme := lexeme, location := cursor.skipGap.location },
    cursor.skipGap.location.past lexeme.source, scan_eq_ok_iff.mpr ⟨hread, rfl, rfl⟩, rfl⟩

end Cursor

namespace TokenStream

variable {stream after : TokenStream} {cursor : Cursor} {token : Token} {tokens : List Token}

/-- The upcoming token is the one that comes from the cursor on. -/
def Begins (stream : TokenStream) (cursor : Cursor) : Prop :=
  cursor.scan = (.ok stream.upcoming, stream.cursor)

theorem ofCursor?_eq_ok_iff : ofCursor? cursor = .ok stream ↔ stream.Begins cursor := by
  unfold ofCursor? Begins
  split
  · rename_i hscan
    rw [hscan]
    cases stream
    simp
  · rename_i hscan
    simp [hscan]

theorem exists_begins_of_scans (hscans : cursor.Scans tokens) :
    ∃ stream : TokenStream, stream.Begins cursor := by
  cases hscans with
  | last hscan _ => exact ⟨⟨_, _⟩, hscan⟩
  | next hscan _ _ => exact ⟨⟨_, _⟩, hscan⟩

/-- A stream that begins where a token is scanned has the token upcoming. -/
theorem Begins.eq_of_scan {next : Cursor} (hbegins : stream.Begins cursor)
    (hscan : cursor.scan = (.ok token, next)) : stream.upcoming = token ∧ stream.cursor = next := by
  rw [Begins, hscan, Prod.mk.injEq, Except.ok.injEq] at hbegins
  exact ⟨hbegins.1.symm, hbegins.2.symm⟩

theorem next_eq_ok_iff :
    stream.next = (.ok token, after) ↔ token = stream.upcoming ∧ after.Begins stream.cursor := by
  unfold next Begins
  split
  · rename_i upcoming cursor hscan
    rw [hscan]
    constructor
    · intro hnext
      cases hnext
      exact ⟨rfl, rfl⟩
    · rintro ⟨rfl, hafter⟩
      cases hafter
      rfl
  · rename_i hscan
    simp [hscan]

theorem tokens_of_next (hend : stream.upcoming.lexeme ≠ .endOfText)
    (hnext : stream.next = (.ok token, after)) :
    stream.tokens = (token :: ·) <$> after.tokens := by
  rw [TokenStream.tokens, if_neg hend]
  split
  · rename_i hother
    rw [hnext] at hother
    cases hother
    rfl
  · rename_i hother
    rw [hnext] at hother
    cases hother

theorem scans_of_tokens (hbegins : stream.Begins cursor) (htokens : stream.tokens = .ok tokens) :
    cursor.Scans tokens := by
  fun_induction TokenStream.tokens stream generalizing cursor tokens with
  | case1 stream hend =>
      cases htokens
      exact .last hbegins hend
  | case2 stream hend token after hnext ih =>
      obtain ⟨rfl, hafter⟩ := next_eq_ok_iff.mp hnext
      cases hrest : after.tokens with
      | error error =>
          rw [hrest] at htokens
          cases htokens
      | ok rest =>
          rw [hrest] at htokens
          cases htokens
          exact .next hbegins hend (ih hafter hrest)
  | case3 => cases htokens

theorem tokens_of_scans (hbegins : stream.Begins cursor) (hscans : cursor.Scans tokens) :
    stream.tokens = .ok tokens := by
  induction hscans generalizing stream with
  | last hscan hend =>
      obtain ⟨rfl, _⟩ := hbegins.eq_of_scan hscan
      rw [TokenStream.tokens, if_pos hend]
  | next hscan hend hrest ih =>
      obtain ⟨rfl, rfl⟩ := hbegins.eq_of_scan hscan
      obtain ⟨after, hafter⟩ := exists_begins_of_scans hrest
      rw [tokens_of_next hend (next_eq_ok_iff.mpr ⟨rfl, hafter⟩), ih hafter]
      rfl

end TokenStream

/-- The tokens of a text are what a cursor at its start scans. -/
theorem tokenize_eq_ok_iff_scans {text : String} {tokens : List Token} :
    tokenize text = .ok tokens ↔ (Cursor.ofText text.toList).Scans tokens := by
  unfold tokenize TokenStream.ofText?
  constructor
  · intro htokens
    split at htokens
    · rename_i hstream
      exact TokenStream.scans_of_tokens (TokenStream.ofCursor?_eq_ok_iff.mp hstream) htokens
    · cases htokens
  · intro hscans
    obtain ⟨stream, hbegins⟩ := TokenStream.exists_begins_of_scans hscans
    rw [TokenStream.ofCursor?_eq_ok_iff.mpr hbegins]
    exact TokenStream.tokens_of_scans hbegins hscans

end TopDown.Definition
