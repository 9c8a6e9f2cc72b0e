import TopDown.Proofs.Definition.Calls
import TopDown.Proofs.Definition.EarliestError
import TopDown.Proofs.Definition.SlicedScan

/-!
# Placement

Whatever is read of a text, or reported about it, is placed in it. The main statement says so of the
tokens of a text and of all errors, also of those that come up in a history of a stream, and that no
scan in such a history needs a slice that the text does not have.
-/

namespace TopDown.Definition

/-- The error is located at a place of the text, and so is the token that it names. -/
structure Error.IsPlacedIn (error : Error) (text : String) : Prop where
  location : error.location.IsIn text
  found : ∀ expected token, error = .unexpectedToken expected token → token.IsPlacedIn text

/-- At the location of the cursor the text can be scanned by slices, and this gives the token of the
cursor with its size, or its error, and moves to where the cursor moves. -/
def Cursor.IsSliced (cursor : Cursor) (text : String) : Prop :=
  SlicedScan.scan? text cursor.location =
    some (cursor.scan.1.map fun token => (token, token.size), cursor.scan.2.location)

variable {text : String} {cursor next : Cursor} {token : Token} {error : Error}

theorem Token.IsPlacedIn.unexpected (hplaced : token.IsPlacedIn text)
    (expected : List TokenKind) : (Error.unexpectedToken expected token).IsPlacedIn text := by
  refine ⟨hplaced.location, fun expected found hfound => ?_⟩
  cases hfound
  exact hplaced

theorem Cursor.IsIn.isPlacedIn_error (hin : cursor.IsIn text)
    (hscan : cursor.scan = (.error error, next)) : error.IsPlacedIn text := by
  refine ⟨hin.isIn_error hscan, ?_⟩
  rintro expected found rfl
  obtain ⟨fault, _, hfault, _⟩ := scan_eq_error_iff.mp hscan
  cases fault <;> cases hfault

/-- All that was scanned is placed in the text. -/
def Scanned.IsPlacedIn (text : String) : Scanned → Prop
  | .endOfText token _ => token.IsPlacedIn text
  | .fault error => error.IsPlacedIn text
  | .next token _ later => token.IsPlacedIn text ∧ later.IsPlacedIn text

theorem Cursor.IsIn.isPlacedIn_scanAll (hin : cursor.IsIn text) :
    cursor.scanAll.IsPlacedIn text := by
  fun_induction Cursor.scanAll cursor with
  | case1 cursor error next hscan => exact hin.isPlacedIn_error hscan
  | case2 cursor token next hscan hend => exact hin.isPlacedIn hscan
  | case3 cursor token next hscan hend ih => exact ⟨hin.isPlacedIn hscan, ih (hin.scan hscan)⟩

/-- The tokens that are scanned come one behind the other, and behind the cursor. -/
theorem Cursor.precede_scanAll (cursor : Cursor) :
    cursor.scanAll.tokens.Pairwise Token.Precedes ∧
      ∀ token ∈ cursor.scanAll.tokens, cursor.location.offset ≤ token.location.offset := by
  fun_induction Cursor.scanAll cursor with
  | case1 cursor error next hscan => exact ⟨.nil, fun _ hmem => nomatch hmem⟩
  | case2 cursor token next hscan hend =>
      refine ⟨List.pairwise_singleton _ _, fun other hmem => ?_⟩
      rw [List.mem_singleton.mp hmem]
      exact offset_le_of_scan_ok hscan
  | case3 cursor token next hscan hend ih =>
      have hnext := offset_eq_stop_of_scan hscan
      refine ⟨.cons (fun other hmem => ?_) ih.1, fun other hmem => ?_⟩
      · have hstop := hnext ▸ ih.2 other hmem
        exact ⟨hstop, fun hkind => (offset_lt_stop_of_scan hscan hkind).trans_le hstop⟩
      · rcases List.mem_cons.mp hmem with rfl | hmem
        · exact offset_le_of_scan_ok hscan
        · exact (offset_le_of_scan hscan).trans (ih.2 other hmem)

namespace Scanned.IsPlacedIn

variable {scan : Scanned} (hplaced : scan.IsPlacedIn text)
include hplaced

theorem of_mem_tokens : ∀ token ∈ scan.tokens, token.IsPlacedIn text := by
  induction scan with
  | endOfText token _ =>
      intro other hmem
      rw [List.mem_singleton.mp hmem]
      exact hplaced
  | fault error => exact fun _ hmem => nomatch hmem
  | next token _ later ih =>
      intro other hmem
      rcases List.mem_cons.mp hmem with rfl | hmem
      · exact hplaced.1
      · exact ih hplaced.2 other hmem

theorem of_result (hresult : scan.result = .error error) : error.IsPlacedIn text := by
  induction scan with
  | endOfText token _ => cases hresult
  | fault error =>
      cases hresult
      exact hplaced
  | next token _ later ih =>
      exact ih hplaced.2 (result_next_eq_error_iff.mp hresult)

theorem of_judge {reading : Reading} (hjudge : reading.judge scan = .error error) :
    error.IsPlacedIn text := by
  induction scan generalizing reading with
  | endOfText token _ =>
      rw [Reading.judge] at hjudge
      split at hjudge
      · cases hjudge
      · cases hjudge
        exact Token.IsPlacedIn.unexpected hplaced _
  | fault error =>
      cases hjudge
      exact hplaced
  | next token _ later ih =>
      rw [Reading.judge] at hjudge
      split at hjudge
      · cases hjudge
        exact hplaced.1.unexpected _
      · exact ih hplaced.2 hjudge

end Scanned.IsPlacedIn

theorem isPlacedIn_scanned (text : String) : (scanned text).IsPlacedIn text :=
  (Cursor.isIn_ofText text).isPlacedIn_scanAll

namespace TokenStream

/-- What is replied is placed in the text, and the call can be carried out by slices. -/
structure Exchange.IsPlacedIn (exchange : Exchange) (text : String) : Prop where
  shown : ∀ token, exchange.reply = .shown token → token.IsPlacedIn text
  given : ∀ token, exchange.reply = .taken (.ok token) → token.IsPlacedIn text
  failed : ∀ error, exchange.reply = .taken (.error error) → error.IsPlacedIn text
  sliced : exchange.before.cursor.IsSliced text

variable {stream : TokenStream} {call : Call}

theorem IsIn.isPlacedIn_exchange (hin : stream.IsIn text) (call : Call) :
    (stream.exchange call).IsPlacedIn text where
  shown := by
    intro token hreply
    cases call with
    | peek =>
        cases hreply
        exact hin.upcoming
    | _ => cases hreply
  given := by
    intro token hreply
    rw [(stream.lawful_exchange call).given token hreply]
    exact hin.upcoming
  failed := by
    intro error herror
    cases stream.exchange_outcome call with
    | keeps _ _ hreply =>
        obtain ⟨kinds, hkinds⟩ := hreply _ herror
        cases hkinds
        exact hin.upcoming.unexpected kinds
    | gives _ _ hreply _ => cases hreply.symm.trans herror
    | fails _ hscan hreply _ =>
        cases hreply.symm.trans herror
        exact hin.cursor.isPlacedIn_error hscan
  sliced := SlicedScan.scan?_eq hin.cursor

end TokenStream

/-- Every token of a text is placed in it, behind the one before, and every error is placed in it,
whether it comes from the tokens, from the reading of a grammar, or from a call of any history of a
stream. The scan that makes a stream, and those of its calls, do with slices of the text. -/
theorem places_exact (text : String) :
    (∀ tokens, tokenize text = .ok tokens →
        (∀ token ∈ tokens, token.IsPlacedIn text) ∧ tokens.Pairwise Token.Precedes) ∧
      (∀ error, tokenize text = .error error ∨ parse text = .error error ∨
        TokenStream.ofText? text = .error error → error.IsPlacedIn text) ∧
      (Cursor.ofText text.toList).IsSliced text ∧
      ∀ stream, TokenStream.ofText? text = .ok stream → ∀ calls,
        (∀ exchange ∈ stream.history calls, exchange.IsPlacedIn text) ∧
          ((stream.history calls).filterMap TokenStream.Exchange.given?).Pairwise
            Token.Precedes := by
  have hscanned := isPlacedIn_scanned text
  have hstart := Cursor.isIn_ofText text
  refine ⟨fun tokens htokens => ?_, ?_, SlicedScan.scan?_eq hstart, fun stream hstream calls => ?_⟩
  · rw [tokenize_eq_result] at htokens
    rw [← Scanned.tokens_of_result htokens]
    exact ⟨hscanned.of_mem_tokens, (Cursor.precede_scanAll _).1⟩
  · rintro error (htokenize | hparse | hstream)
    · rw [tokenize_eq_result] at htokenize
      exact hscanned.of_result htokenize
    · rw [parse_eq_judge] at hparse
      exact hscanned.of_judge hparse
    · obtain ⟨_, hscan⟩ := TokenStream.exists_scan_of_ofCursor? hstream
      exact hstart.isPlacedIn_error hscan
  · have hbegins := TokenStream.ofCursor?_eq_ok_iff.mp hstream
    refine ⟨fun exchange hmem => ?_, TokenStream.given_pairwise hbegins.orderly calls⟩
    obtain ⟨hin, heq⟩ := (hbegins.isIn hstart).history calls exchange hmem
    rw [heq]
    exact hin.isPlacedIn_exchange exchange.call

end TopDown.Definition
