import Mathlib.Data.List.Perm.Subperm
import TopDown.Proofs.Definition.Places

/-!
# Histories of a stream

A stream is used by calls in any order, also after calls that have failed. A call either leaves the
stream as it is or takes a token from it, and taking moves the cursor even if it fails. The main
statement says what the replies of a history have in common, whatever the calls were.
-/

namespace TopDown.Definition

namespace TokenStream

/-- The operations of a stream. -/
inductive Call where
  | peek
  | next
  | has (kinds : List TokenKind)
  | expect (kinds : List TokenKind)
deriving DecidableEq, Repr

inductive Reply where
  | shown (token : Token)
  | told (listed : Bool)
  | taken (outcome : Except Error Token)
deriving DecidableEq

def answer (stream : TokenStream) : Call → Reply × TokenStream
  | .peek => (.shown stream.upcoming, stream)
  | .next => (.taken stream.next.1, stream.next.2)
  | .has kinds => (.told (stream.has kinds), stream)
  | .expect kinds => (.taken (stream.expect kinds).1, (stream.expect kinds).2)

/-- A call, its reply, and the stream before and after it. -/
structure Exchange where
  before : TokenStream
  call : Call
  reply : Reply
  after : TokenStream

def exchange (stream : TokenStream) (call : Call) : Exchange where
  before := stream
  call := call
  reply := (stream.answer call).1
  after := (stream.answer call).2

/-- The exchanges of one call after another. -/
def history (stream : TokenStream) : List Call → List Exchange
  | [] => []
  | call :: calls => stream.exchange call :: (stream.answer call).2.history calls

namespace Exchange

/-- The call goes through to the next token: nothing keeps it from being taken but a fault of the
text. -/
def Takes (exchange : Exchange) : Prop :=
  match exchange.call with
  | .peek => False
  | .next => True
  | .has _ => False
  | .expect kinds => exchange.before.upcoming.kind ∈ kinds

/-- The token that the call has given. -/
def given? (exchange : Exchange) : Option Token :=
  match exchange.reply with
  | .taken (.ok token) => some token
  | _ => none

/-- The start of the unclosed terminal that the call has failed at. -/
def unclosed? (exchange : Exchange) : Option Location :=
  match exchange.reply with
  | .taken (.error (.unclosedTerminal start)) => some start
  | _ => none

/-- The end of the text, or an invalid character. -/
def IsFinal (exchange : Exchange) : Prop :=
  match exchange.reply with
  | .taken (.ok token) => token.kind = .endOfText
  | .taken (.error (.invalidCharacter _ _)) => True
  | _ => False

/-- What every call obeys by itself: the token that is given is the upcoming one, a failure keeps
the upcoming token, and a call that takes no token keeps the whole stream. -/
structure Lawful (exchange : Exchange) : Prop where
  peek : exchange.call = .peek →
    exchange.reply = .shown exchange.before.upcoming ∧ exchange.after = exchange.before
  has : ∀ kinds, exchange.call = .has kinds →
    exchange.reply = .told (decide (exchange.before.upcoming.kind ∈ kinds)) ∧
      exchange.after = exchange.before
  unlisted : ∀ kinds, exchange.call = .expect kinds →
    exchange.before.upcoming.kind ∉ kinds →
      exchange.reply = .taken (.error (.unexpectedToken kinds exchange.before.upcoming)) ∧
        exchange.after = exchange.before
  given : ∀ token, exchange.reply = .taken (.ok token) → token = exchange.before.upcoming
  failed : ∀ error, exchange.reply = .taken (.error error) →
    exchange.after.upcoming = exchange.before.upcoming

/-- What a call can come to. -/
inductive Outcome (exchange : Exchange) : Prop
  | keeps (htakes : ¬exchange.Takes) (hafter : exchange.after = exchange.before)
      (hreply : ∀ outcome, exchange.reply = .taken outcome →
        ∃ kinds, outcome = .error (.unexpectedToken kinds exchange.before.upcoming))
  | gives (htakes : exchange.Takes) {token : Token} {cursor : Cursor}
      (hscan : exchange.before.cursor.scan = (.ok token, cursor))
      (hreply : exchange.reply = .taken (.ok exchange.before.upcoming))
      (hafter : exchange.after = { upcoming := token, cursor := cursor })
  | fails (htakes : exchange.Takes) {error : Error} {cursor : Cursor}
      (hscan : exchange.before.cursor.scan = (.error error, cursor))
      (hreply : exchange.reply = .taken (.error error))
      (hafter : exchange.after = { exchange.before with cursor := cursor })

end Exchange

variable {stream : TokenStream} {call : Call} {calls : List Call} {token : Token}
  {text : String}

theorem has_eq_decide (stream : TokenStream) (kinds : List TokenKind) :
    stream.has kinds = decide (stream.upcoming.kind ∈ kinds) := by
  rw [has, List.contains_eq_mem]

theorem has_iff {kinds : List TokenKind} :
    stream.has kinds = true ↔ stream.upcoming.kind ∈ kinds := by
  rw [has_eq_decide, decide_eq_true_iff]

theorem expect_of_mem {kinds : List TokenKind} (hkind : stream.upcoming.kind ∈ kinds) :
    stream.expect kinds = stream.next := by
  rw [expect, has_eq_decide, decide_eq_true hkind, if_pos rfl]

theorem expect_of_not_mem {kinds : List TokenKind} (hkind : stream.upcoming.kind ∉ kinds) :
    stream.expect kinds = (.error (.unexpectedToken kinds stream.upcoming), stream) := by
  rw [expect, has_eq_decide, decide_eq_false hkind, if_neg Bool.false_ne_true]

theorem exchange_of_takes (htakes : (stream.exchange call).Takes) :
    (stream.exchange call).reply = .taken stream.next.1 ∧
      (stream.exchange call).after = stream.next.2 := by
  cases call with
  | peek => cases htakes
  | has kinds => cases htakes
  | next => exact ⟨rfl, rfl⟩
  | expect kinds =>
      have hexpect : stream.expect kinds = stream.next := expect_of_mem htakes
      rw [exchange, answer, hexpect]
      exact ⟨rfl, rfl⟩

theorem exchange_of_not_takes (htakes : ¬(stream.exchange call).Takes) :
    (stream.exchange call).after = stream ∧
      ∀ outcome, (stream.exchange call).reply = .taken outcome →
        ∃ kinds, outcome = .error (.unexpectedToken kinds stream.upcoming) := by
  cases call with
  | peek => exact ⟨rfl, fun _ hreply => nomatch hreply⟩
  | has kinds => exact ⟨rfl, fun _ hreply => nomatch hreply⟩
  | next => exact absurd trivial htakes
  | expect kinds =>
      have hexpect : stream.expect kinds = _ := expect_of_not_mem htakes
      rw [exchange, answer, hexpect]
      refine ⟨rfl, fun outcome hreply => ?_⟩
      cases hreply
      exact ⟨kinds, rfl⟩

theorem exchange_outcome (stream : TokenStream) (call : Call) :
    (stream.exchange call).Outcome := by
  by_cases htakes : (stream.exchange call).Takes
  · obtain ⟨hreply, hafter⟩ := exchange_of_takes htakes
    obtain ⟨outcome, cursor, hscan⟩ : ∃ outcome cursor, stream.cursor.scan = (outcome, cursor) :=
      ⟨_, _, rfl⟩
    rw [next, hscan] at hreply hafter
    cases outcome with
    | ok token => exact .gives htakes hscan hreply hafter
    | error error => exact .fails htakes hscan hreply hafter
  · obtain ⟨hafter, hreply⟩ := exchange_of_not_takes htakes
    exact .keeps htakes hafter hreply

theorem lawful_exchange (stream : TokenStream) (call : Call) :
    (stream.exchange call).Lawful where
  peek := by
    rintro rfl
    exact ⟨rfl, rfl⟩
  has := by
    rintro kinds rfl
    exact ⟨congrArg Reply.told (stream.has_eq_decide kinds), rfl⟩
  unlisted := by
    rintro kinds rfl hkind
    have hexpect : stream.expect kinds = _ := expect_of_not_mem hkind
    rw [exchange, answer, hexpect]
    exact ⟨rfl, rfl⟩
  given := by
    intro token htoken
    cases stream.exchange_outcome call with
    | keeps _ _ hreply =>
        obtain ⟨_, herror⟩ := hreply _ htoken
        cases herror
    | gives _ _ hreply _ =>
        cases hreply.symm.trans htoken
        rfl
    | fails _ _ hreply _ => cases hreply.symm.trans htoken
  failed := by
    intro error herror
    cases stream.exchange_outcome call with
    | keeps _ hafter _ => rw [hafter]
    | gives _ _ hreply _ => cases hreply.symm.trans herror
    | fails _ _ _ hafter => rw [hafter]

/-! ### Histories

What every call keeps, and what relates an earlier call to all later ones, is carried from call to
call. The laws of a history are instances of these two inductions. -/

/-- What every call keeps holds before every call of a history. -/
theorem forall_mem_history (Inv : TokenStream → Prop)
    (hstep : ∀ stream call, Inv stream → Inv (stream.exchange call).after) (hinv : Inv stream)
    (calls : List Call) :
    ∀ exchange ∈ stream.history calls,
      Inv exchange.before ∧ exchange = exchange.before.exchange exchange.call := by
  induction calls generalizing stream with
  | nil => exact fun _ hmem => nomatch hmem
  | cons call calls ih =>
      intro exchange hmem
      rcases List.mem_cons.mp hmem with rfl | hmem
      · exact ⟨hinv, rfl⟩
      · exact ih (hstep stream call hinv) exchange hmem

/-- What the first of two exchanges starts, and every call keeps, relates the first one to all that
come later. -/
theorem pairwise_history {Inv : TokenStream → Prop} (Started : Exchange → TokenStream → Prop)
    {Related : Exchange → Exchange → Prop}
    (hstep : ∀ stream call, Inv stream → Inv (stream.exchange call).after)
    (hstart : ∀ stream call, Inv stream →
      Started (stream.exchange call) (stream.exchange call).after)
    (hkeep : ∀ first stream call, Started first stream → Started first (stream.exchange call).after)
    (hrelated : ∀ first stream call, Started first stream → Related first (stream.exchange call))
    (hinv : Inv stream) (calls : List Call) : (stream.history calls).Pairwise Related := by
  induction calls generalizing stream with
  | nil => exact .nil
  | cons call calls ih =>
      refine .cons (fun later hmem => ?_) (ih (hstep stream call hinv))
      obtain ⟨hlater, heq⟩ := forall_mem_history _ (hkeep (stream.exchange call))
        (hstart stream call hinv) calls later hmem
      rw [heq]
      exact hrelated _ _ _ hlater

/-! ### Tokens in order

Tokens and faults come in the order of their places. A call that takes a token moves on, and behind
the end of the text or an invalid character nothing changes any more. -/

/-- The upcoming token has been scanned, and the cursor is behind it. -/
structure Orderly (stream : TokenStream) : Prop where
  stop_le : stream.upcoming.stop ≤ stream.cursor.location.offset
  offset_lt : stream.upcoming.kind ≠ .endOfText →
    stream.upcoming.location.offset < stream.upcoming.stop
  steady : stream.upcoming.kind = .endOfText → stream.next = (.ok stream.upcoming, stream)

theorem Begins.orderly {cursor : Cursor} (hbegins : stream.Begins cursor) : stream.Orderly where
  stop_le := (Cursor.offset_eq_stop_of_scan hbegins).ge
  offset_lt := Cursor.offset_lt_stop_of_scan hbegins
  steady hend := by
    rw [next, Cursor.scan_of_endOfText hbegins (Token.kind_eq_endOfText_iff.mp hend)]

theorem Orderly.after (horderly : stream.Orderly) (call : Call) :
    (stream.exchange call).after.Orderly := by
  cases stream.exchange_outcome call with
  | keeps _ hafter _ =>
      rw [hafter]
      exact horderly
  | gives _ hscan _ hafter =>
      rw [hafter]
      exact Begins.orderly hscan
  | fails _ hscan _ hafter =>
      have hend : stream.upcoming.kind ≠ .endOfText := fun hend => by
        have hsteady := horderly.steady hend
        rw [next, show stream.cursor.scan = _ from hscan] at hsteady
        cases hsteady
      rw [hafter]
      exact ⟨horderly.stop_le.trans (Cursor.offset_le_of_scan hscan), horderly.offset_lt,
        fun hend' => absurd hend' hend⟩

/-- No token is to come before the bound. -/
structure IsPast (stream : TokenStream) (bound : Nat) : Prop where
  upcoming : bound ≤ stream.upcoming.location.offset
  cursor : bound ≤ stream.cursor.location.offset

theorem offset_le_after (stream : TokenStream) (call : Call) :
    stream.cursor.location.offset ≤ (stream.exchange call).after.cursor.location.offset := by
  cases stream.exchange_outcome call with
  | keeps _ hafter _ => rw [hafter]; rfl
  | gives _ hscan _ hafter => rw [hafter]; exact Cursor.offset_le_of_scan hscan
  | fails _ hscan _ hafter => rw [hafter]; exact Cursor.offset_le_of_scan hscan

theorem IsPast.after {bound : Nat} (hpast : stream.IsPast bound) (call : Call) :
    (stream.exchange call).after.IsPast bound := by
  refine ⟨?_, hpast.cursor.trans (stream.offset_le_after call)⟩
  cases stream.exchange_outcome call with
  | keeps _ hafter _ => rw [hafter]; exact hpast.upcoming
  | gives _ hscan _ hafter =>
      rw [hafter]
      exact hpast.cursor.trans (Cursor.offset_le_of_scan_ok hscan)
  | fails _ _ _ hafter => rw [hafter]; exact hpast.upcoming

namespace Exchange

theorem reply_of_given? {exchange : Exchange} (hgiven : exchange.given? = some token) :
    exchange.reply = .taken (.ok token) := by
  unfold given? at hgiven
  split at hgiven
  · rename_i hreply
    cases hgiven
    exact hreply
  · cases hgiven

theorem reply_of_unclosed? {exchange : Exchange} {start : Location}
    (hunclosed : exchange.unclosed? = some start) :
    exchange.reply = .taken (.error (.unclosedTerminal start)) := by
  unfold unclosed? at hunclosed
  split at hunclosed
  · rename_i hreply
    cases hunclosed
    exact hreply
  · cases hunclosed

/-- The stream is past the token that was given. -/
def Passes (exchange : Exchange) (stream : TokenStream) : Prop :=
  ∀ token, exchange.given? = some token →
    stream.IsPast token.stop ∧
      (token.kind ≠ .endOfText → token.location.offset < token.stop)

/-- The stream is behind the start of the unclosed terminal. -/
def Leaves (exchange : Exchange) (stream : TokenStream) : Prop :=
  ∀ start, exchange.unclosed? = some start → start.offset < stream.cursor.location.offset

/-- The stream gives the final reply once more and does not change any more. -/
def Settles (exchange : Exchange) (stream : TokenStream) : Prop :=
  exchange.IsFinal → exchange.reply = .taken stream.next.1 ∧ stream.next.2 = stream

end Exchange

theorem upcoming_of_given? (hgiven : (stream.exchange call).given? = some token) :
    stream.upcoming = token :=
  ((stream.lawful_exchange call).given token (Exchange.reply_of_given? hgiven)).symm

theorem passes_after (horderly : stream.Orderly) (call : Call) :
    (stream.exchange call).Passes (stream.exchange call).after := by
  intro token hgiven
  obtain rfl := upcoming_of_given? hgiven
  refine ⟨?_, horderly.offset_lt⟩
  have hreply := Exchange.reply_of_given? hgiven
  cases stream.exchange_outcome call with
  | keeps _ _ hnone =>
      obtain ⟨_, herror⟩ := hnone _ hreply
      cases herror
  | gives _ hscan _ hafter =>
      rw [hafter]
      exact ⟨horderly.stop_le.trans (Cursor.offset_le_of_scan_ok hscan),
        horderly.stop_le.trans (Cursor.offset_le_of_scan hscan)⟩
  | fails _ _ herror _ => cases herror.symm.trans hreply

theorem offset_lt_of_unclosed? {start : Location}
    (hunclosed : (stream.exchange call).unclosed? = some start) :
    stream.cursor.location.offset ≤ start.offset ∧
      start.offset < (stream.exchange call).after.cursor.location.offset := by
  have hreply := Exchange.reply_of_unclosed? hunclosed
  cases stream.exchange_outcome call with
  | keeps _ _ hnone =>
      obtain ⟨_, herror⟩ := hnone _ hreply
      cases herror
  | gives _ _ hgiven _ => cases hgiven.symm.trans hreply
  | fails _ hscan herror hafter =>
      cases herror.symm.trans hreply
      rw [hafter]
      exact Cursor.offset_lt_of_scan_unclosed hscan

theorem settles_after (horderly : stream.Orderly) (call : Call) :
    (stream.exchange call).Settles (stream.exchange call).after := by
  intro hfinal
  unfold Exchange.IsFinal at hfinal
  cases stream.exchange_outcome call with
  | keeps _ _ hnone =>
      split at hfinal
      · rename_i hreply
        obtain ⟨_, herror⟩ := hnone _ hreply
        cases herror
      · rename_i hreply
        obtain ⟨_, herror⟩ := hnone _ hreply
        cases herror
      · exact hfinal.elim
  | gives _ hscan hreply hafter =>
      rw [hreply] at hfinal ⊢
      have hsteady := horderly.steady hfinal
      rw [next, show stream.cursor.scan = _ from hscan, Prod.mk.injEq] at hsteady
      rw [hafter, hsteady.2, horderly.steady hfinal]
      exact ⟨rfl, rfl⟩
  | fails _ hscan hreply hafter =>
      rw [hreply] at hfinal ⊢
      split at hfinal
      · rename_i hok
        cases hok
      · rename_i hinvalid
        cases hinvalid
        rw [hafter, next, Cursor.scan_of_invalidCharacter hscan]
        exact ⟨rfl, rfl⟩
      · exact hfinal.elim

theorem after_of_next_eq (hsteady : stream.next.2 = stream) (call : Call) :
    (stream.exchange call).after = stream := by
  by_cases htakes : (stream.exchange call).Takes
  · rw [(exchange_of_takes htakes).2, hsteady]
  · exact (exchange_of_not_takes htakes).1

section Laws

variable (horderly : stream.Orderly) (calls : List Call)
include horderly

/-- The tokens that are given come one behind the other. -/
theorem given_pairwise :
    ((stream.history calls).filterMap Exchange.given?).Pairwise Token.Precedes := by
  rw [List.pairwise_filterMap]
  refine pairwise_history Exchange.Passes (fun _ call horderly => horderly.after call)
    (fun _ call horderly => passes_after horderly call) ?_ ?_ horderly calls
  · intro first stream call hpasses token hgiven
    exact ⟨(hpasses token hgiven).1.after call, (hpasses token hgiven).2⟩
  · intro first stream call hpasses token hgiven later hlater
    obtain ⟨hpast, hlt⟩ := hpasses token hgiven
    obtain rfl := upcoming_of_given? hlater
    exact ⟨hpast.upcoming, fun hend => (hlt hend).trans_le hpast.upcoming⟩

/-- A final reply is given to every later call that takes a token. -/
theorem final_pairwise :
    (stream.history calls).Pairwise fun first later =>
      first.IsFinal → later.Takes → later.reply = first.reply := by
  refine pairwise_history Exchange.Settles (fun _ call horderly => horderly.after call)
    (fun _ call horderly => settles_after horderly call) ?_ ?_ horderly calls
  · intro first stream call hsettles hfinal
    rw [after_of_next_eq (hsettles hfinal).2]
    exact hsettles hfinal
  · intro first stream call hsettles hfinal htakes
    rw [(exchange_of_takes htakes).1, (hsettles hfinal).1]

/-- No two failures are at the same unclosed terminal. -/
theorem unclosed_pairwise :
    ((stream.history calls).filterMap Exchange.unclosed?).Pairwise
      fun first later => first.offset < later.offset := by
  rw [List.pairwise_filterMap]
  refine pairwise_history Exchange.Leaves (fun _ call horderly => horderly.after call)
    (fun _ _ _ _ hunclosed => (offset_lt_of_unclosed? hunclosed).2) ?_ ?_ horderly calls
  · intro first stream call hleaves start hunclosed
    exact (hleaves start hunclosed).trans_le (stream.offset_le_after call)
  · intro first stream call hleaves start hunclosed other hother
    exact (hleaves start hunclosed).trans_le (offset_lt_of_unclosed? hother).1

end Laws

/-- The upcoming token and the cursor are placed in the text. -/
structure IsIn (stream : TokenStream) (text : String) : Prop where
  upcoming : stream.upcoming.IsPlacedIn text
  cursor : stream.cursor.IsIn text

theorem Begins.isIn {cursor : Cursor} (hbegins : stream.Begins cursor) (hin : cursor.IsIn text) :
    stream.IsIn text :=
  ⟨hin.isPlacedIn hbegins, hin.scan hbegins⟩

theorem IsIn.after (hin : stream.IsIn text) (call : Call) :
    (stream.exchange call).after.IsIn text := by
  cases stream.exchange_outcome call with
  | keeps _ hafter _ =>
      rw [hafter]
      exact hin
  | gives _ hscan _ hafter =>
      rw [hafter]
      exact Begins.isIn hscan hin.cursor
  | fails _ hscan _ hafter =>
      rw [hafter]
      exact ⟨hin.upcoming, hin.cursor.scan hscan⟩

theorem IsIn.history (hin : stream.IsIn text) (calls : List Call) :
    ∀ exchange ∈ stream.history calls,
      exchange.before.IsIn text ∧ exchange = exchange.before.exchange exchange.call :=
  forall_mem_history (·.IsIn text) (fun _ call hin => hin.after call) hin calls

/-- Every failure at an unclosed terminal takes up bytes of the text. -/
theorem unclosed_length_le (horderly : stream.Orderly) (hin : stream.IsIn text)
    (calls : List Call) :
    ((stream.history calls).filterMap Exchange.unclosed?).length ≤ text.utf8ByteSize := by
  let offsets := ((stream.history calls).filterMap Exchange.unclosed?).map Location.offset
  have hnodup : offsets.Nodup :=
    List.pairwise_map.mpr ((unclosed_pairwise horderly calls).imp Nat.ne_of_lt)
  have hsubset : offsets ⊆ List.range text.utf8ByteSize := by
    intro offset hmem
    obtain ⟨start, hstart, rfl⟩ := List.mem_map.mp hmem
    obtain ⟨exchange, hexchange, hunclosed⟩ := List.mem_filterMap.mp hstart
    obtain ⟨hbefore, heq⟩ := hin.history calls exchange hexchange
    rw [heq] at hunclosed
    exact List.mem_range.mpr
      ((offset_lt_of_unclosed? hunclosed).2.trans_le (hbefore.after exchange.call).cursor.offset_le)
  have hlength := (List.subperm_of_subset hnodup hsubset).length_le
  rw [List.length_map, List.length_range] at hlength
  exact hlength

/-- What the exchanges of a history have in common. -/
structure HistoryLaws (text : String) (history : List Exchange) : Prop where
  lawful : ∀ exchange ∈ history, exchange.Lawful
  given_precede : (history.filterMap Exchange.given?).Pairwise Token.Precedes
  final_repeats : history.Pairwise fun first later =>
    first.IsFinal → later.Takes → later.reply = first.reply
  unclosed_progress : (history.filterMap Exchange.unclosed?).Pairwise
    fun first later => first.offset < later.offset
  unclosed_bounded : (history.filterMap Exchange.unclosed?).length ≤ text.utf8ByteSize

/-- Whatever is called on a stream of a text, and whether it fails or not: tokens are given in order
and as they were shown, the end of the text and an invalid character are final, and the text bounds
the number of failures at unclosed terminals. -/
theorem history_laws (hstream : ofText? text = .ok stream) (calls : List Call) :
    HistoryLaws text (stream.history calls) := by
  have hbegins := ofCursor?_eq_ok_iff.mp hstream
  have horderly := hbegins.orderly
  have hin := hbegins.isIn (Cursor.isIn_ofText text)
  refine ⟨fun exchange hmem => ?_, given_pairwise horderly calls, final_pairwise horderly calls,
    unclosed_pairwise horderly calls, unclosed_length_le horderly hin calls⟩
  obtain ⟨_, heq⟩ := hin.history calls exchange hmem
  rw [heq]
  exact lawful_exchange _ _

/-- A text with an unclosed terminal and an invalid character behind its first token. -/
theorem history_laws_faulty :
    ∃ stream, ofText? "a 'b\n:@" = .ok stream ∧
      HistoryLaws "a 'b\n:@" (stream.history [.peek, .next, .next, .expect [.pipe], .next, .next]) ∧
      (stream.history [.peek, .next, .next, .expect [.pipe], .next, .next]).map Exchange.reply =
        [.shown ⟨.nonterminal "a", ⟨0, 1, 1⟩⟩,
          .taken (.error (.unclosedTerminal ⟨2, 1, 3⟩)),
          .taken (.ok ⟨.nonterminal "a", ⟨0, 1, 1⟩⟩),
          .taken (.error (.unexpectedToken [.pipe] ⟨.colon, ⟨5, 2, 1⟩⟩)),
          .taken (.error (.invalidCharacter '@' ⟨6, 2, 2⟩)),
          .taken (.error (.invalidCharacter '@' ⟨6, 2, 2⟩))] := by
  have hstream : ofText? "a 'b\n:@" =
      .ok
        { upcoming := ⟨.nonterminal "a", ⟨0, 1, 1⟩⟩
          cursor := ⟨⟨1, 1, 2⟩, " 'b\n:@".toList⟩ } := by
    decide +kernel
  exact ⟨_, hstream, history_laws hstream _, by decide +kernel⟩

end TokenStream

end TopDown.Definition
