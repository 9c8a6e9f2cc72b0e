import Mathlib.Data.List.DropRight
import TopDown.Proofs.Definition.Gap
import TopDown.Proofs.Definition.Lexeme
import TopDown.Proofs.Definition.Tokens

/-!
# Places in a text

A location counts the bytes, the lines and the characters in front of a place of the text. The main
statements say that a cursor stays at places of its text, whatever it reads or fails to read, and
that a token that is read stands in the text from its location on.
-/

namespace TopDown.Definition

theorem utf8Length_eq (chars : List Char) :
    utf8Length chars = (String.ofList chars).utf8ByteSize := by
  induction chars with
  | nil => rfl
  | cons char chars ih =>
      rw [utf8Length_cons, ih, String.ofList_cons, String.utf8ByteSize_append,
        String.utf8ByteSize_singleton]

theorem utf8Length_toList (text : String) : utf8Length text.toList = text.utf8ByteSize := by
  rw [utf8Length_eq, String.ofList_toList]

theorem length_le_utf8Length (chars : List Char) : chars.length ≤ utf8Length chars := by
  induction chars with
  | nil => exact Nat.le_refl 0
  | cons char chars ih =>
      have hsize := char.utf8Size_pos
      rw [List.length_cons, utf8Length_cons]
      omega

/-- The text from a byte on. There is none where no character begins, unless the text ends there. -/
def sliceFrom? (text : String) (start : Nat) : Option String :=
  if hstart : String.Pos.Raw.IsValid text ⟨start⟩ then some (text.sliceFrom ⟨⟨start⟩, hstart⟩).copy
  else none

/-- The text from one byte up to another. There is none unless both are places of the text, in this
order. -/
def slice? (text : String) (start stop : Nat) : Option String :=
  if hvalid : String.Pos.Raw.IsValid text ⟨start⟩ ∧ String.Pos.Raw.IsValid text ⟨stop⟩ then
    (text.slice? ⟨⟨start⟩, hvalid.1⟩ ⟨⟨stop⟩, hvalid.2⟩).map String.Slice.copy
  else none

section Slices

variable {text before middle after : String}

theorem isValid_of_append (htext : text = before ++ after) :
    String.Pos.Raw.IsValid text ⟨before.utf8ByteSize⟩ :=
  String.Pos.Raw.isValid_iff_exists_append.mpr ⟨before, after, htext, rfl⟩

theorem sliceFrom?_of_append (htext : text = before ++ after) :
    sliceFrom? text before.utf8ByteSize = some after := by
  have hvalid := isValid_of_append htext
  have hsplits : String.Pos.Splits ⟨_, hvalid⟩ before after := ⟨htext, rfl⟩
  rw [sliceFrom?, dif_pos hvalid, hsplits.copy_sliceFrom_eq]

theorem slice?_of_append (htext : text = before ++ (middle ++ after)) :
    slice? text before.utf8ByteSize (before.utf8ByteSize + middle.utf8ByteSize) = some middle := by
  have htext' := htext
  rw [← String.append_assoc] at htext'
  have hstart := isValid_of_append htext
  have hstop := isValid_of_append htext'
  have hsplits : String.Pos.Splits ⟨_, hstart⟩ before (middle ++ after) := ⟨htext, rfl⟩
  have hsplits' : String.Pos.Splits ⟨_, hstop⟩ (before ++ middle) after := ⟨htext', rfl⟩
  obtain ⟨hle, hcopy⟩ := String.copy_slice_eq_iff_splits.mpr ⟨before, after, hsplits, hsplits'⟩
  simp only [String.utf8ByteSize_append] at hstop hle hcopy
  rw [slice?, dif_pos ⟨hstart, hstop⟩, String.slice?, dif_pos hle, Option.map_some, hcopy]

end Slices

/-- The location of the end of `before`: it counts the bytes, the lines that have begun, and the
characters of the last of them. -/
structure Location.IsBehind (location : Location) (before : String) : Prop where
  offset_eq : location.offset = before.utf8ByteSize
  line_eq : location.line = before.toList.count '\n' + 1
  column_eq : location.column = (before.toList.rtakeWhile (· ≠ '\n')).length + 1

/-- The location of a place of the text: a character begins there, or the text ends. -/
def Location.IsIn (location : Location) (text : String) : Prop :=
  ∃ before after : String, text = before ++ after ∧ location.IsBehind before

theorem Location.isBehind_past_start (before : String) :
    (Location.start.past before.toList).IsBehind before where
  offset_eq := by rw [offset_past, utf8Length_toList]; exact Nat.zero_add _
  line_eq := by
    induction before.toList using List.reverseRecOn with
    | nil => rfl
    | append_singleton chars char ih =>
        rw [past_append, past_cons, past_nil, advance]
        by_cases hbreak : char = '\n'
        · simp [hbreak, ih]
        · simp [hbreak, ih]
  column_eq := by
    induction before.toList using List.reverseRecOn with
    | nil => rfl
    | append_singleton chars char ih =>
        rw [past_append, past_cons, past_nil, advance, List.rtakeWhile_concat]
        by_cases hbreak : char = '\n'
        · simp [hbreak]
        · simp [hbreak, ih]

theorem Location.isBehind_iff {location : Location} {before : String} :
    location.IsBehind before ↔ location = Location.start.past before.toList := by
  have hpast := isBehind_past_start before
  constructor
  · intro hbehind
    obtain ⟨offset, line, column⟩ := location
    cases hpast.offset_eq.trans hbehind.offset_eq.symm
    cases hpast.line_eq.trans hbehind.line_eq.symm
    cases hpast.column_eq.trans hbehind.column_eq.symm
    rfl
  · rintro rfl
    exact hpast

/-! ### Cursors

A cursor moves over the characters ahead of it, also where it comes upon a fault, so at a place of
its text it stays at places of the text. -/

/-- The error that a fault at a location is reported as. -/
def LexicalFault.error (location : Location) : LexicalFault → Error
  | .invalidCharacter char => .invalidCharacter char location
  | .unclosedTerminal _ => .unclosedTerminal location

theorem LexicalFault.location_error (fault : LexicalFault) (location : Location) :
    (fault.error location).location = location := by
  cases fault <;> rfl

variable {cursor next : Cursor} {token : Token} {error : Error} {text : String}

namespace Cursor

theorem scan_eq_error_iff :
    cursor.scan = (.error error, next) ↔
      ∃ fault, Lexeme.read cursor.skipGap.ahead = (.error fault, next.ahead) ∧
        error = fault.error cursor.skipGap.location ∧
        next.location = cursor.skipGap.location.past fault.passed := by
  unfold scan
  dsimp only
  split
  · rename_i hread
    simp [hread]
  all_goals
    rename_i hread
    rw [hread]
    constructor
    · intro hscan
      cases hscan
      exact ⟨_, rfl, rfl, rfl⟩
    · rintro ⟨fault, hfault, rfl, hlocation⟩
      cases next
      cases hfault
      cases hlocation
      rfl

theorem offset_le_skipGap (cursor : Cursor) :
    cursor.location.offset ≤ cursor.skipGap.location.offset := by
  rw [skipGap, move, Location.offset_past]
  exact Nat.le_add_right _ _

theorem skipGap_skipGap (cursor : Cursor) : cursor.skipGap.skipGap = cursor.skipGap := by
  have hsplit : splitGap .blank cursor.skipGap.ahead = ([], cursor.skipGap.ahead) :=
    splitGap_splitGap .blank cursor.ahead
  rw [skipGap, hsplit]
  rfl

/-- A gap that was skipped makes no difference. -/
theorem scan_skipGap (cursor : Cursor) : cursor.skipGap.scan = cursor.scan := by
  rw [scan, scan, skipGap_skipGap]

theorem offset_skipGap_le_of_scan {outcome : Except Error Token}
    (hscan : cursor.scan = (outcome, next)) :
    cursor.skipGap.location.offset ≤ next.location.offset := by
  cases outcome with
  | ok token =>
      rw [(scan_eq_ok_iff.mp hscan).2.2, Location.offset_past]
      exact Nat.le_add_right _ _
  | error error =>
      obtain ⟨fault, _, _, hlocation⟩ := scan_eq_error_iff.mp hscan
      rw [hlocation, Location.offset_past]
      exact Nat.le_add_right _ _

theorem offset_le_of_scan {outcome : Except Error Token} (hscan : cursor.scan = (outcome, next)) :
    cursor.location.offset ≤ next.location.offset :=
  cursor.offset_le_skipGap.trans (offset_skipGap_le_of_scan hscan)

/-- The opening quote of an unclosed terminal is left behind. -/
theorem offset_lt_of_scan_unclosed {start : Location}
    (hscan : cursor.scan = (.error (.unclosedTerminal start), next)) :
    cursor.location.offset ≤ start.offset ∧ start.offset < next.location.offset := by
  obtain ⟨fault, _, hfault, hlocation⟩ := scan_eq_error_iff.mp hscan
  cases fault with
  | invalidCharacter char => cases hfault
  | unclosedTerminal name =>
      obtain rfl : start = cursor.skipGap.location := by
        cases hfault
        rfl
      refine ⟨cursor.offset_le_skipGap, ?_⟩
      have hquote := quoteMark.utf8Size_pos
      rw [hlocation, Location.offset_past, LexicalFault.passed, utf8Length_cons]
      omega

/-- An invalid character is not left behind. -/
theorem scan_of_invalidCharacter {char : Char} {location : Location}
    (hscan : cursor.scan = (.error (.invalidCharacter char location), next)) :
    next.scan = (.error (.invalidCharacter char location), next) := by
  obtain ⟨fault, hread, hfault, hlocation⟩ := scan_eq_error_iff.mp hscan
  cases fault with
  | unclosedTerminal name => cases hfault
  | invalidCharacter other =>
      have hahead := Lexeme.read_error hread
      obtain rfl : next = cursor.skipGap := by
        obtain ⟨nextLocation, nextAhead⟩ := next
        cases hlocation
        cases hahead
        rfl
      rw [scan_skipGap, hscan]

/-- The end of the text is not left behind. -/
theorem scan_of_endOfText (hscan : cursor.scan = (.ok token, next))
    (hend : token.lexeme = .endOfText) : next.scan = (.ok token, next) := by
  obtain ⟨hread, _, hlocation⟩ := scan_eq_ok_iff.mp hscan
  rw [hend] at hread hlocation
  have hahead := Lexeme.read_ok hread
  obtain rfl : next = cursor.skipGap := by
    obtain ⟨nextLocation, nextAhead⟩ := next
    cases hlocation
    cases hahead
    rfl
  rw [scan_skipGap, hscan]

/-- The cursor stands at a place of the text, and what lies ahead of it is what lies behind that
place. -/
def IsIn (cursor : Cursor) (text : String) : Prop :=
  ∃ before : String, text = before ++ String.ofList cursor.ahead ∧
    cursor.location = Location.start.past before.toList

theorem isIn_ofText (text : String) : (ofText text.toList).IsIn text :=
  ⟨"", by simp [ofText], rfl⟩

namespace IsIn

theorem move (hin : cursor.IsIn text) {passed rest : List Char}
    (hahead : passed ++ rest = cursor.ahead) : (cursor.move passed rest).IsIn text := by
  obtain ⟨before, rfl, hlocation⟩ := hin
  refine ⟨before ++ String.ofList passed, ?_, ?_⟩
  · rw [← hahead, String.ofList_append, String.append_assoc]
    rfl
  · rw [String.toList_append, String.toList_ofList, Location.past_append, ← hlocation]
    rfl

theorem skipGap (hin : cursor.IsIn text) : cursor.skipGap.IsIn text :=
  hin.move (splitGap_append .blank cursor.ahead)

theorem location (hin : cursor.IsIn text) : cursor.location.IsIn text := by
  obtain ⟨before, htext, hlocation⟩ := hin
  rw [hlocation]
  exact ⟨before, _, htext, Location.isBehind_past_start before⟩

theorem offset_le (hin : cursor.IsIn text) : cursor.location.offset ≤ text.utf8ByteSize := by
  obtain ⟨before, rfl, hlocation⟩ := hin
  rw [hlocation, (Location.isBehind_past_start before).offset_eq, String.utf8ByteSize_append]
  exact Nat.le_add_right _ _

/-- A scan moves over what it has looked at, also when it fails. -/
theorem scan {outcome : Except Error Token} (hin : cursor.IsIn text)
    (hscan : cursor.scan = (outcome, next)) : next.IsIn text := by
  cases outcome with
  | ok token =>
      obtain ⟨hread, _, hlocation⟩ := scan_eq_ok_iff.mp hscan
      have hmoved := hin.skipGap.move (Lexeme.read_ok hread)
      rw [Cursor.move, ← hlocation] at hmoved
      exact hmoved
  | error error =>
      obtain ⟨fault, hread, _, hlocation⟩ := scan_eq_error_iff.mp hscan
      have hmoved := hin.skipGap.move (Lexeme.read_error hread)
      rw [Cursor.move, ← hlocation] at hmoved
      exact hmoved

theorem isIn_error (hin : cursor.IsIn text) (hscan : cursor.scan = (.error error, next)) :
    error.location.IsIn text := by
  obtain ⟨fault, _, rfl, _⟩ := scan_eq_error_iff.mp hscan
  rw [LexicalFault.location_error]
  exact hin.skipGap.location

end IsIn

end Cursor

namespace Token

/-- The byte behind the last one of the token. -/
def stop (token : Token) : Nat :=
  token.location.offset + token.size

/-- What the token says, in quotes if it is a terminal. -/
def written (token : Token) : String :=
  match token.kind with
  | .terminal => "\x27" ++ token.text ++ "\x27"
  | _ => token.text

theorem written_eq (token : Token) : token.written = String.ofList token.lexeme.source := by
  obtain ⟨lexeme, location⟩ := token
  cases lexeme with
  | terminal name =>
      rw [Lexeme.source, List.cons_append, String.ofList_cons, String.ofList_append,
        String.ofList_toList, ← String.append_assoc]
      rfl
  | _ => rfl

/-- The token is written in the text where its location says, and the end of the text is placed
where the text ends. -/
structure IsPlacedIn (token : Token) (text : String) : Prop where
  location : token.location.IsIn text
  written : slice? text token.location.offset token.stop = some token.written
  endOfText : token.kind = .endOfText → token.location.offset = text.utf8ByteSize

/-- The first token has ended where the second one begins, and has begun before it unless it is the
end of the text. -/
structure Precedes (first second : Token) : Prop where
  stop_le : first.stop ≤ second.location.offset
  offset_lt : first.kind ≠ .endOfText → first.location.offset < second.location.offset

theorem kind_eq_endOfText_iff {token : Token} :
    token.kind = .endOfText ↔ token.lexeme = .endOfText := by
  obtain ⟨lexeme, location⟩ := token
  cases lexeme <;> simp [kind, Lexeme.kind]

end Token

namespace Cursor

theorem IsIn.isPlacedIn (hin : cursor.IsIn text) (hscan : cursor.scan = (.ok token, next)) :
    token.IsPlacedIn text := by
  obtain ⟨hread, hlocation, _⟩ := scan_eq_ok_iff.mp hscan
  obtain ⟨before, htext, hbefore⟩ := hin.skipGap
  rw [← hlocation] at hbefore
  have hplace := Location.isBehind_past_start before
  rw [← hbefore] at hplace
  refine ⟨⟨before, _, htext, hplace⟩, ?_, fun hend => ?_⟩
  · rw [← Lexeme.read_ok hread, String.ofList_append] at htext
    have hslice := slice?_of_append htext
    rw [← hplace.offset_eq, ← utf8Length_eq, ← token.written_eq] at hslice
    exact hslice
  · rw [Token.kind_eq_endOfText_iff.mp hend] at hread
    rw [Lexeme.eq_nil_of_read_endOfText hread] at htext
    rw [hplace.offset_eq, htext]
    simp

theorem offset_le_of_scan_ok (hscan : cursor.scan = (.ok token, next)) :
    cursor.location.offset ≤ token.location.offset := by
  rw [(scan_eq_ok_iff.mp hscan).2.1]
  exact cursor.offset_le_skipGap

theorem offset_eq_stop_of_scan (hscan : cursor.scan = (.ok token, next)) :
    next.location.offset = token.stop := by
  obtain ⟨_, hlocation, hnext⟩ := scan_eq_ok_iff.mp hscan
  rw [hnext, ← hlocation, Location.offset_past]
  rfl

theorem offset_lt_stop_of_scan (hscan : cursor.scan = (.ok token, next))
    (hend : token.kind ≠ .endOfText) : token.location.offset < token.stop := by
  have hsource := Lexeme.source_ne_nil_of_read (scan_eq_ok_iff.mp hscan).1
    (mt Token.kind_eq_endOfText_iff.mpr hend)
  have hlength := length_le_utf8Length token.lexeme.source
  have hpos := List.length_pos_iff.mpr hsource
  rw [Token.stop, Token.size]
  omega

end Cursor

end TopDown.Definition
