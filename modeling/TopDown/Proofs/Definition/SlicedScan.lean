import TopDown.Proofs.Definition.Places

/-!
# Scanning by slices

A scan that knows its location alone, and cuts whatever it looks at out of the text. It has no
result if a slice does not begin and end at places of the text, or if a round of a loop does not get
on in the text. The main statement says that at every place it has a result, the one of a cursor
there, and that the bytes it has moved over make up the size of the token.
-/

namespace TopDown.Definition

namespace SlicedScan

/-- The character at a location, unless the text ends there. -/
def current? (text : String) (location : Location) : Option (Option Char) :=
  (sliceFrom? text location.offset).map fun rest => rest.toList.head?

/-- Moves over a mark, if it stands at the location. -/
def passMark? (text : String) (mark : List Char) (location : Location) :
    Option (Option Location) :=
  (sliceFrom? text location.offset).map fun rest =>
    if mark <+: rest.toList then some (location.past mark) else none

/-- One round brings the loop to another location, and says whether there is another round. -/
abbrev Round := Location → Option (Bool × Location)

/-- Goes round from a location on. There is no result if a round that is not the last does not get
on in the text. -/
def loop? (text : String) (round : Round) (location : Location) : Option Location :=
  match round location with
  | none => none
  | some (false, next) => some next
  | some (true, next) =>
      if location.offset < next.offset ∧ next.offset ≤ text.utf8ByteSize then loop? text round next
      else none
termination_by text.utf8ByteSize - location.offset

/-- Moves over the characters that are inside, up to the first one that is not. -/
def passWhile? (text : String) (inside : Char → Bool) : Location → Option Location :=
  loop? text fun location => do
    match ← current? text location with
    | none => return (false, location)
    | some char =>
        if inside char then return (true, location.advance char)
        else return (false, location)

/-- What is moved over by that, cut out of the text, and the location behind it. -/
def cutWhile? (text : String) (inside : Char → Bool) (location : Location) :
    Option (String × Location) := do
  let stop ← passWhile? text inside location
  let cut ← slice? text location.offset stop.offset
  return (cut, stop)

/-- Moves to the end of a block comment that has begun. -/
def passBlockComment? (text : String) : Location → Option Location :=
  loop? text fun location => do
    match ← passMark? text blockEnd location with
    | some behind => return (false, behind)
    | none =>
        match ← current? text location with
        | none => return (false, location)
        | some char => return (true, location.advance char)

/-- Moves over a comment, if one begins at the location. -/
def passComment? (text : String) : Round := fun location => do
  match ← passMark? text ['~', '#'] location with
  | some inside =>
      let behind ← passBlockComment? text inside
      return (true, behind)
  | none =>
      match ← passMark? text ['#'] location with
      | some inside =>
          let comment ← cutWhile? text (· ≠ '\n') inside
          return (true, comment.2)
      | none => return (false, location)

/-- Moves over white space and a comment behind it. -/
def passGapPart? (text : String) : Round := fun location => do
  let blank ← cutWhile? text Unicode.isWhiteSpace location
  passComment? text blank.2

def passGap? (text : String) : Location → Option Location :=
  loop? text (passGapPart? text)

/-- A token, and the number of bytes between its start and its end. -/
def measured (lexeme : Lexeme) (start stop : Location) : Token × Nat :=
  ({ lexeme := lexeme, location := start }, stop.offset - start.offset)

/-- Reads a terminal that begins with a quote. -/
def readTerminal? (text : String) (start : Location) :
    Option (Except Error (Token × Nat) × Location) := do
  let (name, stop) ← cutWhile? text isQuotable (start.advance quoteMark)
  if (← current? text stop) = some quoteMark then
    let behind := stop.advance quoteMark
    return (.ok (measured (.terminal name) start behind), behind)
  else return (.error (.unclosedTerminal start), stop)

/-- Reads the token at a location. -/
def read? (text : String) (start : Location) :
    Option (Except Error (Token × Nat) × Location) := do
  match ← current? text start with
  | none => return (.ok (measured .endOfText start start), start)
  | some char =>
      if isNameChar char then
        let (name, stop) ← cutWhile? text isNameChar start
        return (.ok (measured (.nonterminal name) start stop), stop)
      else if char = quoteMark then readTerminal? text start
      else
        match Lexeme.ofMark? char with
        | some lexeme =>
            let stop := start.advance char
            return (.ok (measured lexeme start stop), stop)
        | none => return (.error (.invalidCharacter char start), start)

/-- Reads the token that comes after the gap at a location. -/
def scan? (text : String) (location : Location) :
    Option (Except Error (Token × Nat) × Location) := do
  let start ← passGap? text location
  read? text start

variable {text : String} {location : Location} {ahead : List Char}

/-! ### Slices and cursors

At a place of the text a slice is a part of what is ahead of a cursor there. Each operation on
slices has a result there, and moves over the characters that the cursor moves over. -/

section Steps

variable {char : Char} {mark middle rest : List Char} {inside : Char → Bool} {round : Round}
  {next : Location}

theorem sliceFrom?_eq (hin : (Cursor.mk location ahead).IsIn text) :
    sliceFrom? text location.offset = some (String.ofList ahead) := by
  obtain ⟨before, htext, hlocation⟩ := hin
  have hplace := Location.isBehind_past_start before
  rw [← hlocation] at hplace
  rw [← sliceFrom?_of_append htext, ← hplace.offset_eq]

theorem slice?_eq (hin : (Cursor.mk location (middle ++ rest)).IsIn text) :
    slice? text location.offset (location.past middle).offset = some (String.ofList middle) := by
  obtain ⟨before, htext, hlocation⟩ := hin
  have hplace := Location.isBehind_past_start before
  rw [← hlocation] at hplace
  rw [String.ofList_append] at htext
  rw [← slice?_of_append htext, Location.offset_past, utf8Length_eq, ← hplace.offset_eq]

theorem current?_eq (hin : (Cursor.mk location ahead).IsIn text) :
    current? text location = some ahead.head? := by
  rw [current?, sliceFrom?_eq hin, Option.map_some, String.toList_ofList]

theorem passMark?_eq (hin : (Cursor.mk location ahead).IsIn text) :
    passMark? text mark location =
      some (if mark <+: ahead then some (location.past mark) else none) := by
  rw [passMark?, sliceFrom?_eq hin, Option.map_some, String.toList_ofList]

theorem loop?_of_last (hround : round location = some (false, next)) :
    loop? text round location = some next := by
  rw [loop?, hround]

/-- A round that moves over some characters of the text gets on. -/
theorem loop?_of_round (hin : (Cursor.mk location (middle ++ rest)).IsIn text)
    (hround : round location = some (true, location.past middle)) (hmiddle : middle ≠ []) :
    loop? text round location = loop? text round (location.past middle) := by
  have hlength := length_le_utf8Length middle
  have hpos := List.length_pos_iff.mpr hmiddle
  have hoffset := location.offset_past middle
  have hprogress : location.offset < (location.past middle).offset ∧
      (location.past middle).offset ≤ text.utf8ByteSize :=
    ⟨by omega, (hin.move rfl).offset_le⟩
  rw [loop?, hround]
  dsimp only
  rw [if_pos hprogress]

theorem passWhile?_eq (hin : (Cursor.mk location ahead).IsIn text) :
    passWhile? text inside location = some (location.past (ahead.takeWhile inside)) := by
  induction ahead generalizing location with
  | nil => exact loop?_of_last (by rw [current?_eq hin]; rfl)
  | cons char rest ih =>
      rw [List.takeWhile_cons]
      by_cases hinside : inside char
      · have hchar : (Cursor.mk location ([char] ++ rest)).IsIn text := hin
        have hstep : passWhile? text inside location =
            passWhile? text inside (location.advance char) := by
          refine loop?_of_round hchar ?_ (List.cons_ne_nil char [])
          rw [current?_eq hin]
          exact if_pos hinside
        rw [if_pos hinside, hstep, Location.past_cons]
        exact ih (hin.move List.singleton_append)
      · rw [if_neg hinside]
        refine loop?_of_last ?_
        rw [current?_eq hin]
        exact if_neg hinside

theorem cutWhile?_eq (hin : (Cursor.mk location ahead).IsIn text) :
    cutWhile? text inside location =
      some (String.ofList (ahead.takeWhile inside), location.past (ahead.takeWhile inside)) := by
  have hpassed : passWhile? text inside location = _ := passWhile?_eq hin
  rw [← List.takeWhile_append_dropWhile (p := inside) (l := ahead)] at hin
  rw [cutWhile?, hpassed, Option.bind_eq_bind, Option.bind_some, slice?_eq hin]
  rfl

/-- A block comment ends somewhere in the text, and behind it the gap goes on. -/
theorem passBlockComment?_eq (hin : (Cursor.mk location ahead).IsIn text) :
    ∃ comment rest, comment ++ rest = ahead ∧
      splitGap .blockComment ahead = extendGap comment (splitGap .blank rest) ∧
      passBlockComment? text location = some (location.past comment) := by
  induction ahead generalizing location with
  | nil =>
      refine ⟨[], [], rfl, rfl, loop?_of_last ?_⟩
      rw [passMark?_eq hin, current?_eq hin]
      rfl
  | cons char rest ih =>
      by_cases hclosed : blockEnd <+: char :: rest
      · obtain ⟨behind, hbehind⟩ := hclosed
        rw [← hbehind] at hin ⊢
        refine ⟨blockEnd, behind, rfl, rfl, loop?_of_last ?_⟩
        rw [passMark?_eq hin, if_pos (List.prefix_append _ _)]
        rfl
      · have hopen : ∀ behind, char = '#' → rest = '~' :: behind → False := by
          rintro behind rfl rfl
          exact hclosed (List.prefix_append blockEnd behind)
        have hchar : (Cursor.mk location ([char] ++ rest)).IsIn text := hin
        have hstep : passBlockComment? text location =
            passBlockComment? text (location.advance char) := by
          refine loop?_of_round hchar ?_ (List.cons_ne_nil char [])
          rw [passMark?_eq hin, if_neg hclosed, current?_eq hin]
          rfl
        obtain ⟨comment, behind, happend, hsplit, hpassed⟩ :=
          ih (hin.move List.singleton_append)
        refine ⟨char :: comment, behind, by rw [List.cons_append, happend], ?_, hstep.trans hpassed⟩
        rw [splitGap.eq_8 _ _ hopen, hsplit, extendGap_extendGap]
        rfl

/-- Either a comment is moved over, or none begins at the location. -/
theorem passComment?_eq (hin : (Cursor.mk location ahead).IsIn text) :
    (∃ comment rest, comment ++ rest = ahead ∧ comment ≠ [] ∧
        splitGap .blank ahead = extendGap comment (splitGap .blank rest) ∧
        passComment? text location = some (true, location.past comment)) ∨
      ¬['~', '#'] <+: ahead ∧ ¬['#'] <+: ahead ∧
        passComment? text location = some (false, location) := by
  rw [passComment?, passMark?_eq hin, passMark?_eq hin]
  by_cases hblock : ['~', '#'] <+: ahead
  · obtain ⟨inner, rfl⟩ := hblock
    obtain ⟨comment, rest, rfl, hsplit, hpassed⟩ := passBlockComment?_eq (hin.move rfl)
    refine .inl ⟨['~', '#'] ++ comment, rest, rfl, List.cons_ne_nil _ _, ?_, ?_⟩
    · change extendGap ['~', '#'] (splitGap .blockComment (comment ++ rest)) = _
      rw [hsplit, extendGap_extendGap]
    · rw [if_pos (List.prefix_append _ _), Location.past_append]
      exact congrArg (Option.bind · fun behind => some (true, behind)) hpassed
  by_cases hline : ['#'] <+: ahead
  · obtain ⟨inner, rfl⟩ := hline
    have hcomment : cutWhile? text (· ≠ '\n') (location.past ['#']) = _ :=
      cutWhile?_eq (hin.move rfl)
    refine .inl ⟨['#'] ++ inner.takeWhile (· ≠ '\n'), inner.dropWhile (· ≠ '\n'), ?_,
      List.cons_ne_nil _ _, ?_, ?_⟩
    · rw [List.append_assoc, List.takeWhile_append_dropWhile]
    · change extendGap ['#'] (splitGap .lineComment inner) = _
      rw [splitGap_eq_extend_lineComment, extendGap_extendGap]
    · rw [if_neg hblock, if_pos (List.prefix_append _ _), Location.past_append]
      exact congrArg (Option.bind · fun comment => some (true, comment.2)) hcomment
  · rw [if_neg hblock, if_neg hline]
    exact .inr ⟨hblock, hline, rfl⟩

/-- A round moves over a part of the gap. It is the last one if nothing of the gap is left. -/
theorem passGapPart?_eq (hin : (Cursor.mk location ahead).IsIn text) :
    ∃ passed rest, passed ++ rest = ahead ∧
      (passGapPart? text location = some (false, location.past passed) ∧
          splitGap .blank ahead = (passed, rest) ∨
        passGapPart? text location = some (true, location.past passed) ∧ passed ≠ [] ∧
          splitGap .blank ahead = extendGap passed (splitGap .blank rest)) := by
  have hcut : cutWhile? text Unicode.isWhiteSpace location = _ := cutWhile?_eq hin
  have happend := List.takeWhile_append_dropWhile (p := Unicode.isWhiteSpace) (l := ahead)
  rw [splitGap_eq_extend_blank, passGapPart?, hcut, Option.bind_eq_bind, Option.bind_some]
  rcases passComment?_eq (hin.move happend) with
    ⟨comment, rest, hrest, hcomment, hsplit, hpassed⟩ | ⟨hblock, hline, hpassed⟩
  · refine ⟨ahead.takeWhile Unicode.isWhiteSpace ++ comment, rest, ?_, .inr ⟨?_, ?_, ?_⟩⟩
    · rw [List.append_assoc, hrest, happend]
    · rw [Location.past_append]
      exact hpassed
    · exact List.append_ne_nil_of_right_ne_nil _ hcomment
    · rw [hsplit, extendGap_extendGap]
  · refine ⟨_, _, happend, .inl ⟨hpassed, ?_⟩⟩
    rw [splitGap_dropWhile ahead hblock hline, extendGap, List.append_nil]

theorem passGap?_eq_past {location : Location} {ahead : List Char}
    (hin : (Cursor.mk location ahead).IsIn text) :
    passGap? text location = some (location.past (splitGap .blank ahead).1) := by
  obtain ⟨passed, rest, happend, ⟨hlast, hsplit⟩ | ⟨hround, hpassed, hsplit⟩⟩ :=
    passGapPart?_eq hin
  · rw [hsplit]
    exact loop?_of_last hlast
  · have hshorter : rest.length < ahead.length := by
      have hlength := List.length_pos_iff.mpr hpassed
      rw [← happend, List.length_append]
      omega
    have hrest := passGap?_eq_past (hin.move happend)
    rw [← happend] at hin
    have hstep : passGap? text location = passGap? text (location.past passed) :=
      loop?_of_round hin hround hpassed
    rw [hstep, hsplit, extendGap, Location.past_append]
    exact hrest
termination_by ahead.length

theorem passGap?_eq {cursor : Cursor} (hin : cursor.IsIn text) :
    passGap? text cursor.location = some cursor.skipGap.location :=
  passGap?_eq_past hin

end Steps

/-- What is reported of a lexeme or a fault that is read at a location, and the location behind what
was read. -/
def report (start : Location) :
    Except LexicalFault Lexeme → Except Error (Token × Nat) × Location
  | .ok lexeme =>
      (.ok ({ lexeme := lexeme, location := start }, utf8Length lexeme.source),
        start.past lexeme.source)
  | .error fault => (.error (fault.error start), start.past fault.passed)

theorem measured_past (lexeme : Lexeme) (start : Location) (source : List Char) :
    measured lexeme start (start.past source) =
      ({ lexeme := lexeme, location := start }, utf8Length source) := by
  rw [measured, Location.offset_past, Nat.add_sub_cancel_left]

theorem readTerminal?_eq {start : Location} {rest : List Char}
    (hin : (Cursor.mk start (quoteMark :: rest)).IsIn text) :
    readTerminal? text start = some (report start (Lexeme.readTerminal rest).1) := by
  have hinner : (Cursor.mk (start.advance quoteMark) rest).IsIn text :=
    hin.move List.singleton_append
  have hsplit := List.takeWhile_append_dropWhile (p := isQuotable) (l := rest)
  have hcurrent := current?_eq (hinner.move hsplit)
  rw [readTerminal?, cutWhile?_eq hinner]
  simp only [Option.bind_eq_bind, Option.bind_some, hcurrent]
  by_cases hquote : (rest.dropWhile isQuotable).head? = some quoteMark
  · have hsource : ((start.advance quoteMark).past (rest.takeWhile isQuotable)).advance quoteMark =
        start.past (Lexeme.terminal (String.ofList (rest.takeWhile isQuotable))).source := by
      simp [Lexeme.source]
    rw [Lexeme.readTerminal_of_quote hquote, if_pos hquote, hsource, measured_past]
    rfl
  · rw [Lexeme.readTerminal_of_no_quote hquote, if_neg hquote]
    rfl

theorem read?_eq {cursor : Cursor} (hin : cursor.IsIn text) :
    read? text cursor.location = some (report cursor.location (Lexeme.read cursor.ahead).1) := by
  obtain ⟨start, ahead⟩ := cursor
  rw [read?, current?_eq hin]
  cases ahead with
  | nil =>
      have hmeasured := measured_past .endOfText start []
      rw [Location.past_nil] at hmeasured
      rw [Lexeme.read, report, hmeasured]
      rfl
  | cons char rest =>
      simp only [List.head?_cons, Option.bind_eq_bind, Option.bind_some, Lexeme.read]
      by_cases hname : isNameChar char = true
      · rw [if_pos hname, if_pos hname, cutWhile?_eq hin, Option.bind_some, measured_past, report,
          Lexeme.source, String.toList_ofList]
        rfl
      · rw [if_neg hname, if_neg hname]
        by_cases hquote : char = quoteMark
        · rw [if_pos hquote, if_pos hquote]
          subst hquote
          exact readTerminal?_eq hin
        · rw [if_neg hquote, if_neg hquote]
          cases hmark : Lexeme.ofMark? char with
          | none => rfl
          | some lexeme =>
              have hsource := Lexeme.source_of_ofMark? hmark
              have hmeasured := measured_past lexeme start [char]
              rw [Location.past_cons, Location.past_nil] at hmeasured
              simp only [hmeasured, report, hsource]
              rfl

/-- A scan by slices has a result at every place of the text, the same as a scan of what lies ahead
there. -/
theorem scan?_eq {cursor : Cursor} (hin : cursor.IsIn text) :
    scan? text cursor.location =
      some (cursor.scan.1.map fun token => (token, token.size), cursor.scan.2.location) := by
  rw [scan?, passGap?_eq hin, Option.bind_eq_bind, Option.bind_some, read?_eq hin.skipGap,
    Cursor.scan]
  split
  · rename_i hread
    rw [hread]
    rfl
  · rename_i hread
    rw [hread]
    rfl
  · rename_i hread
    rw [hread]
    rfl

end SlicedScan

end TopDown.Definition
