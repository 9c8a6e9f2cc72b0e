import TopDown.Definition.Lexeme
import TopDown.Proofs.Definition.Characters

/-!
# What lexemes are read from

A name is read as far as it goes, a terminal up to its closing quote. The main statement says which
lexeme is read from a text, and that it is read from no other text.
-/

namespace TopDown.Definition

/-- A name has one or more characters, all of them characters of names. -/
def IsName (name : String) : Prop :=
  name.toList ≠ [] ∧ ∀ char ∈ name.toList, isNameChar char = true

/-- A terminal is quoted on one line. -/
def IsQuotable (name : String) : Prop :=
  quoteMark ∉ name.toList ∧ '\n' ∉ name.toList

/-- The text begins with a character of names. -/
def beginsName (text : List Char) : Bool :=
  text.head?.any isNameChar

theorem isQuotable_iff {name : String} :
    IsQuotable name ↔ ∀ char ∈ name.toList, isQuotable char = true := by
  simp only [IsQuotable, isQuotable, Bool.and_eq_true, decide_eq_true_eq]
  constructor
  · rintro ⟨hquote, hbreak⟩ char hchar
    exact ⟨fun heq => hquote (heq ▸ hchar), fun heq => hbreak (heq ▸ hchar)⟩
  · intro hall
    exact ⟨fun hquote => (hall _ hquote).1 rfl, fun hbreak => (hall _ hbreak).2 rfl⟩

namespace Lexeme

/-- The lexeme has a source that it can be read from. -/
def WellFormed : Lexeme → Prop
  | .nonterminal name => IsName name
  | .terminal name => IsQuotable name
  | .endOfText => False
  | _ => True

variable {lexeme : Lexeme} {text rest : List Char} {char : Char}

section Spans

variable {inside : Char → Bool} {name : List Char}

theorem takeWhile_span (hname : ∀ char ∈ name, inside char = true)
    (hrest : rest.head?.any inside = false) : (name ++ rest).takeWhile inside = name := by
  rw [List.takeWhile_append_of_pos hname]
  cases rest with
  | nil => simp
  | cons char rest =>
      have hchar : inside char = false := hrest
      simp [hchar]

theorem dropWhile_span (hname : ∀ char ∈ name, inside char = true)
    (hrest : rest.head?.any inside = false) : (name ++ rest).dropWhile inside = rest := by
  rw [List.dropWhile_append_of_pos hname]
  cases rest with
  | nil => rfl
  | cons char rest =>
      have hchar : inside char = false := hrest
      simp [hchar]

end Spans

theorem read_nonterminal {name : String} (hname : IsName name) (hrest : beginsName rest = false) :
    read (name.toList ++ rest) = (.ok (.nonterminal name), rest) := by
  obtain ⟨hne, hall⟩ := hname
  obtain ⟨char, tail, hcons⟩ := List.exists_cons_of_ne_nil hne
  have hchar : isNameChar char = true := hall char (by simp [hcons])
  have htake := takeWhile_span hall hrest
  have hdrop := dropWhile_span hall hrest
  rw [hcons, List.cons_append] at htake hdrop ⊢
  rw [read, if_pos hchar, htake, hdrop, ← hcons, String.ofList_toList]

theorem read_terminal {name : String} (hname : IsQuotable name) :
    read (quoteMark :: name.toList ++ quoteMark :: rest) = (.ok (.terminal name), rest) := by
  have hquote : isNameChar quoteMark = false :=
    isNameChar_eq_false_of_mem_marks quoteMark (by decide)
  have hall := isQuotable_iff.mp hname
  have hend : (quoteMark :: rest).head?.any isQuotable = false := rfl
  rw [List.cons_append, read, if_neg (by simp [hquote]), if_pos rfl, readTerminal,
    dropWhile_span hall hend, takeWhile_span hall hend, String.ofList_toList]
  rfl

theorem read_mark (hmark : ofMark? char = some lexeme) :
    read (char :: rest) = (.ok lexeme, rest) := by
  have hchar : char ∈ marks ∧ char ≠ quoteMark := by
    unfold ofMark? at hmark
    grind [marks]
  have hname := isNameChar_eq_false_of_mem_marks char hchar.1
  rw [read, if_neg (by simp [hname]), if_neg hchar.2, hmark]

/-- A lexeme is read from its source, when no name goes on behind it. -/
theorem read_source_append (hlexeme : lexeme.WellFormed)
    (hrest : lexeme.kind = .nonterminal → beginsName rest = false) :
    read (lexeme.source ++ rest) = (.ok lexeme, rest) := by
  cases lexeme with
  | nonterminal name => exact read_nonterminal hlexeme (hrest rfl)
  | terminal name =>
      rw [source, List.append_assoc]
      exact read_terminal hlexeme
  | colon => exact read_mark rfl
  | semicolon => exact read_mark rfl
  | pipe => exact read_mark rfl
  | empty => exact read_mark rfl
  | endOfText => exact hlexeme.elim

theorem readTerminal_of_quote (hend : (text.dropWhile isQuotable).head? = some quoteMark) :
    readTerminal text =
      (.ok (.terminal (String.ofList (text.takeWhile isQuotable))),
        (text.dropWhile isQuotable).tail) := by
  obtain ⟨others, hrest⟩ := List.head?_eq_some_iff.mp hend
  rw [readTerminal, hrest]
  rfl

theorem readTerminal_of_no_quote (hend : (text.dropWhile isQuotable).head? ≠ some quoteMark) :
    readTerminal text =
      (.error (.unclosedTerminal (text.takeWhile isQuotable)), text.dropWhile isQuotable) := by
  unfold readTerminal
  split
  · rename_i hrest
    rw [hrest] at hend
    exact absurd rfl hend
  · rfl

theorem isName_takeWhile (hchar : isNameChar char = true) :
    IsName (String.ofList ((char :: text).takeWhile isNameChar)) := by
  rw [IsName, String.toList_ofList]
  exact ⟨by simp [hchar], List.all_eq_true.mp List.all_takeWhile⟩

theorem beginsName_dropWhile (text : List Char) :
    beginsName (text.dropWhile isNameChar) = false := by
  have hstop := List.head?_dropWhile_not isNameChar text
  unfold beginsName
  cases hhead : (text.dropWhile isNameChar).head? with
  | none => rfl
  | some char =>
      rw [hhead] at hstop
      exact hstop

theorem isQuotable_takeWhile (text : List Char) :
    IsQuotable (String.ofList (text.takeWhile isQuotable)) := by
  rw [isQuotable_iff, String.toList_ofList]
  exact List.all_eq_true.mp List.all_takeWhile

theorem wellFormed_of_ofMark? (hmark : ofMark? char = some lexeme) :
    lexeme.WellFormed ∧ lexeme.kind ≠ .nonterminal := by
  unfold ofMark? at hmark
  grind [WellFormed, kind]

/-- Only well-formed lexemes are read, and a name is read as far as it goes. -/
theorem wellFormed_of_read (hread : read text = (.ok lexeme, rest))
    (hend : lexeme ≠ .endOfText) :
    lexeme.WellFormed ∧ (lexeme.kind = .nonterminal → beginsName rest = false) := by
  cases text with
  | nil =>
      cases hread
      exact absurd rfl hend
  | cons char tail =>
      rw [read] at hread
      split at hread
      · rename_i hname
        cases hread
        exact ⟨isName_takeWhile hname, fun _ => beginsName_dropWhile _⟩
      · split at hread
        · unfold readTerminal at hread
          split at hread
          · cases hread
            exact ⟨isQuotable_takeWhile tail, fun hkind => absurd hkind (by simp [kind])⟩
          · cases hread
        · split at hread
          · rename_i hmark
            cases hread
            obtain ⟨hlexeme, hkind⟩ := wellFormed_of_ofMark? hmark
            exact ⟨hlexeme, fun hname => absurd hname hkind⟩
          · cases hread

theorem eq_nil_of_read_endOfText (hread : read text = (.ok .endOfText, rest)) : text = [] := by
  cases text with
  | nil => rfl
  | cons char tail =>
      rw [read] at hread
      split at hread
      · cases hread
      · split at hread
        · unfold readTerminal at hread
          split at hread <;> cases hread
        · split at hread
          · rename_i hmark
            cases hread
            exact (wellFormed_of_ofMark? hmark).1.elim
          · cases hread

end Lexeme

end TopDown.Definition
