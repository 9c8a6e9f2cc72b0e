import Mathlib.Data.List.Basic
import Mathlib.Logic.Relation

/-!
# Rewriting of sequences

A step replaces one symbol of a sequence by a sequence of symbols, whatever stands around it. The
main statement says that what is derived from two sequences in a row is derived from each of them
on its own.
-/

namespace TopDown.Rewriting

open Relation

variable {σ τ : Type} {replaces : σ → List σ → Prop} {replaces' : τ → List τ → Prop}

inductive Step (replaces : σ → List σ → Prop) : List σ → List σ → Prop
  | replace {symbol : σ} {replacement : List σ} (before after : List σ)
      (hreplaces : replaces symbol replacement) :
      Step replaces (before ++ symbol :: after) (before ++ replacement ++ after)

def Derives (replaces : σ → List σ → Prop) : List σ → List σ → Prop :=
  ReflTransGen (Step replaces)

theorem Step.append_left {form next : List σ} (hstep : Step replaces form next)
    (before : List σ) : Step replaces (before ++ form) (before ++ next) := by
  obtain ⟨inner, after, hreplaces⟩ := hstep
  simpa using Step.replace (before ++ inner) after hreplaces

theorem Step.append_right {form next : List σ} (hstep : Step replaces form next)
    (after : List σ) : Step replaces (form ++ after) (next ++ after) := by
  obtain ⟨before, inner, hreplaces⟩ := hstep
  simpa using Step.replace before (inner ++ after) hreplaces

/-- A symbol in a sequence of two parts stands in one of them. -/
theorem append_cons_cases {left right before after : List σ} {symbol : σ}
    (hsplit : left ++ right = before ++ symbol :: after) :
    (∃ middle, left = before ++ symbol :: middle ∧ after = middle ++ right) ∨
      ∃ middle, before = left ++ middle ∧ right = middle ++ symbol :: after := by
  rcases List.append_eq_append_iff.mp hsplit with
    ⟨middle, hbefore, hright⟩ | ⟨middle, hleft, hafter⟩
  · exact .inr ⟨middle, hbefore, hright⟩
  · rcases List.cons_eq_append_iff.mp hafter with ⟨rfl, hright⟩ | ⟨rest, rfl, hrest⟩
    · exact .inr ⟨[], by simpa using hleft.symm, by simpa using hright⟩
    · exact .inl ⟨rest, hleft, hrest⟩

theorem Step.append_cases {left right next : List σ} (hstep : Step replaces (left ++ right) next) :
    (∃ left', next = left' ++ right ∧ Step replaces left left') ∨
      ∃ right', next = left ++ right' ∧ Step replaces right right' := by
  generalize hform : left ++ right = form at hstep
  obtain @⟨symbol, replacement, before, after, hreplaces⟩ := hstep
  rcases append_cons_cases hform with ⟨middle, rfl, rfl⟩ | ⟨middle, rfl, rfl⟩
  · exact .inl ⟨before ++ replacement ++ middle, by simp, .replace before middle hreplaces⟩
  · exact .inr ⟨middle ++ replacement ++ after, by simp, .replace middle after hreplaces⟩

namespace Derives

theorem refl (form : List σ) : Derives replaces form form :=
  ReflTransGen.refl

theorem trans {first second third : List σ} (hfirst : Derives replaces first second)
    (hsecond : Derives replaces second third) : Derives replaces first third :=
  ReflTransGen.trans hfirst hsecond

theorem tail {first second third : List σ} (hfirst : Derives replaces first second)
    (hstep : Step replaces second third) : Derives replaces first third :=
  ReflTransGen.tail hfirst hstep

theorem carry_back (property : List σ → Prop)
    (hback : ∀ {first second}, Step replaces first second → property second → property first)
    {first second : List σ} (hderives : Derives replaces first second)
    (hsecond : property second) : property first := by
  induction hderives with
  | refl => exact hsecond
  | tail _ hstep ih => exact ih (hback hstep hsecond)

/-- A property that replacements keep holds of all symbols that are derived. -/
theorem forall_mem {property : σ → Prop}
    (hkeeps : ∀ {symbol replacement}, replaces symbol replacement → property symbol →
      ∀ other ∈ replacement, property other)
    {first second : List σ} (hderives : Derives replaces first second)
    (hfirst : ∀ symbol ∈ first, property symbol) : ∀ symbol ∈ second, property symbol := by
  induction hderives with
  | refl => exact hfirst
  | tail _ hstep ih =>
      obtain ⟨before, after, hreplaces⟩ := hstep
      rw [List.forall_mem_append, List.forall_mem_cons] at ih
      rw [List.append_assoc, List.forall_mem_append, List.forall_mem_append]
      exact ⟨ih.1, hkeeps hreplaces ih.2.1, ih.2.2⟩

theorem mono {replaces' : σ → List σ → Prop}
    (hmono : ∀ {symbol replacement}, replaces symbol replacement → replaces' symbol replacement)
    {first second : List σ} (hderives : Derives replaces first second) :
    Derives replaces' first second := by
  induction hderives with
  | refl => exact refl first
  | tail _ hstep ih =>
      obtain ⟨before, after, hreplaces⟩ := hstep
      exact ih.tail (.replace before after (hmono hreplaces))

theorem of_replaces {symbol : σ} {replacement : List σ} (hreplaces : replaces symbol replacement) :
    Derives replaces [symbol] replacement := by
  refine ReflTransGen.single ?_
  simpa using Step.replace [] [] hreplaces

theorem append_left {form next : List σ} (hderives : Derives replaces form next)
    (before : List σ) : Derives replaces (before ++ form) (before ++ next) := by
  induction hderives with
  | refl => exact refl _
  | tail _ hstep ih => exact ih.tail (hstep.append_left before)

theorem append_right {form next : List σ} (hderives : Derives replaces form next)
    (after : List σ) : Derives replaces (form ++ after) (next ++ after) := by
  induction hderives with
  | refl => exact refl _
  | tail _ hstep ih => exact ih.tail (hstep.append_right after)

theorem append {left left' right right' : List σ} (hleft : Derives replaces left left')
    (hright : Derives replaces right right') :
    Derives replaces (left ++ right) (left' ++ right') :=
  (hleft.append_right right).trans (hright.append_left left')

theorem cons {symbol : σ} {form rest rest' : List σ} (hsymbol : Derives replaces [symbol] form)
    (hrest : Derives replaces rest rest') : Derives replaces (symbol :: rest) (form ++ rest') :=
  hsymbol.append hrest

/-- What is derived from two sequences in a row comes in two parts, one from each. -/
theorem append_split {left right next : List σ} (hderives : Derives replaces (left ++ right) next) :
    ∃ left' right', next = left' ++ right' ∧ Derives replaces left left' ∧
      Derives replaces right right' := by
  induction hderives with
  | refl => exact ⟨left, right, rfl, refl left, refl right⟩
  | tail _ hstep ih =>
      obtain ⟨left', right', rfl, hleft, hright⟩ := ih
      rcases hstep.append_cases with ⟨left'', rfl, hstep'⟩ | ⟨right'', rfl, hstep'⟩
      · exact ⟨left'', right', rfl, hleft.tail hstep', hright⟩
      · exact ⟨left', right'', rfl, hleft, hright.tail hstep'⟩

end Derives

theorem Derives.map {rename : σ → τ}
    (hrename : ∀ {symbol replacement}, replaces symbol replacement →
      replaces' (rename symbol) (replacement.map rename))
    {form next : List σ} (hderives : Derives replaces form next) :
    Derives replaces' (form.map rename) (next.map rename) := by
  induction hderives with
  | refl => exact refl _
  | tail _ hstep ih =>
      refine ih.tail ?_
      obtain ⟨before, after, hreplaces⟩ := hstep
      simpa using Step.replace (before.map rename) (after.map rename) (hrename hreplaces)

/-- A derivation of renamed sequences is a renamed derivation when every replacement of a renamed
symbol is renamed. -/
theorem Derives.of_map {rename : σ → τ} {within : σ → Prop}
    (hlift : ∀ {symbol replacement}, within symbol → replaces' (rename symbol) replacement →
      ∃ origin, replacement = origin.map rename ∧ replaces symbol origin ∧
        ∀ symbol ∈ origin, within symbol)
    {form : List σ} {next : List τ} (hwithin : ∀ symbol ∈ form, within symbol)
    (hderives : Derives replaces' (form.map rename) next) :
    ∃ origin, next = origin.map rename ∧ Derives replaces form origin ∧
      ∀ symbol ∈ origin, within symbol := by
  induction hderives with
  | refl => exact ⟨form, rfl, refl form, hwithin⟩
  | tail _ hstep ih =>
      obtain ⟨current, hcurrent, hderived, hinside⟩ := ih
      subst hcurrent
      generalize hform : current.map rename = renamed at hstep
      obtain ⟨before, after, hreplaces⟩ := hstep
      obtain ⟨left, rest, rfl, rfl, hrest⟩ := List.map_eq_append_iff.mp hform
      obtain ⟨symbol, right, rfl, rfl, rfl⟩ := List.map_eq_cons_iff.mp hrest
      obtain ⟨origin, rfl, horigin, horiginWithin⟩ := hlift (hinside symbol (by simp)) hreplaces
      refine ⟨left ++ origin ++ right, by simp, ?_, ?_⟩
      · exact hderived.tail (.replace left right horigin)
      · intro other hother
        rw [List.mem_append, List.mem_append] at hother
        rcases hother with (hleft | horigin) | hright
        · exact hinside other (by simp [hleft])
        · exact horiginWithin other horigin
        · exact hinside other (by simp [hright])

end TopDown.Rewriting
