import TopDown.Proofs.Soundness

/-!
# Only kinds matter

What is read and where reading stops depends on the kinds of the tokens up to the current one, and
neither on the tokens themselves nor on those behind it.
-/

namespace TopDown

variable {τ τ' : Type} [InputToken τ] [InputToken τ']

theorem Input.Passes.kind_peek_eq {input rest : Input τ} {input' rest' : Input τ'} {tokens : List τ}
    {tokens' : List τ'} (hpasses : input.Passes tokens rest)
    (hpasses' : input'.Passes tokens' rest')
    (hkinds : tokens'.map InputToken.kind = tokens.map InputToken.kind)
    (hpeek : InputToken.kind rest'.peek = InputToken.kind rest.peek) :
    InputToken.kind input'.peek = InputToken.kind input.peek := by
  rw [hpasses.kind_peek, hpasses'.kind_peek, hkinds, hpeek]

namespace Analysis.Describes

variable {grammar : Grammar} {analysis : Analysis} (hdescribes : analysis.Describes grammar)
  {symbols : List NumberedSymbol} {input rest : Input τ} {input' rest' : Input τ'}
  {trees : List (Tree τ)} {tokens : List τ} {tokens' : List τ'} {expected : List Lookahead}
  {expanded : List Nat}

include hdescribes

theorem reads_of_kinds (huses : ∀ symbol ∈ symbols, analysis.numbering.Uses symbol)
    (hlast : InputToken.kind input.last = .endOfInput)
    (hreads : analysis.Reads symbols input trees rest expanded)
    (hpasses' : input'.Passes tokens' rest')
    (hkinds : tokens'.map InputToken.kind = (Tree.tokensOfAll trees).map InputToken.kind)
    (hpeek : InputToken.kind rest'.peek = InputToken.kind rest.peek) :
    ∃ trees', analysis.Reads symbols input' trees' rest' expanded := by
  induction hreads generalizing input' rest' tokens' with
  | nil =>
      rw [Tree.tokensOfAll, List.map_nil, List.map_eq_nil_iff] at hkinds
      rw [hkinds] at hpasses'
      have hrest := hpasses'.eq_of_nil
      subst hrest
      exact ⟨[], .nil⟩
  | @token id symbols input rest trees expanded hkind hlater ih =>
      have hpasses := (hdescribes.sound huses hlast (.token hkind hlater)).1
      have hsame := hpasses.kind_peek_eq hpasses' hkinds hpeek
      rw [List.forall_mem_cons] at huses
      rw [Tree.tokensOfAll, Tree.tokens] at hkinds hpasses
      obtain ⟨token, back, rfl, _, hback⟩ := List.map_eq_cons_iff.mp hkinds
      have hnext := hpasses.next.2
      rw [← hpasses.last_eq, hnext.last_eq] at hlast
      obtain ⟨trees', hreads⟩ := ih huses.2 hlast hpasses'.next.2 hback hpeek
      exact ⟨_, .token (hsame.trans hkind) hreads⟩
  | @expand nonterminal index symbols input middle rest children trees inner expanded hselect
      hchildren hlater ihchildren ih =>
      have hpasses := (hdescribes.sound huses hlast (.expand hselect hchildren hlater)).1
      have hsame := hpasses.kind_peek_eq hpasses' hkinds hpeek
      rw [List.forall_mem_cons] at huses
      rw [Tree.tokensOfAll, Tree.tokens, List.map_append] at hkinds
      obtain ⟨front, back, rfl, hfront, hback⟩ := List.map_eq_append_iff.mp hkinds
      obtain ⟨middle', hleft, hright⟩ := hpasses'.append_split
      have hused := hdescribes.uses_of_select hselect
      have hinner := (hdescribes.sound hused hlast hchildren).1
      have hlast' := hlast
      rw [← hinner.last_eq] at hlast'
      have houter := (hdescribes.sound huses.2 hlast' hlater).1
      have hmiddle := houter.kind_peek_eq hright hback hpeek
      obtain ⟨children', hreads⟩ := ihchildren hused hlast hleft hfront hmiddle
      obtain ⟨trees', hreads'⟩ := ih huses.2 hlast' hright hback hpeek
      rw [← hsame] at hselect
      exact ⟨_, .expand hselect hreads hreads'⟩

theorem stops_of_kinds (huses : ∀ symbol ∈ symbols, analysis.numbering.Uses symbol)
    (hlast : InputToken.kind input.last = .endOfInput)
    (hstops : analysis.Stops symbols input expected rest expanded)
    (hpasses : input.Passes tokens rest) (hpasses' : input'.Passes tokens' rest')
    (hkinds : tokens'.map InputToken.kind = tokens.map InputToken.kind)
    (hpeek : InputToken.kind rest'.peek = InputToken.kind rest.peek) :
    analysis.Stops symbols input' expected rest' expanded := by
  induction hstops generalizing input' tokens tokens' with
  | @refuse symbol symbols input expected hrefuses =>
      rw [hpasses.tokens_eq (.nil input), List.map_nil, List.map_eq_nil_iff] at hkinds
      rw [hkinds] at hpasses'
      have hrest := hpasses'.eq_of_nil
      subst hrest
      rw [← hpeek] at hrefuses
      exact .refuse hrefuses
  | @inside nonterminal index symbols input rest expected inner hselect _ ih =>
      have hsame := hpasses.kind_peek_eq hpasses' hkinds hpeek
      have hused := hdescribes.uses_of_select hselect
      rw [← hsame] at hselect
      exact .inside hselect (ih hused hlast hpasses hpasses' hkinds hpeek)
  | @behind symbol symbols input middle rest trees expected inner expanded hreads hstops ih =>
      rw [List.forall_mem_cons] at huses
      have hused := List.forall_mem_singleton.mpr huses.1
      have hinner := (hdescribes.sound hused hlast hreads).1
      have hlast' := hlast
      rw [← hinner.last_eq] at hlast'
      obtain ⟨_, _, _, _, houter, _⟩ := hdescribes.stuck huses.2 hlast' hstops
      rw [hpasses.tokens_eq (hinner.append houter), List.map_append] at hkinds
      obtain ⟨front, back, rfl, hfront, hback⟩ := List.map_eq_append_iff.mp hkinds
      obtain ⟨middle', hleft, hright⟩ := hpasses'.append_split
      have hmiddle := houter.kind_peek_eq hright hback hpeek
      obtain ⟨trees', hreads'⟩ := hdescribes.reads_of_kinds hused hlast hreads hleft hfront hmiddle
      exact .behind hreads' (ih huses.2 hlast' houter hright hback hpeek)

end Analysis.Describes

end TopDown
