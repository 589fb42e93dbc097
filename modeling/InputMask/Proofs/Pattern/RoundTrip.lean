import InputMask.Proofs.Pattern.Canonical

/-!
# Canonical patterns are read back

Reading undoes writing: the text of a canonical tree is read as that tree, at every limit that
its groups allow for. Inside a line each piece is read by itself, since what follows it never
begins with a repetition; a group is cut out up to its own bracket, since its body is balanced,
and is then read one level further down.

* `Piece.lexeme_printed` — the head of a text is read back as the piece that is written there.
* `Sequence.readsBack` — a canonical tree is read back at as many levels as it is deep.
* `Sequence.read_printed` — so the text of a canonical tree is read as that tree.
-/

namespace InputMask

/-! ## Elements -/

/-- What an atom is before its inside is read. -/
def Atom.element : Atom → Element
  | .group body => .group (printedOfAll body)
  | atom => .atom atom

theorem Atom.isRepeatable_element (a : Atom) : a.element.isRepeatable = a.isRepeatable := by
  cases a <;> rfl

namespace Element

/-- Without a question mark in front, the content of a group is its body. -/
theorem ofContent_of_unmarked {content : Text} (h : Lexeme.Unmarked content) :
    ofContent content = .group content := by
  have hmark : ∀ rest, content ≠ '?' :: rest := by
    rintro rest rfl
    exact h '?' rfl (by decide)
  have hcondition : condition? content = none := by
    fun_cases condition? content
    case case5 => rfl
    all_goals exact absurd rfl (hmark _)
  have hbody : bodyOf content = content := by
    fun_cases bodyOf content
    case case4 => rfl
    all_goals exact absurd rfl (hmark _)
  rw [ofContent, hcondition, hbody]

/-- What stands between brackets is read up to the bracket that closes it. -/
theorem read_closed {content : Text} (h : Brackets.Balanced content) (after : Text) :
    read '(' (content ++ [')'] ++ after) = (ofContent content, after) := by
  rw [List.append_assoc, List.singleton_append, read, h.splitGroup?_closed]

theorem read_brackets {text members : Text} (h : Brackets.splitClass? text = some (members, []))
    (after : Text) : read '[' (text ++ after) = (.atom (.charClass ('[' :: text)), after) := by
  have htext : text = members ++ [']'] := Brackets.splitClass?_eq h
  rw [read, Brackets.splitClass?_append h]
  simp [htext]

theorem read_plain {c : Char} (h : c ∉ Atom.marks) (after : Text) :
    read c after = (.atom (.plain [c]), after) := by
  have hsub : ['\\', '[', '(', '.', '^', '$'] ⊆ Atom.marks := by decide
  have hne : ∀ mark ∈ ['\\', '[', '(', '.', '^', '$'], c ≠ mark :=
    fun mark hm hc => h (hc ▸ hsub hm)
  unfold read
  split
  case h_7 => rfl
  all_goals exact absurd rfl (hne _ (by decide))

theorem read_escaped {c : Char} (letter : c ∉ classLetters) (edge : c ≠ 'b' ∧ c ≠ 'B')
    (after : Text) :
    read '\\' (c :: after) = (.atom (.literal ['\\', c] [(control? c).getD c]), after) := by
  simp [read, ofEscaped, letter, edge]

theorem read_shorthand {c : Char} (h : c ∈ classLetters) (after : Text) :
    read '\\' (c :: after) = (.atom (.charClass ['\\', c]), after) := by
  simp [read, ofEscaped, h]

theorem read_lookaround {l : Lookaround} (h : ∀ c ∈ l.text, c ∉ Brackets.scanMarks)
    (hcondition : condition? l.content = some l) (after : Text) :
    read '(' (l.content ++ [')'] ++ after) = (.atom (.lookaround l), after) := by
  rw [read_closed (Lookaround.balanced_content h), ofContent, hcondition]

end Element

/-- A canonical atom that is not alternatives is read back as an element, whatever stands after
it. -/
theorem Atom.Canonical.element_printed {a : Atom} (h : a.Canonical) (hline : a.isChoice = false)
    (hall : a.Everywhere Piece.Canonical) {c : Char} {tail : Text}
    (hprinted : a.printed = c :: tail) (after : Text) :
    Element.read c (tail ++ after) = (a.element, after) := by
  cases h with
  | plain h =>
    cases hprinted
    exact Element.read_plain h after
  | escaped letter edge =>
    cases hprinted
    exact Element.read_escaped letter edge after
  | anyChar =>
    cases hprinted
    rfl
  | shorthand h =>
    cases hprinted
    exact Element.read_shorthand h after
  | brackets h =>
    cases hprinted
    exact Element.read_brackets h after
  | @group body h =>
    cases hprinted
    have hbody : Sequence.Canonical body := ⟨h, hall⟩
    calc Element.read '(' (body.printed ++ [')'] ++ after)
        = (Element.ofContent body.printed, after) :=
          Element.read_closed (balanced_printedOfAll body hall) after
      _ = (.group body.printed, after) := by
          rw [Element.ofContent_of_unmarked hbody.unmarked_printed]
  | choice => cases hline
  | anchor kind => cases kind <;> (cases hprinted; rfl)
  | @ahead text h =>
    cases hprinted
    refine Element.read_lookaround (by rwa [Element.text_ahead]) ?_ after
    rw [Lookaround.content, Element.negated_ahead, Element.text_ahead]
    rfl
  | notAhead h =>
    cases hprinted
    exact Element.read_lookaround h rfl after

/-! ## Pieces -/

theorem Repetition.read?_of_unmarked {text : Text} (h : Lexeme.Unmarked text) :
    read? text = none := by
  unfold read?
  split
  case h_5 => rfl
  all_goals exact absurd (by decide) (h _ rfl)

theorem Lexeme.withoutLazyMark_of_unmarked {text : Text} (h : Unmarked text) :
    withoutLazyMark text = text := by
  unfold withoutLazyMark
  split
  · exact absurd (by decide) (h _ rfl)
  · rfl

/-- A repetition belongs to the element in front of it, and ends where it is written to end. -/
theorem Lexeme.read_spelled {c : Char} {text rest : Text} {element : Element}
    {times : Option Repetition} (hc : c ∉ repetitionMarks)
    (hread : Element.read c text = (element, Repetition.spellingOf times ++ rest))
    (hnone : element.isRepeatable = false → times = none)
    (hspellable : ∀ r, times = some r → r.Spellable) (hrest : Unmarked rest) :
    read c text = ⟨element, times, rest⟩ := by
  simp only [read, hread]
  cases times with
  | none =>
    simp only [Repetition.spellingOf, Option.elim_none, List.nil_append,
      Repetition.read?_of_unmarked hrest, ite_self]
  | some r =>
    have hrepeatable : element.isRepeatable = true := by
      cases h : element.isRepeatable with
      | true => rfl
      | false => cases hnone h
    simp [hc, hrepeatable, Repetition.spellingOf, Repetition.read?_spelling (hspellable r rfl),
      withoutLazyMark_of_unmarked hrest]

/-- **The head of a text is read back as the piece that is written there.** What stands after it
does not begin with a repetition. -/
theorem Piece.lexeme_printed {p : Piece} (h : p.Everywhere Piece.Canonical)
    (hline : p.atom.isChoice = false) {rest : Text} (hrest : Lexeme.Unmarked rest) :
    ∃ c tail, p.printed ++ rest = c :: tail ∧ c ≠ '|' ∧
      Lexeme.read c tail = ⟨p.atom.element, p.times, rest⟩ := by
  obtain ⟨atom, times⟩ := p
  obtain ⟨c, tail, hprinted, hbar, hc⟩ := h.1.atom.exists_printed_eq_cons hline
  refine ⟨c, tail ++ (Repetition.spellingOf times ++ rest), ?_, hbar, ?_⟩
  · simp [printed, hprinted]
  · exact Lexeme.read_spelled hc (h.1.atom.element_printed hline h.2 hprinted _)
      (fun hr => h.1.times_eq_none (by rwa [Atom.isRepeatable_element] at hr))
      h.1.spellable hrest

/-! ## Sequences -/

namespace Sequence

/-- A sequence is what its text is read as, at so many levels of groups. -/
def ReadsBack (levels : Nat) (s : Sequence) : Prop :=
  ∃ branches, readBranches? levels s.printed = some branches ∧ ofBranches branches = s

theorem readBranches?_atom {levels : Nat} {c : Char} {text rest : Text} {a : Atom}
    {times : Option Repetition} (hc : c ≠ '|')
    (h : Lexeme.read c text = ⟨.atom a, times, rest⟩) :
    readBranches? levels (c :: text) =
      (readBranches? levels rest).map (prepend ⟨a, times⟩) := by
  rw [readBranches?]
  · split
    · rename_i b hb
      rw [h] at hb ⊢
      cases hb
      rfl
    · rename_i hb
      rw [h] at hb
      cases hb
  · exact hc

theorem readBranches?_group_succ {levels : Nat} {c : Char} {text body rest : Text}
    {times : Option Repetition} (hc : c ≠ '|')
    (h : Lexeme.read c text = ⟨.group body, times, rest⟩) :
    readBranches? (levels + 1) (c :: text) = (readBranches? levels body).bind fun branches =>
      (readBranches? (levels + 1) rest).map (prepend ⟨.group (ofBranches branches), times⟩) := by
  rw [readBranches?]
  · split
    · rename_i hb
      rw [h] at hb
      cases hb
    · rename_i b hb
      rw [h] at hb ⊢
      cases hb
      dsimp only
      cases readBranches? levels body <;> rfl
  · exact hc

theorem readBranches?_group {levels : Nat} {c : Char} {text body rest : Text}
    {times : Option Repetition} {branches : List Sequence} (hc : c ≠ '|')
    (h : Lexeme.read c text = ⟨.group body, times, rest⟩)
    (hbody : readBranches? levels body = some branches) :
    readBranches? (levels + 1) (c :: text) =
      (readBranches? (levels + 1) rest).map (prepend ⟨.group (ofBranches branches), times⟩) := by
  rw [readBranches?_group_succ hc h, hbody, Option.bind_some]

theorem foldr_prepend (pieces branch : Sequence) (branches : List Sequence) :
    pieces.foldr prepend (branch :: branches) = (pieces ++ branch) :: branches := by
  induction pieces with
  | nil => rfl
  | cons piece rest ih => rw [List.foldr_cons, ih, prepend, List.cons_append]

section Levels

variable {levels : Nat}
  (hinner : ∀ inner, levels = inner + 1 → ∀ body : Sequence, body.Canonical →
    body.depth ≤ inner → body.ReadsBack inner)

include hinner

/-- One piece is read in front of what follows it, if the bodies of groups are read back. -/
theorem readBranches?_piece {p : Piece} (h : p.Everywhere Piece.Canonical)
    (hline : p.atom.isChoice = false) (hdepth : p.depth ≤ levels) {rest : Text}
    (hrest : Lexeme.Unmarked rest) :
    readBranches? levels (p.printed ++ rest) = (readBranches? levels rest).map (prepend p) := by
  obtain ⟨c, tail, htext, hc, hread⟩ := Piece.lexeme_printed h hline hrest
  rw [htext]
  obtain ⟨atom, times⟩ := p
  cases atom with
  | group body =>
    obtain ⟨inner, rfl⟩ : ∃ inner, levels = inner + 1 :=
      Nat.exists_eq_add_one.2 (Nat.lt_of_lt_of_le (Nat.succ_pos _) hdepth)
    obtain ⟨branches, hbranches, hbody⟩ :=
      hinner inner rfl body ⟨h.1.atom.of_group, h.2⟩ (Nat.le_of_succ_le_succ hdepth)
    rw [readBranches?_group hc hread hbranches, hbody]
  | choice => cases hline
  | literal | charClass | anchor | lookaround => exact readBranches?_atom hc hread

/-- A line is read piece by piece. -/
theorem readBranches?_line {s : Sequence} (hline : s.IsLine)
    (h : everywhereInAll Piece.Canonical s) (hdepth : depthOfAll s ≤ levels) {rest : Text}
    (hrest : Lexeme.Unmarked rest) :
    readBranches? levels (printedOfAll s ++ rest) =
      (readBranches? levels rest).map (s.foldr prepend) := by
  induction s with
  | nil => cases h : readBranches? levels rest <;> simp [printedOfAll, h]
  | cons piece s ih =>
    obtain ⟨hpiece, hs⟩ := List.forall_mem_cons.1 hline
    rw [depthOfAll, Nat.max_le] at hdepth
    have hnext : Lexeme.Unmarked (printedOfAll s ++ rest) :=
      Lexeme.unmarked_printedOfAll_append hs h.2 hrest
    rw [printedOfAll, List.append_assoc, readBranches?_piece hinner h.1 hpiece hdepth.1 hnext,
      ih hs h.2 hdepth.2, Option.map_map]
    rfl

/-- Branches are read bar by bar. -/
theorem readBranches?_branches {branches : List Sequence} (hne : branches ≠ [])
    (hlines : ∀ branch ∈ branches, branch.IsLine)
    (h : everywhereInAny Piece.Canonical branches) (hdepth : depthOfAny branches ≤ levels) :
    readBranches? levels (printedOfAny branches) = some branches := by
  induction branches with
  | nil => exact absurd rfl hne
  | cons branch rest ih =>
    obtain ⟨hline, hlines⟩ := List.forall_mem_cons.1 hlines
    rw [depthOfAny, Nat.max_le] at hdepth
    cases rest with
    | nil =>
      have hread := readBranches?_line hinner hline h.1 hdepth.1 Lexeme.unmarked_nil
      simpa [printedOfAny, readBranches?, foldr_prepend] using hread
    | cons next rest =>
      have hbar : Lexeme.Unmarked ('|' :: printedOfAny (next :: rest)) :=
        Lexeme.unmarked_cons (by decide) _
      rw [printedOfAny, readBranches?_line hinner hline h.1 hdepth.1 hbar, readBranches?,
        ih (by simp) hlines h.2 hdepth.2]
      simp [foldr_prepend]

theorem readsBack_of_inner {s : Sequence} (h : s.Canonical) (hdepth : s.depth ≤ levels) :
    s.ReadsBack levels := by
  obtain ⟨hline | branches, hall⟩ := h
  · have hread := readBranches?_line hinner hline hall hdepth Lexeme.unmarked_nil
    exact ⟨[s], by simpa [printed, readBranches?, foldr_prepend] using hread, rfl⟩
  · obtain ⟨⟨hchoice, hbranches⟩, -⟩ := hall
    obtain ⟨two, lines⟩ := hchoice.atom.of_choice
    rw [depth_choice] at hdepth
    match branches, two, lines, hbranches, hdepth with
    | first :: second :: rest, _, lines, hbranches, hdepth =>
      refine ⟨first :: second :: rest, ?_, rfl⟩
      rw [printed_choice]
      exact readBranches?_branches hinner (by simp) lines hbranches hdepth

end Levels

/-- **A canonical tree is read back** at as many levels as its groups stand deep. The induction is
on the levels: only the body of a group is read one level further down. -/
theorem readsBack (levels : Nat) :
    ∀ s : Sequence, s.Canonical → s.depth ≤ levels → s.ReadsBack levels := by
  induction levels with
  | zero => exact fun s => readsBack_of_inner fun _ h => absurd h.symm (Nat.succ_ne_zero _)
  | succ levels ih =>
    refine fun s => readsBack_of_inner fun inner h => ?_
    obtain rfl : levels = inner := Nat.succ.inj h
    exact ih

/-- **Reading undoes writing.** The text of a canonical tree is read as that tree, at every limit
that is at least as deep as its groups are. -/
theorem read_printed {s : Sequence} (h : s.Canonical) {limit : Nat} (hdepth : s.depth ≤ limit) :
    Sequence.read s.printed limit = .ok s := by
  obtain ⟨branches, hread, rfl⟩ := readsBack limit s h hdepth
  rw [Sequence.read, hread]

/-- Brackets that are escaped or members of a class close no group, and a repetition stays with
the group it is written after. -/
theorem read_printed_nested_groups :
    ∃ s : Sequence, s.Canonical ∧ s.depth = 2 ∧
      s.printed = "((a|\\))[^)]{2,})?(?=^.{3}$)-".toList ∧ Sequence.read s.printed 2 = .ok s := by
  have hletter : Atom.Canonical (.plain ['a']) := .plain (by decide)
  have hescaped : Atom.Canonical (.literal ['\\', ')'] [')']) :=
    .escaped (by decide) (by decide)
  have hchoice : Atom.Canonical (.choice [[⟨.plain ['a'], none⟩],
      [⟨.literal ['\\', ')'] [')'], none⟩]]) :=
    .choice (by decide) (by simp [IsLine, Atom.isChoice, Atom.plain])
  have hclass : Atom.Canonical (.charClass "[^)]".toList) :=
    .brackets (by decide : Brackets.splitClass? "^)]".toList = some ("^)".toList, []))
  have htwo : Repetition.Spellable ⟨2, .endless⟩ := ⟨by decide, by simp⟩
  have hoptional : Repetition.Spellable ⟨0, .upTo 1⟩ := ⟨by decide, by simp [Count.ceiling]⟩
  have hlength : Atom.Canonical (.lookaround (Element.ahead "^.{3}$".toList)) :=
    .ahead (by simp [Brackets.scanMarks])
  have hdash : Atom.Canonical (.plain ['-']) := .plain (by decide)
  have hcanonical : Sequence.Canonical
      [⟨.group [⟨.group [⟨.choice [[⟨.plain ['a'], none⟩],
          [⟨.literal ['\\', ')'] [')'], none⟩]], none⟩], none⟩,
        ⟨.charClass "[^)]".toList, some ⟨2, .endless⟩⟩], some ⟨0, .upTo 1⟩⟩,
      ⟨.lookaround (Element.ahead "^.{3}$".toList), none⟩, ⟨.plain ['-'], none⟩] := by
    refine ⟨.line (by simp [IsLine, Atom.isChoice, Atom.plain]), ⟨?_, ?_⟩, ?_, ?_, trivial⟩
    · exact .repeated (.group (.line (by simp [IsLine, Atom.isChoice]))) rfl hoptional
    · refine ⟨⟨.once (.group (.choice _)), ⟨.once hchoice, ?_⟩, trivial⟩, ?_, trivial⟩
      · exact ⟨⟨⟨.once hletter, trivial⟩, trivial⟩, ⟨⟨.once hescaped, trivial⟩, trivial⟩, trivial⟩
      · exact ⟨.repeated hclass rfl htwo, trivial⟩
    · exact ⟨.once hlength, trivial⟩
    · exact ⟨.once hdash, trivial⟩
  exact ⟨_, hcanonical, by decide, by decide, read_printed hcanonical (by decide)⟩

end Sequence

end InputMask
