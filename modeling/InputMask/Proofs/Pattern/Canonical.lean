import InputMask.Proofs.Pattern.Balanced
import InputMask.Proofs.Pattern.Everywhere
import InputMask.Proofs.Pattern.Spelling

/-!
# Patterns as they are written

A tree is written down piece by piece. Not every tree has a text of its own: two literals in
one piece, say, read as two pieces. The canonical trees are those that are made of what a
reader makes, each element in the one form in which it is written here.

* `Sequence.printed` — the text of a tree.
* `Sequence.depth` — how deep groups stand inside one another.
* `Sequence.lines` — the branches of a sequence, or the sequence itself if it has none.
* `Sequence.Canonical` — the trees that their text determines.
* `Piece.balanced_printed` — no bracket in the text of a canonical tree is left open, and none
  closes more than was opened.
* `Sequence.Canonical.unmarked_printed` — such a text does not begin with a repetition.
-/

namespace InputMask

/-! ## The text of a tree -/

/-- A repetition as it is written after a piece, if there is one. -/
def Repetition.spellingOf (times : Option Repetition) : Text :=
  times.elim [] Repetition.spelling

/-- An anchor as it is written. -/
def Anchor.printed : Anchor → Text
  | .start => ['^']
  | .finish => ['$']
  | .wordEdge => ['\\', 'b']

/-- What stands between the brackets of a condition on the text ahead. -/
def Lookaround.content (l : Lookaround) : Text :=
  '?' :: (if l.negated then '!' else '=') :: l.text

/-- A condition on the text ahead as it is written. -/
def Lookaround.printed (l : Lookaround) : Text := '(' :: l.content ++ [')']

mutual

/-- An atom as it is written. -/
def Atom.printed : Atom → Text
  | .literal written _ => written
  | .charClass text => text
  | .group body => '(' :: printedOfAll body ++ [')']
  | .choice branches => printedOfAny branches
  | .anchor kind => kind.printed
  | .lookaround l => l.printed

/-- A piece as it is written. -/
def Piece.printed : Piece → Text
  | ⟨atom, times⟩ => atom.printed ++ Repetition.spellingOf times

/-- Pieces written one after another. -/
def printedOfAll : List Piece → Text
  | [] => []
  | piece :: rest => piece.printed ++ printedOfAll rest

/-- Branches written with bars between them. -/
def printedOfAny : List (List Piece) → Text
  | [] => []
  | [branch] => printedOfAll branch
  | branch :: next :: rest => printedOfAll branch ++ '|' :: printedOfAny (next :: rest)

end

/-- A sequence written as a pattern. -/
def Sequence.printed (s : Sequence) : Text := printedOfAll s

theorem Sequence.printed_choice (branches : List Sequence) :
    Sequence.printed [⟨.choice branches, none⟩] = printedOfAny branches := by
  simp [printed, printedOfAll, Piece.printed, Atom.printed, Repetition.spellingOf]

/-! ## Groups inside groups -/

mutual

/-- How deep groups stand inside one another in an atom. -/
def Atom.depth : Atom → Nat
  | .group body => depthOfAll body + 1
  | .choice branches => depthOfAny branches
  | _ => 0

/-- How deep groups stand inside one another in a piece. -/
def Piece.depth : Piece → Nat
  | ⟨atom, _⟩ => atom.depth

/-- How deep groups stand inside one another in any of several pieces. -/
def depthOfAll : List Piece → Nat
  | [] => 0
  | piece :: rest => max piece.depth (depthOfAll rest)

/-- How deep groups stand inside one another in any of several branches. -/
def depthOfAny : List (List Piece) → Nat
  | [] => 0
  | branch :: rest => max (depthOfAll branch) (depthOfAny rest)

end

/-- How deep groups stand inside one another in a sequence. -/
def Sequence.depth (s : Sequence) : Nat := depthOfAll s

theorem Sequence.depth_choice (branches : List Sequence) :
    Sequence.depth [⟨.choice branches, none⟩] = depthOfAny branches := by
  simp [depth, depthOfAll, Piece.depth, Atom.depth]

/-! ## Canonical trees -/

/-- Whether the atom is alternatives. -/
def Atom.isChoice : Atom → Bool
  | .choice _ => true
  | _ => false

/-- Pieces of which none is alternatives. -/
def Sequence.IsLine (s : Sequence) : Prop := ∀ piece ∈ s, piece.atom.isChoice = false

/-- Pieces in a row without a bar between them, or alternatives alone and without a repetition. -/
inductive Sequence.Shaped : Sequence → Prop
  | line {s : Sequence} (h : s.IsLine) : Shaped s
  | choice (branches : List Sequence) : Shaped [⟨.choice branches, none⟩]

/-- The rows of pieces of which a match goes through one: the branches of alternatives that
stand alone, or else the sequence itself. -/
def Sequence.lines : Sequence → List Sequence
  | [⟨.choice branches, none⟩] => branches
  | s => [s]

theorem Sequence.lines_of_isLine {s : Sequence} (h : s.IsLine) : s.lines = [s] := by
  fun_cases Sequence.lines s
  case case1 branches => cases h _ (List.mem_singleton_self _)
  case case2 => rfl

/-- Branches stay lines if a piece that is no alternatives is put in front. -/
theorem Sequence.isLine_prepend {piece : Piece} {branches : List Sequence}
    (hpiece : piece.atom.isChoice = false) (hbranches : ∀ branch ∈ branches, branch.IsLine) :
    ∀ branch ∈ prepend piece branches, branch.IsLine := by
  cases branches with
  | nil => simpa [prepend, IsLine] using hpiece
  | cons branch rest =>
    obtain ⟨hbranch, hrest⟩ := List.forall_mem_cons.1 hbranches
    exact List.forall_mem_cons.2 ⟨List.forall_mem_cons.2 ⟨hpiece, hbranch⟩, hrest⟩

theorem Atom.isChoice_of_isLeaf {a : Atom} (h : a.isLeaf = true) : a.isChoice = false := by
  cases a <;> first | rfl | cases h

/-- **Everything that is read has the shape of a sequence.**  Alternatives come only from bars,
and a lexeme is put into the branch that is read up to the next bar. -/
theorem Sequence.shaped_of_read {text : Text} {limit : Nat} {s : Sequence}
    (h : Sequence.read text limit = .ok s) : s.Shaped := by
  unfold Sequence.read at h
  split at h
  · rename_i branches hr
    cases h
    have hlines : ∀ branch ∈ branches, branch.IsLine := by
      refine readBranches?_induction (motive := fun bs => ∀ branch ∈ bs, branch.IsLine)
        (by simp [IsLine]) ?bar ?atom ?group hr
      case bar => exact fun bs hbs => List.forall_mem_cons.2 ⟨by simp [IsLine], hbs⟩
      case atom =>
        intro c text a bs ha hbs
        have hleaf : a.isLeaf = true := Element.isLeaf_of_read (by rwa [← Lexeme.element_read])
        exact isLine_prepend (Atom.isChoice_of_isLeaf hleaf) hbs
      case group => exact fun c text body inner bs _ _ hbs => isLine_prepend rfl hbs
    rcases branches with _ | ⟨branch, _ | ⟨second, rest⟩⟩
    · exact .choice []
    · exact .line (hlines branch (List.mem_singleton_self _))
    · exact .choice _
  · cases h

/-- The characters that do not stand for themselves. -/
def Atom.marks : List Char := ['\\', '[', '(', ')', '.', '^', '$', '|', '*', '+', '?', '{']

/-- An atom is in the form in which it is read. What stands inside a group or a branch is not
looked at, save for where alternatives are. -/
inductive Atom.Canonical : Atom → Prop
  | plain {c : Char} (h : c ∉ marks) : Canonical (.plain [c])
  | escaped {c : Char} (letter : c ∉ Element.classLetters) (edge : c ≠ 'b' ∧ c ≠ 'B') :
      Canonical (.literal ['\\', c] [(Element.control? c).getD c])
  | anyChar : Canonical (.charClass ['.'])
  | shorthand {c : Char} (h : c ∈ Element.classLetters) : Canonical (.charClass ['\\', c])
  | brackets {text members : Text} (h : Brackets.splitClass? text = some (members, [])) :
      Canonical (.charClass ('[' :: text))
  | group {body : Sequence} (h : body.Shaped) : Canonical (.group body)
  | choice {branches : List Sequence} (two : 2 ≤ branches.length)
      (lines : ∀ branch ∈ branches, branch.IsLine) : Canonical (.choice branches)
  | anchor (kind : Anchor) : Canonical (.anchor kind)
  | ahead {text : Text} (h : ∀ c ∈ text, c ∉ Brackets.scanMarks) :
      Canonical (.lookaround (Element.ahead text))
  | notAhead {text : Text} (h : ∀ c ∈ text, c ∉ Brackets.scanMarks) :
      Canonical (.lookaround ⟨true, text, none, none⟩)

/-- A piece is in the form in which it is read: a repetition stands only where one may be
written, and its bounds are counts in order. -/
structure Piece.Canonical (p : Piece) : Prop where
  atom : p.atom.Canonical
  times_eq_none : p.atom.isRepeatable = false → p.times = none
  spellable : ∀ r, p.times = some r → r.Spellable

/-- A tree is canonical: it has the shape of a sequence, and each of its pieces, at every depth,
is in the form in which it is read. -/
structure Sequence.Canonical (s : Sequence) : Prop where
  shaped : s.Shaped
  everywhere : s.Everywhere Piece.Canonical

theorem Piece.Canonical.once {a : Atom} (h : a.Canonical) : Piece.Canonical ⟨a, none⟩ :=
  ⟨h, fun _ => rfl, fun _ hr => nomatch hr⟩

theorem Piece.Canonical.repeated {a : Atom} (h : a.Canonical) (hrepeatable : a.isRepeatable = true)
    {r : Repetition} (hr : r.Spellable) : Piece.Canonical ⟨a, some r⟩ :=
  ⟨h, fun hfalse => absurd (hrepeatable.symm.trans hfalse) (by decide), fun _ hs =>
    Option.some.inj hs ▸ hr⟩

/-- Alternatives are canonical if there are at least two of them, each a line. -/
theorem Atom.Canonical.of_choice {branches : List Sequence}
    (h : Atom.Canonical (.choice branches)) :
    2 ≤ branches.length ∧ ∀ branch ∈ branches, branch.IsLine := by
  cases h with
  | choice two lines => exact ⟨two, lines⟩

theorem Atom.Canonical.of_group {body : Sequence} (h : Atom.Canonical (.group body)) :
    body.Shaped := by
  cases h with
  | group h => exact h

/-! ## The text of a canonical tree is balanced -/

section Balanced

open Brackets (Balanced scanMarks)

theorem Repetition.of_mem_spelling {r : Repetition} {c : Char} (h : c ∈ r.spelling) :
    c.isDigit = true ∨ c ∈ ['*', '+', '?', '{', '}', ','] := by
  have hdigit : ∀ n, c ∈ Count.numeral n → c.isDigit = true :=
    fun n hn => Count.isDigit_of_mem_numeral hn
  rw [spelling] at h
  split at h <;> grind

theorem Repetition.balanced_spellingOf (times : Option Repetition) :
    Balanced (spellingOf times) := by
  cases times with
  | none => exact .nil
  | some r =>
    have hmarks : ∀ c ∈ scanMarks,
        c.isDigit = false ∧ c ∉ ['*', '+', '?', '{', '}', ','] := by
      simp [scanMarks, Char.isDigit]
    refine .of_forall fun c hc hmark => ?_
    rcases of_mem_spelling hc with hdigit | hsign
    · simp [(hmarks c hmark).1] at hdigit
    · exact (hmarks c hmark).2 hsign

/-- A condition that holds no bracket is balanced between its own brackets. -/
theorem Lookaround.balanced_content {l : Lookaround} (h : ∀ c ∈ l.text, c ∉ scanMarks) :
    Balanced l.content := by
  have hmark : ∀ c ∈ l.content, c ∉ scanMarks := by
    simp only [content, List.forall_mem_cons]
    exact ⟨by decide, by split <;> decide, h⟩
  exact .of_forall hmark

theorem Element.text_ahead (text : Text) : (ahead text).text = text := by
  unfold ahead
  split <;> rfl

theorem Element.negated_ahead (text : Text) : (ahead text).negated = false := by
  unfold ahead
  split <;> rfl

theorem Atom.Canonical.balanced_of_isLeaf {a : Atom} (h : a.Canonical) (hleaf : a.isLeaf = true) :
    Balanced a.printed := by
  cases h with
  | plain h =>
    have hsub : scanMarks ⊆ marks := by decide
    exact .char fun hc => h (hsub hc)
  | escaped => exact .escaped _
  | anyChar => exact .char (by decide)
  | shorthand => exact .escaped _
  | brackets h => exact .charClass h
  | group => cases hleaf
  | choice => cases hleaf
  | anchor kind =>
    cases kind with
    | start => exact .char (by decide)
    | finish => exact .char (by decide)
    | wordEdge => exact .escaped 'b'
  | @ahead text h => exact .group (Lookaround.balanced_content (by rwa [Element.text_ahead]))
  | notAhead h => exact .group (Lookaround.balanced_content h)

mutual

/-- Each piece closes what it opens: a leaf by its form, a group by the bracket written after
its body. -/
theorem Piece.balanced_printed : ∀ p : Piece, p.Everywhere Piece.Canonical → Balanced p.printed
  | ⟨.group body, times⟩, h =>
    .append (.group (balanced_printedOfAll body h.2)) (Repetition.balanced_spellingOf times)
  | ⟨.choice branches, times⟩, h =>
    .append (balanced_printedOfAny branches h.2) (Repetition.balanced_spellingOf times)
  | ⟨.literal _ _, times⟩, h | ⟨.charClass _, times⟩, h | ⟨.anchor _, times⟩, h
  | ⟨.lookaround _, times⟩, h =>
    .append (h.1.atom.balanced_of_isLeaf rfl) (Repetition.balanced_spellingOf times)

theorem balanced_printedOfAll : ∀ pieces : List Piece,
    everywhereInAll Piece.Canonical pieces → Balanced (printedOfAll pieces)
  | [], _ => .nil
  | piece :: rest, h => .append (piece.balanced_printed h.1) (balanced_printedOfAll rest h.2)

theorem balanced_printedOfAny : ∀ branches : List (List Piece),
    everywhereInAny Piece.Canonical branches → Balanced (printedOfAny branches)
  | [], _ => .nil
  | [branch], h => balanced_printedOfAll branch h.1
  | branch :: next :: rest, h =>
    .append (balanced_printedOfAll branch h.1)
      (.append (.char (c := '|') (by decide)) (balanced_printedOfAny (next :: rest) h.2))

end

end Balanced

/-! ## How a canonical tree begins -/

/-- A text does not begin with the mark of a repetition. -/
def Lexeme.Unmarked (text : Text) : Prop := ∀ c ∈ text.head?, c ∉ repetitionMarks

theorem Lexeme.unmarked_nil : Unmarked [] := by simp [Unmarked]

theorem Lexeme.unmarked_cons {c : Char} (h : c ∉ repetitionMarks) (rest : Text) :
    Unmarked (c :: rest) := by
  simpa [Unmarked] using h

/-- A canonical atom that is not alternatives begins with a character that is neither a bar nor
the mark of a repetition. -/
theorem Atom.Canonical.exists_printed_eq_cons {a : Atom} (h : a.Canonical)
    (hline : a.isChoice = false) :
    ∃ c tail, a.printed = c :: tail ∧ c ≠ '|' ∧ c ∉ Lexeme.repetitionMarks := by
  cases h with
  | @plain c h =>
    have hsub : '|' :: Lexeme.repetitionMarks ⊆ marks := by decide
    have hc : c ∉ '|' :: Lexeme.repetitionMarks := fun hc => h (hsub hc)
    exact ⟨c, [], rfl, List.ne_and_not_mem_of_not_mem_cons hc⟩
  | escaped | shorthand => exact ⟨'\\', _, rfl, by decide⟩
  | anyChar => exact ⟨'.', [], rfl, by decide⟩
  | brackets => exact ⟨'[', _, rfl, by decide⟩
  | group => exact ⟨'(', _, rfl, by decide⟩
  | choice => cases hline
  | anchor kind =>
    cases kind with
    | start => exact ⟨'^', [], rfl, by decide⟩
    | finish => exact ⟨'$', [], rfl, by decide⟩
    | wordEdge => exact ⟨'\\', ['b'], rfl, by decide⟩
  | ahead | notAhead => exact ⟨'(', _, rfl, by decide⟩

theorem Lexeme.unmarked_printedOfAll_append {s : Sequence} (hline : s.IsLine)
    (h : everywhereInAll Piece.Canonical s) {rest : Text} (hrest : Unmarked rest) :
    Unmarked (printedOfAll s ++ rest) := by
  match s, h with
  | [], _ => exact hrest
  | ⟨atom, times⟩ :: s, h =>
    obtain ⟨c, tail, hprinted, -, hc⟩ :=
      h.1.1.atom.exists_printed_eq_cons (hline _ (List.mem_cons_self ..))
    rw [printedOfAll, Piece.printed, hprinted]
    exact unmarked_cons hc _

/-- A canonical tree does not begin with a repetition, so a group around it holds no condition
and has no name. -/
theorem Sequence.Canonical.unmarked_printed {s : Sequence} (h : s.Canonical) :
    Lexeme.Unmarked s.printed := by
  obtain ⟨hline | branches, hall⟩ := h
  · simpa [printed] using
      Lexeme.unmarked_printedOfAll_append hline hall Lexeme.unmarked_nil
  · obtain ⟨⟨hchoice, hbranches⟩, -⟩ := hall
    obtain ⟨two, lines⟩ := hchoice.atom.of_choice
    rw [printed_choice]
    match branches, two, lines, hbranches with
    | first :: second :: rest, _, lines, hbranches =>
      exact Lexeme.unmarked_printedOfAll_append (lines first (List.mem_cons_self ..)) hbranches.1
        (Lexeme.unmarked_cons (by decide) _)

end InputMask
