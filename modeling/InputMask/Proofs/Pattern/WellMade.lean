import Mathlib
import InputMask.Proofs.Pattern.Levels
import InputMask.Proofs.Pattern.Lossless

/-!
# What every tree that is read is like

Whatever the text, also a malformed one, the tree that is read from it is well made: the walks
over a tree can rely on the form of each piece and on where alternatives stand.

* `Atom.WellMade`, `Piece.WellMade` — what holds of each piece. `Sequence.WellPlaced` — what
  holds of the pieces of a sequence together.
* `Element.Leaf` — all that a text can begin with, save for a group.
* `WellMadeBranches` — what branches keep as a lexeme is put in front of them.
* `Sequence.wellMade_of_read` — every tree that is read is well made, at every depth.
-/

namespace InputMask

/-! ## Trees that are well made -/

/-- A class that never closes: fixed text up to the end of what was read. -/
def Piece.IsOpenClass (p : Piece) : Prop :=
  ∃ members, p.atom = .plain ('[' :: members) ∧ Brackets.splitClass? members = none

/-- The ways in which a class is written: the dot, an escaped letter, or members between
brackets. -/
def Atom.IsClassText (text : Text) : Prop :=
  text = ['.'] ∨ (∃ c ∈ Element.classLetters, text = ['\\', c]) ∨
    ∃ members, text = '[' :: members ++ [']']

/-- A condition that states a length is not negated and is written as any characters between
the ends of the text, as often as it states. -/
def Lookaround.StatesAsWritten (l : Lookaround) : Prop :=
  l.statesLength = true → l.negated = false ∧ ∃ brace r,
    l.text = "^.".toList ++ brace ++ ['$'] ∧ brace.head? = some '{' ∧
      Repetition.read? brace = some (r, []) ∧ l.least = some r.least ∧ l.most = r.most.end?

/-- A class that never closes has nothing behind it: it is the last piece of the last branch. -/
structure Sequence.OpenClassLast (branches : List Sequence) : Prop where
  earlier : ∀ branch ∈ branches.dropLast, ∀ piece ∈ branch, ¬ piece.IsOpenClass
  last : ∀ branch ∈ branches.getLast?, ∀ piece ∈ branch.dropLast, ¬ piece.IsOpenClass

/-- What holds of the pieces of a sequence together. Alternatives stand alone, and a class that
never closes stands at the end. -/
structure Sequence.WellPlaced (s : Sequence) : Prop where
  shaped : s.Shaped
  openClassLast : OpenClassLast s.lines

/-- What holds of an atom. A literal means one character, unless it is a class that never closes;
and alternatives are at least two lines, in which there are no alternatives directly. -/
inductive Atom.WellMade : Atom → Prop
  | literal {written : Text} (hwritten : written ≠ []) (meant : Char) :
    WellMade (.literal written [meant])
  | openClass {members : Text} (hopen : Brackets.splitClass? members = none) :
    WellMade (.plain ('[' :: members))
  | charClass {text : Text} (htext : IsClassText text) : WellMade (.charClass text)
  | group {body : Sequence} (hbody : body.WellPlaced) : WellMade (.group body)
  | choice {branches : List Sequence} (two : 2 ≤ branches.length)
    (lines : ∀ branch ∈ branches, branch.IsLine) : WellMade (.choice branches)
  | anchor (kind : Anchor) : WellMade (.anchor kind)
  | lookaround {l : Lookaround} (hl : l.StatesAsWritten) : WellMade (.lookaround l)

/-- What holds of a piece, whatever stands around it. The mark of a repetition that stands for
itself is not repeated, and neither is a class that never closes. -/
structure Piece.WellMade (p : Piece) : Prop where
  atom : p.atom.WellMade
  least_le_most : ∀ r m, p.times = some r → r.most = .upTo m → r.least ≤ m
  times_eq_none : p.atom.isRepeatable = false → p.times = none
  openClass : p.IsOpenClass → p.times = none
  mark : ∀ c ∈ Lexeme.repetitionMarks, ∀ meant, p.atom = .literal [c] meant → p.times = none

/-- A tree is well made, at every depth. -/
structure Sequence.WellMade (s : Sequence) : Prop where
  placed : s.WellPlaced
  everywhere : s.Everywhere Piece.WellMade

/-! ## What a text can begin with -/

namespace Element

/-- What is read from a text that begins with `c`, unless it is a group, with the text that is
left. -/
inductive Leaf (c : Char) : Atom → Text → Prop
  | plain (hc : c ≠ '[') (rest : Text) : Leaf c (.plain [c]) rest
  | escaped (letter meant : Char) (rest : Text) : Leaf c (.literal ['\\', letter] [meant]) rest
  | openClass {members : Text} (hopen : Brackets.splitClass? members = none) :
    Leaf c (.plain ('[' :: members)) []
  | charClass {text : Text} (htext : Atom.IsClassText text) (rest : Text) :
    Leaf c (.charClass text) rest
  | anchor (kind : Anchor) (rest : Text) : Leaf c (.anchor kind) rest
  | lookaround {l : Lookaround} (hl : l.StatesAsWritten) (rest : Text) :
    Leaf c (.lookaround l) rest

theorem leaf_ofEscaped (c letter : Char) (rest : Text) : Leaf c (ofEscaped letter) rest := by
  unfold ofEscaped
  split
  · rename_i hletter
    exact .charClass (.inr (.inl ⟨letter, hletter, rfl⟩)) rest
  · split
    · exact .anchor .wordEdge rest
    · exact .escaped letter _ rest

/-- Bounds on the whole length are written between braces. -/
theorem eq_append_of_wholeLength? {text : Text} {r : Repetition}
    (h : wholeLength? text = some r) :
    ∃ brace, text = "^.".toList ++ brace ++ ['$'] ∧ brace.head? = some '{' ∧
      Repetition.read? brace = some (r, []) := by
  unfold wholeLength? at h
  split at h
  · rename_i rest
    split at h
    · rename_i q hq
      cases h
      obtain ⟨brace, hbrace, hread⟩ := Repetition.exists_append_of_read? hq
      refine ⟨brace, ?_, ?_, hread⟩
      · show '^' :: '.' :: '{' :: rest = '^' :: '.' :: (brace ++ ['$'])
        rw [hbrace]
      · cases brace with
        | nil => cases hread
        | cons first others => exact congrArg List.head? hbrace.symm
    · cases h
  · cases h

theorem statesAsWritten_ahead (text : Text) : (ahead text).StatesAsWritten := by
  intro hstates
  refine ⟨negated_ahead text, ?_⟩
  rw [text_ahead]
  unfold ahead at hstates ⊢
  split
  · rename_i r hr
    obtain ⟨brace, htext, hhead, hread⟩ := eq_append_of_wholeLength? hr
    exact ⟨brace, r, htext, hhead, hread, rfl, rfl⟩
  · rename_i hnone
    rw [hnone] at hstates
    cases hstates

/-- Only the condition on the text ahead can state a length. -/
theorem statesAsWritten_of_condition? {content : Text} {l : Lookaround}
    (h : condition? content = some l) : l.StatesAsWritten := by
  unfold condition? at h
  split at h
  case h_1 text =>
    cases h
    exact statesAsWritten_ahead text
  case h_2 | h_3 | h_4 =>
    cases h
    intro hstates
    cases hstates
  case h_5 => cases h

theorem leaf_of_ofContent {content : Text} {a : Atom} (h : ofContent content = .atom a) (c : Char)
    (rest : Text) : Leaf c a rest := by
  unfold ofContent at h
  split at h
  · rename_i l hl
    cases h
    exact .lookaround (statesAsWritten_of_condition? hl) rest
  · cases h

/-- **All that a text can begin with**, save for a group. -/
theorem leaf_of_read {c : Char} {text : Text} {a : Atom} (h : (read c text).1 = .atom a) :
    Leaf c a (read c text).2 := by
  unfold read at h ⊢
  split at h
  case h_1 =>
    split at h
    · cases h
      exact .plain (by decide) _
    · cases h
      exact leaf_ofEscaped _ _ _
  case h_2 =>
    split at h
    · rename_i members after hclass
      cases h
      exact .charClass (.inr (.inr ⟨members, rfl⟩)) after
    · rename_i hclass
      cases h
      exact .openClass hclass
  case h_3 =>
    split at h
    · rename_i content after hgroup
      exact leaf_of_ofContent h _ _
    · rename_i hgroup
      exact leaf_of_ofContent h _ _
  case h_4 =>
    cases h
    exact .charClass (.inl rfl) _
  case h_5 | h_6 =>
    cases h
    exact .anchor _ _
  case h_7 hopen _ _ _ _ =>
    cases h
    exact .plain hopen _

section

variable {c : Char} {a : Atom} {rest : Text}

theorem Leaf.wellMade (h : Leaf c a rest) : a.WellMade := by
  cases h with
  | plain => exact .literal (by simp) c
  | escaped letter meant => exact .literal (by simp) meant
  | openClass hopen => exact .openClass hopen
  | charClass htext => exact .charClass htext
  | anchor kind => exact .anchor kind
  | lookaround hl => exact .lookaround hl

/-- A class that never closes takes up all that is left. -/
theorem Leaf.eq_nil_of_openClass {members : Text} (h : Leaf c a rest)
    (ha : a = .plain ('[' :: members)) : rest = [] := by
  cases h with
  | plain hc =>
    cases ha
    exact absurd rfl hc
  | openClass => rfl
  | escaped | charClass | anchor | lookaround => cases ha

/-- A mark stands for itself only where it is read as it is. -/
theorem Leaf.eq_of_mark {mark : Char} {meant : Text} (h : Leaf c a rest)
    (hmark : mark ∈ Lexeme.repetitionMarks) (ha : a = .literal [mark] meant) : mark = c := by
  cases h with
  | plain =>
    cases ha
    rfl
  | openClass =>
    cases ha
    exact absurd hmark (by decide)
  | escaped | charClass | anchor | lookaround => cases ha

end

end Element

/-! ## The pieces that lexemes make -/

namespace Lexeme

/-- **All that can stand after an element**: nothing that is a repetition or may be one, or a
repetition that is read there. -/
theorem read_cases (c : Char) (text : Text) :
    ((read c text).times = none ∧ (read c text).rest = (Element.read c text).2) ∨
      ∃ r after, (read c text).times = some r ∧ c ∉ repetitionMarks ∧
        (Element.read c text).1.isRepeatable = true ∧
        Repetition.read? (Element.read c text).2 = some (r, after) := by
  simp only [read]
  split
  · exact .inl ⟨rfl, rfl⟩
  · rename_i hplain
    rw [not_or, Bool.not_eq_true', Bool.not_eq_false] at hplain
    split
    · rename_i r after hr
      exact .inr ⟨r, after, rfl, hplain.1, hplain.2, hr⟩
    · exact .inl ⟨rfl, rfl⟩

section

variable {c : Char} {text : Text}

theorem times_eq_none_of_mark (hc : c ∈ repetitionMarks) : (read c text).times = none := by
  rcases read_cases c text with ⟨hnone, -⟩ | ⟨-, -, -, hplain, -⟩
  · exact hnone
  · exact absurd hc hplain

/-- At the end of a text no repetition follows. -/
theorem read_of_rest_nil (h : (Element.read c text).2 = []) :
    (read c text).times = none ∧ (read c text).rest = [] := by
  rcases read_cases c text with ⟨hnone, hrest⟩ | ⟨r, after, -, -, -, hr⟩
  · exact ⟨hnone, hrest.trans h⟩
  · rw [h] at hr
    cases hr

/-- A class that never closes has no repetition and nothing behind it. -/
theorem read_openClass {a : Atom} (ha : (read c text).element = .atom a)
    (hopen : Piece.IsOpenClass ⟨a, (read c text).times⟩) :
    (read c text).times = none ∧ (read c text).rest = [] := by
  obtain ⟨members, hmembers, -⟩ := hopen
  have hleaf := Element.leaf_of_read (by rwa [← element_read])
  exact read_of_rest_nil (hleaf.eq_nil_of_openClass hmembers)

/-- The piece that is made of an element other than a group is well made. -/
theorem wellMade_atom {a : Atom} (ha : (read c text).element = .atom a) :
    Piece.WellMade ⟨a, (read c text).times⟩ := by
  have hleaf := Element.leaf_of_read (by rwa [← element_read])
  refine ⟨hleaf.wellMade, fun _ _ hr hm => least_le_of_times hr hm, ?times, ?openClass, ?mark⟩
  case times => exact fun hrepeatable => times_eq_none (by rw [ha]; exact hrepeatable)
  case openClass => exact fun hopen => (read_openClass ha hopen).1
  case mark =>
    intro mark hmark meant heq
    obtain rfl := hleaf.eq_of_mark hmark heq
    exact times_eq_none_of_mark hmark

/-- The piece that is made of a group is well made, if its body is well placed. -/
theorem wellMade_group {body : Sequence} (hbody : body.WellPlaced) :
    Piece.WellMade ⟨.group body, (read c text).times⟩ where
  atom := .group hbody
  least_le_most _ _ hr hm := least_le_of_times hr hm
  times_eq_none hfalse := nomatch hfalse
  openClass := fun ⟨_, heq, _⟩ => nomatch heq
  mark _ _ _ heq := nomatch heq

end

end Lexeme

/-! ## Branches -/

namespace Sequence

theorem OpenClassLast.nil : OpenClassLast [[]] :=
  ⟨by simp, by simp⟩

/-- An empty branch in front of others keeps what stands last. -/
theorem OpenClassLast.bar {branches : List Sequence} (h : OpenClassLast branches) :
    OpenClassLast ([] :: branches) := by
  cases branches with
  | nil => exact .nil
  | cons branch rest =>
    refine ⟨?_, by simpa using h.last⟩
    rw [List.dropLast_cons_cons]
    exact List.forall_mem_cons.2 ⟨by simp, h.earlier⟩

/-- A piece may be put in front if it is no class that never closes, or if nothing stands behind
it. -/
theorem OpenClassLast.prepend {branches : List Sequence} {piece : Piece}
    (h : OpenClassLast branches) (hpiece : piece.IsOpenClass → branches = [[]]) :
    OpenClassLast (prepend piece branches) := by
  by_cases hopen : piece.IsOpenClass
  · rw [hpiece hopen]
    exact ⟨by simp [Sequence.prepend], by simp [Sequence.prepend]⟩
  · cases branches with
    | nil => exact ⟨by simp [Sequence.prepend], by simp [Sequence.prepend]⟩
    | cons branch rest =>
      have hbehind : ∀ p ∈ (piece :: branch).dropLast, p.IsOpenClass →
          p ∈ branch.dropLast := by
        intro p hp hclass
        cases branch with
        | nil => cases hp
        | cons first others =>
          rcases List.mem_cons.1 hp with rfl | hp
          · exact absurd hclass hopen
          · exact hp
      cases rest with
      | nil =>
        refine ⟨by simp [Sequence.prepend], ?_⟩
        rintro _ ⟨rfl⟩ p hp hclass
        exact h.last branch rfl p (hbehind p hp hclass) hclass
      | cons next rest =>
        have hearlier := h.earlier
        rw [List.dropLast_cons_cons, List.forall_mem_cons] at hearlier
        refine ⟨?_, fun last hlast => h.last last (by simpa [Sequence.prepend] using hlast)⟩
        rw [Sequence.prepend, List.dropLast_cons_cons, List.forall_mem_cons]
        exact ⟨List.forall_mem_cons.2 ⟨hopen, hearlier.1⟩, hearlier.2⟩

/-- What holds of branches as they are read. -/
structure WellMadeBranches (branches : List Sequence) : Prop where
  ne_nil : branches ≠ []
  lines : ∀ branch ∈ branches, branch.IsLine
  openClassLast : OpenClassLast branches
  everywhere : everywhereInAny Piece.WellMade branches

namespace WellMadeBranches

theorem nil : WellMadeBranches [[]] :=
  ⟨by simp, by simp [IsLine], .nil, trivial, trivial⟩

variable {branches : List Sequence}

theorem bar (h : WellMadeBranches branches) : WellMadeBranches ([] :: branches) where
  ne_nil := by simp
  lines := List.forall_mem_cons.2 ⟨by simp [IsLine], h.lines⟩
  openClassLast := h.openClassLast.bar
  everywhere := ⟨trivial, h.everywhere⟩

theorem prepend {piece : Piece} (h : WellMadeBranches branches)
    (hline : piece.atom.isChoice = false) (hpiece : piece.Everywhere Piece.WellMade)
    (hopen : piece.IsOpenClass → branches = [[]]) :
    WellMadeBranches (prepend piece branches) where
  ne_nil := by cases branches <;> simp [Sequence.prepend]
  lines := isLine_prepend hline h.lines
  openClassLast := h.openClassLast.prepend hopen
  everywhere := everywhereInAny_prepend hpiece h.everywhere

/-- A choice between branches that are well made is well made. -/
theorem choice (h : WellMadeBranches branches) (htwo : 2 ≤ branches.length) :
    Piece.WellMade ⟨.choice branches, none⟩ where
  atom := .choice htwo h.lines
  least_le_most _ _ hr := nomatch hr
  times_eq_none _ := rfl
  openClass _ := rfl
  mark _ _ _ heq := nomatch heq

theorem ofBranches (h : WellMadeBranches branches) : (ofBranches branches).WellMade := by
  match branches, h with
  | [branch], h =>
    have hline := h.lines branch (List.mem_singleton_self _)
    refine ⟨⟨.line hline, ?_⟩, h.everywhere.1⟩
    show OpenClassLast branch.lines
    rw [lines_of_isLine hline]
    exact h.openClassLast
  | first :: second :: rest, h =>
    have htwo : 2 ≤ (first :: second :: rest).length := by simp
    exact ⟨⟨.choice _, h.openClassLast⟩, ⟨h.choice htwo, h.everywhere⟩, trivial⟩

end WellMadeBranches

/-- **Branches are well made as they are read.**  The induction is on how they are read: nothing
stands behind a class that never closes, since it leaves nothing over. -/
theorem Reads.wellMade {text : Text} {branches : List Sequence} (h : Reads text branches) :
    WellMadeBranches branches := by
  induction h with
  | nil => exact .nil
  | bar _ ih => exact ih.bar
  | @atom c text rest a times branches hc hlexeme hrest ih =>
    have helement : (Lexeme.read c text).element = .atom a := by rw [hlexeme]
    have htimes : (Lexeme.read c text).times = times := by rw [hlexeme]
    have hleaf : a.isLeaf = true := Element.isLeaf_of_read (by rwa [← Lexeme.element_read])
    have hpiece : Piece.WellMade ⟨a, times⟩ := htimes ▸ Lexeme.wellMade_atom helement
    refine ih.prepend (Atom.isChoice_of_isLeaf hleaf)
      ⟨hpiece, Atom.everywhere_of_isLeaf hleaf⟩ fun hopen => ?_
    have hnil : (Lexeme.read c text).rest = [] :=
      (Lexeme.read_openClass helement (htimes ▸ hopen)).2
    rw [hlexeme] at hnil
    subst hnil
    cases hrest
    rfl
  | @group c text body rest times inner branches hc hlexeme _ _ ihBody ih =>
    have htimes : (Lexeme.read c text).times = times := by rw [hlexeme]
    have hbody := ihBody.ofBranches
    have hpiece : Piece.WellMade ⟨.group (Sequence.ofBranches inner), times⟩ :=
      htimes ▸ Lexeme.wellMade_group hbody.placed
    exact ih.prepend rfl ⟨hpiece, hbody.everywhere⟩ fun ⟨_, heq, _⟩ => nomatch heq

/-- **Everything that is read is well made.**  Whatever the text and the limit, at every depth of
the tree: alternatives stand alone, without a repetition, and are at least two lines; conditions
and anchors have no repetition, and the bounds of every repetition are in order; a literal is
not empty and means one character, unless it is a class that never closes, which stands last
and is not repeated; the mark of a repetition that stands for itself is not repeated; a class is
written as one; and a condition that states a length says what is written in it. -/
theorem wellMade_of_read {text : Text} {limit : Nat} {s : Sequence}
    (h : Sequence.read text limit = .ok s) : s.WellMade := by
  obtain ⟨branches, hreads, rfl⟩ := exists_reads_of_read h
  exact hreads.wellMade.ofBranches

/-- Marks of repetitions with nothing to repeat, a condition that states a length, a class whose
first member is its bracket, and two groups and a class that never close. -/
theorem wellMade_of_read_malformed :
    ∃ s, Sequence.read "*?(?=^.{2,5}$)(a{2}?|[^]x]|(+{1}[bc".toList 2 = .ok s ∧ s.WellMade := by
  have hread : Sequence.read "*?(?=^.{2,5}$)(a{2}?|[^]x]|(+{1}[bc".toList 2 =
      .ok [⟨.plain ['*'], none⟩, ⟨.plain ['?'], none⟩,
        ⟨.lookaround ⟨false, "^.{2,5}$".toList, some 2, some 5⟩, none⟩,
        ⟨.group [⟨.choice [[⟨.plain ['a'], some ⟨2, .upTo 2⟩⟩],
          [⟨.charClass "[^]x]".toList, none⟩],
          [⟨.group [⟨.plain ['+'], none⟩, ⟨.plain ['{'], none⟩, ⟨.plain ['1'], none⟩,
            ⟨.plain ['}'], none⟩, ⟨.plain "[bc".toList, none⟩], none⟩]], none⟩], none⟩] := by cbv
  exact ⟨_, hread, wellMade_of_read hread⟩

end Sequence

end InputMask
