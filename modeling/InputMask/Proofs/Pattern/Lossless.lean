import InputMask.Proofs.Pattern.Canonical

/-!
# Reading loses nothing

Every character of a text stands in exactly one part of what is read from it, whether the text
is well formed or not. A tree does not determine its text: it keeps neither the name of a group,
nor the side on which a condition looks, nor the form of a repetition, and what a bracket at the
end of a text closes is the same without it. So the parts of a text are not printed from the
tree but related to it.

* `Atom.Written`, `WrittenAll`, `WrittenAny` — a text spells an atom, pieces in a row, or
  branches between bars, in front of a given text.
* `Sequence.Written` — a text spells a sequence, from its first character to its last.
* `Element.written_read`, `Lexeme.written_read` — the head of a text spells what is read there.
* `Sequence.written_of_read` — every text spells the tree that is read from it.
-/

namespace InputMask

/-! ## The ways of writing what a tree does not keep -/

/-- The ways of writing an anchor. -/
def Anchor.spellings : Anchor → List Text
  | .start => [['^']]
  | .finish => [['$']]
  | .wordEdge => [['\\', 'b'], ['\\', 'B']]

/-- The marks that stand in front of the text of a condition: on the text ahead or behind. -/
def Lookaround.marks (l : Lookaround) : List Text :=
  if l.negated then [['?', '!'], ['?', '<', '!']] else [['?', '='], ['?', '<', '=']]

/-- What may stand in a group in front of its body. -/
inductive Header : Text → Prop
  | none : Header []
  | uncaptured : Header ['?', ':']
  | named {name : Text} (h : '>' ∉ name) : Header ('?' :: '<' :: name ++ ['>'])
  | namedAfterP {name : Text} (h : '>' ∉ name) : Header ('?' :: 'P' :: '<' :: name ++ ['>'])

/-- How what an opening bracket began may end in front of a text: with a closing bracket, or
with nothing if there is no text left. -/
inductive Closing : Text → Text → Prop
  | closed (after : Text) : Closing after [')']
  | open : Closing [] []

/-- What may be written after an atom that occurs so often: nothing, or a text that is read
entirely as the repetition, with or without the mark of a lazy one. -/
inductive Repetition.WrittenAs : Option Repetition → Text → Prop
  | none : WrittenAs none []
  | greedy {r : Repetition} {text : Text} (h : read? text = some (r, [])) : WrittenAs (some r) text
  | lazy {r : Repetition} {text : Text} (h : read? text = some (r, [])) :
    WrittenAs (some r) (text ++ ['?'])

/-! ## Texts that spell a tree -/

mutual

/-- A text spells an atom in front of the text `after`, which is all that is left of the body or
the pattern in which the atom stands. -/
inductive Atom.Written : Text → Atom → Text → Prop
  | literal (after written meant : Text) : Atom.Written after (.literal written meant) written
  | charClass (after text : Text) : Atom.Written after (.charClass text) text
  | anchor {after text : Text} {kind : Anchor} (h : text ∈ kind.spellings) :
    Atom.Written after (.anchor kind) text
  | lookaround {after mark closing : Text} {l : Lookaround} (hmark : mark ∈ l.marks)
    (hclosing : Closing after closing) :
    Atom.Written after (.lookaround l) ('(' :: mark ++ l.text ++ closing)
  | group {after header inner closing : Text} {body : List Piece} (hheader : Header header)
    (hbody : WrittenAll [] body inner) (hclosing : Closing after closing) :
    Atom.Written after (.group body) ('(' :: header ++ inner ++ closing)
  | choice {after text : Text} {branches : List (List Piece)}
    (h : WrittenAny after branches text) : Atom.Written after (.choice branches) text

/-- A text spells pieces that follow one another, in front of the text `after`. -/
inductive WrittenAll : Text → List Piece → Text → Prop
  | nil (after : Text) : WrittenAll after [] []
  | cons {after front mark back : Text} {atom : Atom} {times : Option Repetition}
    {rest : List Piece} (hatom : Atom.Written (mark ++ back ++ after) atom front)
    (htimes : Repetition.WrittenAs times mark) (hrest : WrittenAll after rest back) :
    WrittenAll after (⟨atom, times⟩ :: rest) (front ++ mark ++ back)

/-- A text spells branches with bars between them, in front of the text `after`. -/
inductive WrittenAny : Text → List (List Piece) → Text → Prop
  | last {after text : Text} {branch : List Piece} (h : WrittenAll after branch text) :
    WrittenAny after [branch] text
  | cons {after front back : Text} {branch : List Piece} {rest : List (List Piece)}
    (hbranch : WrittenAll ('|' :: back ++ after) branch front)
    (hrest : WrittenAny after rest back) :
    WrittenAny after (branch :: rest) (front ++ '|' :: back)

end

/-- A text spells a sequence: it is made of consecutive parts that spell its pieces. -/
def Sequence.Written (s : Sequence) (text : Text) : Prop := WrittenAll [] s text

/-- A text spells an element in front of the text `after`. The body of a group is not read. -/
inductive Element.Written (after : Text) : Element → Text → Prop
  | atom {a : Atom} {text : Text} (h : a.Written after text) : Written after (.atom a) text
  | group {header body closing : Text} (hheader : Header header) (hclosing : Closing after closing) :
    Written after (.group body) ('(' :: header ++ body ++ closing)

/-! ## Repetitions -/

/-- A repetition that is read takes up a text of its own, which is read as it by itself. -/
theorem Repetition.exists_append_of_read? {text after : Text} {r : Repetition}
    (h : read? text = some (r, after)) :
    ∃ bare, text = bare ++ after ∧ read? bare = some (r, []) := by
  obtain ⟨bare, hform, rfl⟩ := read?_eq_some_iff.1 h
  exact ⟨bare, rfl, read?_eq_some_iff.2 ⟨bare, hform, (List.append_nil bare).symm⟩⟩

/-! ## Elements -/

namespace Element

theorem written_ofEscaped (c : Char) (after : Text) :
    (ofEscaped c).Written after ['\\', c] := by
  unfold ofEscaped
  split
  · exact .charClass after _
  · split
    · rename_i hedge
      apply Atom.Written.anchor
      rcases hedge with rfl | rfl
      · exact List.mem_cons_self ..
      · exact List.mem_cons_of_mem _ (List.mem_cons_self ..)
    · exact .literal after _ _

/-- A condition keeps its text, and the mark in front of it says whether it is negated. -/
theorem eq_append_of_condition? {content : Text} {l : Lookaround}
    (h : condition? content = some l) : ∃ mark ∈ l.marks, content = mark ++ l.text := by
  unfold condition? at h
  split at h
  case h_1 text =>
    cases h
    refine ⟨['?', '='], ?_, by rw [text_ahead]; rfl⟩
    simp [Lookaround.marks, negated_ahead]
  case h_2 text =>
    cases h
    exact ⟨['?', '!'], by simp [Lookaround.marks], rfl⟩
  case h_3 text =>
    cases h
    exact ⟨['?', '<', '='], by simp [Lookaround.marks], rfl⟩
  case h_4 text =>
    cases h
    exact ⟨['?', '<', '!'], by simp [Lookaround.marks], rfl⟩
  case h_5 => cases h

/-- What is cut off with a name is a header, if the mark in front of a name and the name make up
one. -/
theorem eq_append_withoutName (mark name : Text)
    (hnamed : ∀ front, '>' ∉ front → Header (mark ++ front ++ ['>'])) :
    ∃ header, Header header ∧ mark ++ name = header ++ withoutName (mark ++ name) name := by
  unfold withoutName
  split
  · rename_i front body hsplit
    refine ⟨_, hnamed front (Text.notMem_of_splitAt? hsplit), ?_⟩
    rw [Text.eq_of_splitAt? hsplit]
    simp
  · exact ⟨[], .none, rfl⟩

/-- What is cut off in front of the body of a group is a header. -/
theorem eq_append_bodyOf (content : Text) :
    ∃ header, Header header ∧ content = header ++ bodyOf content := by
  fun_cases bodyOf content
  case case1 body => exact ⟨['?', ':'], .uncaptured, rfl⟩
  case case2 name => exact eq_append_withoutName ['?', '<'] name fun _ h => .named h
  case case3 name => exact eq_append_withoutName ['?', 'P', '<'] name fun _ h => .namedAfterP h
  case case4 => exact ⟨[], .none, rfl⟩

theorem written_ofContent (content : Text) {after closing : Text} (h : Closing after closing) :
    (ofContent content).Written after ('(' :: content ++ closing) := by
  unfold ofContent
  split
  · rename_i l hl
    obtain ⟨mark, hmark, hcontent⟩ := eq_append_of_condition? hl
    have hwritten := Atom.Written.lookaround hmark h
    rw [hcontent]
    exact .atom (by simpa using hwritten)
  · obtain ⟨header, hheader, hcontent⟩ := eq_append_bodyOf content
    have hwritten : (Element.group (bodyOf content)).Written after
        ('(' :: (header ++ bodyOf content) ++ closing) := .group hheader h
    rwa [← hcontent] at hwritten

/-- **The head of a text spells the element that is read there.**  A class or a group that never
closes takes up all that is left. -/
theorem written_read (c : Char) (rest : Text) :
    ∃ front, c :: rest = front ++ (read c rest).2 ∧
      (read c rest).1.Written (read c rest).2 front := by
  unfold read
  split
  case h_1 =>
    split
    · exact ⟨_, rfl, .atom (.literal _ _ _)⟩
    · exact ⟨_, rfl, .atom (written_ofEscaped _ _)⟩
  case h_2 =>
    split
    · rename_i members after hclass
      refine ⟨_, ?_, .atom (.charClass _ _)⟩
      rw [Brackets.splitClass?_eq hclass]
      simp
    · exact ⟨_, (List.append_nil _).symm, .atom (.literal _ _ _)⟩
  case h_3 =>
    split
    · rename_i content after hgroup
      refine ⟨_, ?_, written_ofContent content (.closed after)⟩
      rw [Brackets.splitGroup?_eq hgroup]
      simp
    · refine ⟨_, ?_, written_ofContent rest .open⟩
      simp
  case h_4 => exact ⟨_, rfl, .atom (.charClass _ _)⟩
  case h_5 | h_6 => exact ⟨[_], rfl, .atom (.anchor (List.mem_cons_self ..))⟩
  case h_7 => exact ⟨[c], rfl, .atom (.literal _ _ _)⟩

end Element

/-! ## Lexemes -/

/-- **The head of a text spells the lexeme that is read there**: an element, then how often it
occurs. -/
theorem Lexeme.written_read (c : Char) (text : Text) :
    ∃ front mark, c :: text = front ++ mark ++ (read c text).rest ∧
      (read c text).element.Written (mark ++ (read c text).rest) front ∧
      Repetition.WrittenAs (read c text).times mark := by
  obtain ⟨front, hfront, hwritten⟩ := Element.written_read c text
  simp only [read]
  split
  · exact ⟨front, [], by simpa using hfront, hwritten, .none⟩
  · split
    · rename_i r after hr
      obtain ⟨bare, hbare, hread⟩ := Repetition.exists_append_of_read? hr
      rw [hbare] at hfront hwritten
      fun_cases withoutLazyMark after
      case case1 rest =>
        refine ⟨front, bare ++ ['?'], by simpa using hfront, ?_, .lazy hread⟩
        simpa using hwritten
      case case2 => exact ⟨front, bare, by simpa using hfront, hwritten, .greedy hread⟩
    · exact ⟨front, [], by simpa using hfront, hwritten, .none⟩

/-! ## Sequences -/

/-- A piece that is written in front of branches belongs to the first of them. -/
theorem WrittenAny.prepend {branches : List Sequence} {front mark rest : Text} {atom : Atom}
    {times : Option Repetition} (hbranches : WrittenAny [] branches rest)
    (hatom : atom.Written (mark ++ rest) front) (htimes : Repetition.WrittenAs times mark) :
    WrittenAny [] (Sequence.prepend ⟨atom, times⟩ branches) (front ++ mark ++ rest) := by
  cases hbranches with
  | last h => exact .last (.cons (by simpa using hatom) htimes h)
  | cons hbranch hrest =>
    -- the bar and all that comes after it stand behind the piece, not in it
    rw [← List.append_assoc]
    exact .cons (.cons (by simpa using hatom) htimes hbranch) hrest

theorem WrittenAny.ofBranches {branches : List Sequence} {text : Text}
    (h : WrittenAny [] branches text) : Sequence.Written (Sequence.ofBranches branches) text := by
  cases h with
  | last h => exact h
  | @cons _ front back branch rest hbranch hrest =>
    have hall : WrittenAll [] [⟨.choice (branch :: rest), none⟩] (front ++ '|' :: back) := by
      simpa using WrittenAll.cons (.choice (.cons hbranch hrest)) .none (.nil [])
    cases hrest <;> exact hall

namespace Sequence

/-- Every text spells the branches that are read from it. The induction is on how they are read:
what one lexeme leaves over, and the body of a group, spell what is read there. -/
theorem written_of_readBranches? {levels : Nat} {text : Text} {branches : List Sequence}
    (h : readBranches? levels text = some branches) : WrittenAny [] branches text := by
  fun_induction readBranches? levels text generalizing branches
  case case1 =>
    cases h
    exact .last (.nil [])
  case case2 rest ih =>
    obtain ⟨others, ho, rfl⟩ := Option.map_eq_some_iff.1 h
    show WrittenAny [] ([] :: others) ([] ++ '|' :: rest)
    exact .cons (.nil _) (ih ho)
  case case3 c rest _ lexeme a ha ih =>
    obtain ⟨others, ho, rfl⟩ := Option.map_eq_some_iff.1 h
    obtain ⟨front, mark, htext, hwritten, htimes⟩ := Lexeme.written_read c rest
    rw [show (Lexeme.read c rest).element = .atom a from ha] at hwritten
    cases hwritten with
    | atom hatom =>
      rw [htext]
      exact (ih ho).prepend hatom htimes
  case case4 => cases h
  case case5 => cases h
  case case6 c rest _ lexeme body hb levels inner hi ihInner ih =>
    obtain ⟨others, ho, rfl⟩ := Option.map_eq_some_iff.1 h
    obtain ⟨front, mark, htext, hwritten, htimes⟩ := Lexeme.written_read c rest
    rw [show (Lexeme.read c rest).element = .group body from hb] at hwritten
    cases hwritten with
    | group hheader hclosing =>
      rw [htext]
      exact (ih ho).prepend (.group hheader (ihInner hi).ofBranches hclosing) htimes

/-- **Reading loses nothing and reads nothing twice.**  Whatever the text and the limit, a text
from which a tree is read is made of consecutive parts that spell the tree. -/
theorem written_of_read {text : Text} {limit : Nat} {s : Sequence}
    (h : Sequence.read text limit = .ok s) : s.Written text := by
  unfold Sequence.read at h
  split at h
  · rename_i branches hr
    cases h
    exact (written_of_readBranches? hr).ofBranches
  · cases h

/-- A repetition that is none, a named group, a lazy repetition, a bar and two brackets that are
never closed. -/
theorem written_of_read_malformed :
    ∃ s, Sequence.read "x{,2}(?P<n>a+?|\\B(?<!b".toList 1 = .ok s ∧
      s.Written "x{,2}(?P<n>a+?|\\B(?<!b".toList := by
  have hread : Sequence.read "x{,2}(?P<n>a+?|\\B(?<!b".toList 1 =
      .ok [⟨.plain ['x'], none⟩, ⟨.plain ['{'], none⟩, ⟨.plain [','], none⟩,
        ⟨.plain ['2'], none⟩, ⟨.plain ['}'], none⟩,
        ⟨.group [⟨.choice [[⟨.plain ['a'], some ⟨1, .endless⟩⟩],
          [⟨.anchor .wordEdge, none⟩, ⟨.lookaround ⟨true, ['b'], none, none⟩, none⟩]],
          none⟩], none⟩] := by cbv
  exact ⟨_, hread, written_of_read hread⟩

end Sequence

end InputMask
