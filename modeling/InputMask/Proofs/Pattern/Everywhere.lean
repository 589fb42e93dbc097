import InputMask.Pattern.Reader
import InputMask.Proofs.Pattern.Forms

/-!
# Properties of every piece of a pattern

What holds of each piece by itself, at every depth, and how reading establishes it.

* `Sequence.Everywhere` — a property holds of every piece, inside groups and branches too.
* `everywhere_of_read` — a property that holds of each piece at the moment it is made holds
  everywhere in what is read.
* `Sequence.Sound` — repetitions are in order, only what can be repeated is, and
  alternatives have a branch. `sound_of_read`: everything that is read is sound.
-/

namespace InputMask

mutual

/-- A property holds of every piece inside an atom. -/
def Atom.Everywhere (P : Piece → Prop) : Atom → Prop
  | .group body => everywhereInAll P body
  | .choice branches => everywhereInAny P branches
  | _ => True

/-- A property holds of a piece and of every piece inside it. -/
def Piece.Everywhere (P : Piece → Prop) : Piece → Prop
  | ⟨atom, times⟩ => P ⟨atom, times⟩ ∧ atom.Everywhere P

/-- A property holds of every piece of a list and inside it. -/
def everywhereInAll (P : Piece → Prop) : List Piece → Prop
  | [] => True
  | piece :: rest => piece.Everywhere P ∧ everywhereInAll P rest

/-- A property holds of every piece of several branches and inside it. -/
def everywhereInAny (P : Piece → Prop) : List (List Piece) → Prop
  | [] => True
  | branch :: rest => everywhereInAll P branch ∧ everywhereInAny P rest

end

/-- A property holds of every piece of a sequence, at every depth. -/
def Sequence.Everywhere (P : Piece → Prop) (s : Sequence) : Prop := everywhereInAll P s

/-! ## Reading keeps what holds of each piece as it is made -/

/-- Whether nothing stands inside the atom. -/
def Atom.isLeaf : Atom → Bool
  | .group _ | .choice _ => false
  | _ => true

theorem Atom.everywhere_of_isLeaf {P : Piece → Prop} {a : Atom} (h : a.isLeaf = true) :
    a.Everywhere P := by
  cases a <;> simp_all [Atom.isLeaf, Atom.Everywhere]

theorem Element.isLeaf_ofEscaped (c : Char) : (Element.ofEscaped c).isLeaf = true := by
  unfold Element.ofEscaped
  split
  · rfl
  · split <;> rfl

theorem Element.isLeaf_of_ofContent {content : Text} {a : Atom}
    (h : Element.ofContent content = .atom a) : a.isLeaf = true := by
  unfold Element.ofContent at h
  split at h
  · cases h; rfl
  · cases h

/-- An element that is read without looking inside a group holds nothing inside. -/
theorem Element.isLeaf_of_read {c : Char} {text : Text} {a : Atom}
    (h : (Element.read c text).1 = .atom a) : a.isLeaf = true := by
  unfold Element.read at h
  split at h
  · split at h
    · cases h; rfl
    · cases h; exact isLeaf_ofEscaped _
  · split at h <;> (cases h; rfl)
  · split at h <;> exact isLeaf_of_ofContent h
  all_goals (cases h; rfl)

section Reading

variable {P : Piece → Prop}

/-- **Induction on what is read.**  Branches come from the empty text, from a bar, or from a
lexeme put in front of branches; the body of a group is read on its own. -/
theorem Sequence.readBranches?_induction {motive : List Sequence → Prop} (nil : motive [[]])
    (bar : ∀ branches, motive branches → motive ([] :: branches))
    (atom : ∀ c text a branches, (Lexeme.read c text).element = .atom a → motive branches →
      motive (prepend ⟨a, (Lexeme.read c text).times⟩ branches))
    (group : ∀ c text body inner branches, (Lexeme.read c text).element = .group body →
      motive inner → motive branches →
      motive (prepend ⟨.group (ofBranches inner), (Lexeme.read c text).times⟩ branches))
    {levels : Nat} {text : Text} {branches : List Sequence}
    (h : readBranches? levels text = some branches) : motive branches := by
  fun_induction readBranches? levels text generalizing branches
  case case1 => cases h; exact nil
  case case2 ih =>
    obtain ⟨others, ho, rfl⟩ := Option.map_eq_some_iff.1 h
    exact bar others (ih ho)
  case case3 c rest _ lexeme a ha ih =>
    obtain ⟨others, ho, rfl⟩ := Option.map_eq_some_iff.1 h
    exact atom c rest a others ha (ih ho)
  case case4 => cases h
  case case5 => cases h
  case case6 c rest _ lexeme body hb levels inner hi ihInner ih =>
    obtain ⟨others, ho, rfl⟩ := Option.map_eq_some_iff.1 h
    exact group c rest body inner others hb (ihInner hi) (ih ho)

theorem everywhereInAny_prepend {piece : Piece} {branches : List Sequence}
    (hp : piece.Everywhere P) (hb : everywhereInAny P branches) :
    everywhereInAny P (Sequence.prepend piece branches) := by
  cases branches with
  | nil => exact ⟨⟨hp, trivial⟩, trivial⟩
  | cons branch rest => exact ⟨⟨hp, hb.1⟩, hb.2⟩

theorem everywhereInAll_ofBranches {branches : List Sequence} (hne : branches ≠ [])
    (hchoice : branches.length ≠ 1 → P ⟨.choice branches, none⟩)
    (hb : everywhereInAny P branches) : everywhereInAll P (Sequence.ofBranches branches) := by
  match branches, hne, hchoice, hb with
  | [branch], _, _, hb => exact hb.1
  | first :: second :: rest, _, hchoice, hb => exact ⟨⟨hchoice (by simp), hb⟩, trivial⟩

/-- A property of pieces holds everywhere in what is read, if it holds of the pieces that
lexemes make and of alternatives without a repetition that have a branch. -/
theorem Sequence.everywhere_of_read
    (atom : ∀ c text a, (Lexeme.read c text).element = .atom a →
      P ⟨a, (Lexeme.read c text).times⟩)
    (group : ∀ c text body inner, (Lexeme.read c text).element = .group body →
      P ⟨.group inner, (Lexeme.read c text).times⟩)
    (choice : ∀ branches : List Sequence, branches ≠ [] → P ⟨.choice branches, none⟩)
    {text : Text} {limit : Nat} {s : Sequence} (h : Sequence.read text limit = .ok s) :
    s.Everywhere P := by
  have key : ∀ {levels : Nat} {text : Text} {branches : List Sequence},
      readBranches? levels text = some branches →
        branches ≠ [] ∧ everywhereInAny P branches := by
    intro levels text branches hr
    refine readBranches?_induction (motive := fun bs => bs ≠ [] ∧ everywhereInAny P bs)
      ⟨by simp, trivial, trivial⟩ ?bar ?atom ?group hr
    case bar => exact fun bs hbs => ⟨by simp, trivial, hbs.2⟩
    case atom =>
      intro c text a bs ha hbs
      have hleaf : a.isLeaf = true := Element.isLeaf_of_read (by rwa [← Lexeme.element_read])
      exact ⟨by cases bs <;> simp [prepend], everywhereInAny_prepend
        ⟨atom c text a ha, Atom.everywhere_of_isLeaf hleaf⟩ hbs.2⟩
    case group =>
      intro c text body inner bs hb hinner hbs
      exact ⟨by cases bs <;> simp [prepend], everywhereInAny_prepend
        ⟨group c text body _ hb, everywhereInAll_ofBranches hinner.1
          (fun _ => choice inner hinner.1) hinner.2⟩ hbs.2⟩
  unfold Sequence.read at h
  split at h
  · rename_i branches hr
    cases h
    exact everywhereInAll_ofBranches (key hr).1 (fun _ => choice branches (key hr).1) (key hr).2
  · cases h

end Reading

/-! ## Sound patterns -/

/-- A piece whose repetition can be met and stands only where one may be written, and which
offers a branch if it is alternatives. -/
structure Piece.Sound (p : Piece) : Prop where
  least_le_most : ∀ r m, p.times = some r → r.most = .upTo m → r.least ≤ m
  times_eq_none : p.atom.isRepeatable = false → p.times = none
  branches_ne_nil : ∀ branches, p.atom = .choice branches → branches ≠ []

/-- Every piece of a sequence is sound, at every depth. -/
def Sequence.Sound (s : Sequence) : Prop := s.Everywhere Piece.Sound

/-- A lexeme has a repetition only if one is read after an element that may have one. -/
theorem Lexeme.of_times_read {c : Char} {text : Text} {r : Repetition}
    (h : (read c text).times = some r) :
    (read c text).element.isRepeatable = true ∧
      ∃ after, Repetition.read? (Element.read c text).2 = some (r, after) := by
  rw [element_read]
  simp only [read] at h
  split at h
  · cases h
  · rename_i hmark
    split at h
    · rename_i q after hq
      cases h
      have hrep : (Element.read c text).1.isRepeatable = true := by
        by_cases hr : (Element.read c text).1.isRepeatable
        · exact hr
        · exact absurd (Or.inr (by simpa using hr)) hmark
      exact ⟨hrep, after, hq⟩
    · cases h

theorem Lexeme.least_le_of_times {c : Char} {text : Text} {r : Repetition} {m : Nat}
    (h : (read c text).times = some r) (hm : r.most = .upTo m) : r.least ≤ m := by
  obtain ⟨-, after, hread⟩ := of_times_read h
  exact Repetition.least_le_of_read? hread hm

theorem Lexeme.times_eq_none {c : Char} {text : Text}
    (h : (read c text).element.isRepeatable = false) : (read c text).times = none := by
  cases hr : (read c text).times with
  | none => rfl
  | some r => exact absurd (of_times_read hr).1 (by simp [h])

/-- **Everything that is read is sound.** -/
theorem Sequence.sound_of_read {text : Text} {limit : Nat} {s : Sequence}
    (h : Sequence.read text limit = .ok s) : s.Sound := by
  refine Sequence.everywhere_of_read ?atom ?group ?choice h
  case atom =>
    intro c text a ha
    refine ⟨fun r m hr hm => Lexeme.least_le_of_times hr hm, ?_, ?_⟩
    · intro hrep
      exact Lexeme.times_eq_none (by rw [ha]; exact hrep)
    · rintro branches rfl
      have := Element.isLeaf_of_read (by rwa [← Lexeme.element_read])
      exact absurd this (by simp [Atom.isLeaf])
  case group =>
    intro c text body inner _
    exact ⟨fun r m hr hm => Lexeme.least_le_of_times hr hm, by simp [Atom.isRepeatable], by simp⟩
  case choice =>
    intro branches hne
    refine ⟨by simp, fun _ => rfl, ?_⟩
    rintro bs h
    cases h
    exact hne

end InputMask
