import InputMask.Analysis.Basic
import InputMask.Proofs.Analysis.Opening
import InputMask.Proofs.Pattern.FixedText

/-!
# Literals stand at their places

The places in an inventory are places in the longest matches. In a longest match every piece
takes up as much as it can, so what stands in front of a literal is always equally long.
An inventory is only missing where one of its texts would be too long.

* `PlacedText.LiesIn` — a literal stands at its place in a text.
* `Inventory.Between` — literals in order, none overlapping the next.
* `Inventory.Places` — what an inventory says of the longest texts of a language, with one
  lemma for what follows one another, `Places.mul`, and one for a single literal,
  `Places.entry`.
* `inventoryOfAll_places` — inventories of sound pieces say this of what the pieces match.
* `Analysis.literals_at_places` — the same for every pattern that is read.
* `Analysis.exists_ofSequence_iff` — there is an inventory, and with it an analysis, exactly if
  all texts of the inventory can be held.
-/

namespace InputMask

/-- A literal stands at its place in a text whose own place is `first`. -/
def PlacedText.LiesIn (first : Nat) (w : Text) (e : PlacedText) : Prop :=
  ∃ front back, w = front ++ e.text ++ back ∧ e.position = first + front.length

/-- A literal in the first part of a text stands in the text. -/
theorem PlacedText.LiesIn.append_right {first : Nat} {u : Text} {e : PlacedText}
    (h : e.LiesIn first u) (v : Text) : e.LiesIn first (u ++ v) := by
  obtain ⟨front, back, rfl, hposition⟩ := h
  exact ⟨front, back ++ v, by simp only [List.append_assoc], hposition⟩

/-- A literal in the second part of a text stands in the text. -/
theorem PlacedText.LiesIn.append_left {first : Nat} {v : Text} {e : PlacedText} (u : Text)
    (h : e.LiesIn (first + u.length) v) : e.LiesIn first (u ++ v) := by
  obtain ⟨front, back, rfl, hposition⟩ := h
  refine ⟨u ++ front, back, by simp only [List.append_assoc], ?_⟩
  rw [hposition, List.length_append, Nat.add_assoc]

namespace Inventory

/-- Literals from one place to another, in order, none of which begins before the one in front of it
has ended. -/
def Between (first last : Nat) : List PlacedText → Prop
  | [] => first ≤ last
  | e :: rest => first ≤ e.position ∧ Between (e.position + e.text.length) last rest

theorem Between.append {first mid last : Nat} {xs ys : List PlacedText} (hx : Between first mid xs)
    (hy : Between mid last ys) : Between first last (xs ++ ys) := by
  induction xs generalizing first with
  | nil =>
    cases ys with
    | nil => exact Nat.le_trans hx hy
    | cons e rest => exact ⟨Nat.le_trans hx hy.1, hy.2⟩
  | cons e rest ih => exact ⟨hx.1, ih hx.2⟩

theorem Between.first_le {first last : Nat} {xs : List PlacedText} (h : Between first last xs) :
    ∀ e ∈ xs, first ≤ e.position := by
  induction xs generalizing first with
  | nil =>
    intro e he
    cases he
  | cons d rest ih =>
    intro e he
    rcases List.mem_cons.1 he with rfl | he
    · exact h.1
    · have hnext := ih h.2 e he
      have hfirst := h.1
      omega

theorem Between.pairwise {first last : Nat} {xs : List PlacedText} (h : Between first last xs) :
    xs.Pairwise fun e f => e.position + e.text.length ≤ f.position := by
  induction xs generalizing first with
  | nil => exact .nil
  | cons e rest ih => exact .cons h.2.first_le (ih h.2)

theorem Between.first_le_last {first last : Nat} {xs : List PlacedText}
    (h : Between first last xs) : first ≤ last := by
  induction xs generalizing first with
  | nil => exact h
  | cons e rest ih =>
    have hnext := ih h.2
    have hfirst := h.1
    omega

theorem Between.le_last {first last : Nat} {xs : List PlacedText} (h : Between first last xs) :
    ∀ e ∈ xs, e.position + e.text.length ≤ last := by
  induction xs generalizing first with
  | nil =>
    intro e he
    cases he
  | cons d rest ih =>
    intro e he
    rcases List.mem_cons.1 he with rfl | he
    · exact h.2.first_le_last
    · exact ih h.2 e he

/-! ## What an inventory says of a language -/

/-- Literals of something at the place `first` that is `length` characters long at most: they lie
between its ends, and every match of that length has them at their places. -/
structure Places (l : Language Char) (first length : Nat) (entries : List PlacedText)
    (next : Nat) : Prop where
  next_eq : next = first + length
  between : Between first next entries
  lies : ∀ w ∈ l, w.length = length → ∀ e ∈ entries, e.LiesIn first w

/-- Without literals there is nothing to say. -/
theorem Places.nothing (l : Language Char) (first length : Nat) :
    Places l first length [] (first + length) where
  next_eq := rfl
  between := Nat.le_add_right first length
  lies w _ _ e he := by cases he

/-- One after another: a longest match has a longest match of each part in it. -/
theorem Places.mul {l k : Language Char} {first mid last a b : Nat} {xs ys : List PlacedText}
    (hx : Places l first a xs mid) (hy : Places k mid b ys last) (hl : (Extent.upTo a).Measures l)
    (hk : (Extent.upTo b).Measures k) : Places (l * k) first (a + b) (xs ++ ys) last where
  next_eq := by rw [hy.next_eq, hx.next_eq, Nat.add_assoc]
  between := hx.between.append hy.between
  lies := by
    intro w hw hlength e he
    obtain ⟨u, hu, v, hv, rfl⟩ := Language.mem_mul.1 hw
    obtain ⟨rfl, rfl⟩ := hl.length_eq_of_append hk hu hv hlength
    rcases List.mem_append.1 he with he | he
    · exact (hx.lies u hu rfl e he).append_right v
    · refine .append_left u ?_
      rw [← hx.next_eq]
      exact hy.lies v hv rfl e he

/-- A single literal that is all that can be matched, or nothing. -/
theorem Places.entry {l : Language Char} {text : Text} (first : Nat) {length : Nat}
    (hlong : ∃ w ∈ l, w.length = length) (h : text = [] ∨ l = {text}) :
    Places l first length (entry text first) (first + length) := by
  by_cases htext : text = []
  · rw [htext]
    exact .nothing l first length
  · obtain rfl := h.resolve_left htext
    obtain ⟨w, rfl, rfl⟩ := hlong
    have hentry : Inventory.entry w first = [⟨w, first⟩] := by
      simp [Inventory.entry, htext]
    rw [hentry]
    refine ⟨rfl, ⟨Nat.le_refl first, Nat.le_refl _⟩, ?_⟩
    intro v hv _ e he
    obtain rfl : v = w := hv
    obtain rfl := List.mem_singleton.1 he
    exact ⟨[], [], by simp, rfl⟩

/-- The text that a literal is sure to show, if there is any, is all that it matches. -/
theorem sureText_eq {meant text : Text} {times : Option Repetition}
    (h : sureText meant times = .ok text) :
    text = [] ∨ Repetition.language times {meant} = {text} := by
  unfold sureText at h
  split at h
  · rename_i honce
    obtain rfl := Except.ok.inj h
    exact Or.inr (Repetition.language_of_isOnce honce _)
  · split at h
    · rename_i n hn
      have hcount : Repetition.count? times = some n := by
        cases times with
        | none => cases hn
        | some r => exact hn
      right
      rw [Repetition.language_of_count? hcount, Text.singleton_pow, Text.eq_copies_of_repeated h]
    · exact Or.inl (Except.ok.inj h).symm

theorem after_eq {position m : Nat} {piece : Piece} (hm : piece.longest = .upTo m)
    (hle : position + m ≤ Count.ceiling) : after position piece = position + m := by
  rw [after, hm]
  exact Nat.min_eq_left hle

/-- A piece of which nothing is noted. -/
theorem Places.skip (l : Language Char) {position m : Nat} {piece : Piece}
    (hm : piece.longest = .upTo m) (hle : position + m ≤ Count.ceiling) :
    Places l position m [] (after position piece) := by
  rw [after_eq hm hle]
  exact .nothing l position m

end Inventory

/-! ## The inventory of a pattern -/

open Inventory

theorem Sequence.inventory_eq_ok {s : Sequence} {entries : List PlacedText}
    (h : s.inventory = .ok entries) : ∃ next, inventoryOfAll 0 s = .ok (entries, next) := by
  unfold Sequence.inventory at h
  cases hall : inventoryOfAll 0 s with
  | error e =>
    rw [hall] at h
    cases h
  | ok found =>
    rw [hall] at h
    cases h
    exact ⟨found.2, rfl⟩

mutual

/-- What the inventory of a sound piece says of its longest matches is so. -/
theorem Piece.inventory_places : ∀ (piece : Piece) (position : Nat) (entries : List PlacedText)
    (next m : Nat), piece.Everywhere Piece.Sound → piece.longest = .upTo m →
    position + m ≤ Count.ceiling → piece.inventory position = .ok (entries, next) →
    Places (piece.language fun _ => True) position m entries next
  | ⟨.literal written meant, times⟩, position, entries, next, m, hs, hm, hle, h => by
    rw [Piece.inventory] at h
    obtain ⟨text, htext, h⟩ := TextError.bind_eq_ok.1 h
    cases h
    have hlong : (Extent.upTo m).Measures (Piece.language (fun _ => True)
        ⟨.literal written meant, times⟩) := hm ▸ Piece.measures_longest (c := 'a') trivial _ hs
    rw [after_eq hm hle]
    exact .entry position hlong.1 (sureText_eq htext)
  | ⟨.group body, times⟩, position, entries, next, m, hs, hm, hle, h => by
    rw [Piece.inventory] at h
    split at h
    · rename_i honce
      have hbody : longestOfAll body = .upTo m :=
        Repetition.eq_upTo_of_atMostOnce (Repetition.isAtMostOnce_of_isOnce honce) hm
      rw [Piece.language, Repetition.language_of_isOnce honce]
      exact inventoryOfAll_places body position entries next m hs.2 hbody hle h
    · cases h
      exact .skip _ hm hle
  | ⟨.charClass _, _⟩, position, entries, next, m, _, hm, hle, h => by
    cases h
    exact .skip _ hm hle
  | ⟨.choice _, _⟩, position, entries, next, m, _, hm, hle, h => by
    cases h
    exact .skip _ hm hle
  | ⟨.anchor _, _⟩, position, entries, next, m, _, hm, hle, h => by
    cases h
    exact .skip _ hm hle
  | ⟨.lookaround _, _⟩, position, entries, next, m, _, hm, hle, h => by
    cases h
    exact .skip _ hm hle

/-- What the inventory of sound pieces says of their longest matches is so. -/
theorem inventoryOfAll_places : ∀ (pieces : List Piece) (position : Nat)
    (entries : List PlacedText) (next m : Nat), everywhereInAll Piece.Sound pieces →
    longestOfAll pieces = .upTo m → position + m ≤ Count.ceiling →
    inventoryOfAll position pieces = .ok (entries, next) →
    Places (languageOfAll (fun _ => True) pieces) position m entries next
  | [], position, entries, next, m, _, hm, _, h => by
    cases h
    cases hm
    exact .nothing _ position 0
  | piece :: rest, position, entries, next, m, hs, hm, hle, h => by
    rw [longestOfAll] at hm
    obtain ⟨a, b, ha, hb, rfl, -⟩ := Extent.add_eq_upTo hm
    rw [inventoryOfAll] at h
    obtain ⟨⟨front, mid⟩, hfront, h⟩ := TextError.bind_eq_ok.1 h
    obtain ⟨⟨back, last⟩, hback, h⟩ := TextError.bind_eq_ok.1 h
    cases h
    have hpiece := Piece.inventory_places piece position front mid a hs.1 ha (by omega) hfront
    have hmid : mid = position + a := hpiece.next_eq
    have hrest := inventoryOfAll_places rest mid back next b hs.2 hb (by omega) hback
    exact hpiece.mul hrest (ha ▸ Piece.measures_longest (c := 'a') trivial piece hs.1)
      (hb ▸ measures_longestOfAll (c := 'a') trivial rest hs.2)

end

/-- **Literals stand at their places in every longest match**, and they are in order: each ends
before the next begins, and the last before the match ends. -/
theorem Analysis.literals_at_places {text : Text} {depth : Nat} {s : Sequence}
    (h : Sequence.read text depth = .ok s) {m : Nat} (hm : s.longest = .upTo m) {a : Analysis}
    (ha : Analysis.ofSequence s = .ok a) :
    (∀ e ∈ a.literals, ∀ w ∈ s.language, w.length = m → e.text <+: w.drop e.position) ∧
    a.literals.Pairwise (fun e f => e.position + e.text.length ≤ f.position) ∧
    ∀ e ∈ a.literals, e.position + e.text.length ≤ m := by
  obtain ⟨literals, hliterals, ha⟩ := TextError.bind_eq_ok.1 ha
  obtain rfl := Except.ok.inj ha
  obtain ⟨next, hinventory⟩ := Sequence.inventory_eq_ok hliterals
  have hle : 0 + m ≤ Count.ceiling := by
    rw [Nat.zero_add]
    exact le_ceiling_of_longestOfAll hm
  have hplaces := inventoryOfAll_places s 0 literals next m (Sequence.sound_of_read h) hm hle
    hinventory
  have hnext : next = m := by rw [hplaces.next_eq, Nat.zero_add]
  refine ⟨?_, hplaces.between.pairwise, hnext ▸ hplaces.between.le_last⟩
  intro e he w hw hlength
  obtain ⟨front, back, rfl, hposition⟩ := hplaces.lies w hw hlength e he
  rw [hposition, Nat.zero_add, List.append_assoc, List.drop_left]
  exact List.prefix_append e.text back

/-- Text in a group after an optional choice, and repeated text after it. -/
theorem Analysis.literals_at_places_after_choice :
    ∃ s a, Sequence.read "(ab|c)?(-\\d)y{2}".toList 64 = .ok s ∧
      Analysis.ofSequence s = .ok a ∧ a.literals = [⟨['-'], 2⟩, ⟨['y', 'y'], 4⟩] ∧
      ['a', 'b', '-', '1', 'y', 'y'] ∈ s.language ∧
      ['y', 'y'] <+: ['a', 'b', '-', '1', 'y', 'y'].drop 4 := by
  have h : Sequence.read "(ab|c)?(-\\d)y{2}".toList 64 =
      .ok [⟨.group [⟨.choice [[⟨.plain ['a'], none⟩, ⟨.plain ['b'], none⟩],
          [⟨.plain ['c'], none⟩]], none⟩], some ⟨0, .upTo 1⟩⟩,
        ⟨.group [⟨.plain ['-'], none⟩, ⟨.charClass "\\d".toList, none⟩], none⟩,
        ⟨.plain ['y'], some ⟨2, .upTo 2⟩⟩] := by cbv
  have ha : Analysis.ofSequence [⟨.group [⟨.choice [[⟨.plain ['a'], none⟩, ⟨.plain ['b'], none⟩],
          [⟨.plain ['c'], none⟩]], none⟩], some ⟨0, .upTo 1⟩⟩,
        ⟨.group [⟨.plain ['-'], none⟩, ⟨.charClass "\\d".toList, none⟩], none⟩,
        ⟨.plain ['y'], some ⟨2, .upTo 2⟩⟩] =
      .ok ⟨.upTo 6, 4, [⟨['-'], 2⟩, ⟨['y', 'y'], 4⟩]⟩ := by cbv
  have hchoice : ['a', 'b'] ∈ Piece.language (fun _ => True)
      ⟨.group [⟨.choice [[⟨.plain ['a'], none⟩, ⟨.plain ['b'], none⟩],
        [⟨.plain ['c'], none⟩]], none⟩], some ⟨0, .upTo 1⟩⟩ := by
    have honce : Repetition.isAtMostOnce (some ⟨0, .upTo 1⟩) = true := rfl
    rw [Piece.language]
    refine Repetition.mem_language_of_isAtMostOnce honce (fun r m hr _ => ?_) ?_
    · obtain rfl := Option.some.inj hr
      exact Nat.zero_le m
    · exact Language.append_mem_mul (a := ['a', 'b']) (Or.inl (Language.append_mem_mul (a := ['a'])
        rfl (Language.append_mem_mul (a := ['b']) rfl Language.nil_mem_one))) Language.nil_mem_one
  have hgroup : ['-', '1'] ∈ Piece.language (fun _ => True)
      ⟨.group [⟨.plain ['-'], none⟩, ⟨.charClass "\\d".toList, none⟩], none⟩ :=
    Language.append_mem_mul (a := ['-']) rfl
      (Language.append_mem_mul (a := ['1']) ⟨'1', trivial, rfl⟩ Language.nil_mem_one)
  have hrepeated : ['y', 'y'] ∈ Piece.language (fun _ => True)
      ⟨.plain ['y'], some ⟨2, .upTo 2⟩⟩ := by
    rw [Piece.language, Repetition.language_of_count? (n := 2) rfl]
    show ['y', 'y'] ∈ ({['y']} : Language Char) ^ 2
    rw [Text.singleton_pow]
    rfl
  have hw : ['a', 'b', '-', '1', 'y', 'y'] ∈ Sequence.language
      [⟨.group [⟨.choice [[⟨.plain ['a'], none⟩, ⟨.plain ['b'], none⟩],
          [⟨.plain ['c'], none⟩]], none⟩], some ⟨0, .upTo 1⟩⟩,
        ⟨.group [⟨.plain ['-'], none⟩, ⟨.charClass "\\d".toList, none⟩], none⟩,
        ⟨.plain ['y'], some ⟨2, .upTo 2⟩⟩] :=
    Language.append_mem_mul hchoice (Language.append_mem_mul hgroup
      (Language.append_mem_mul hrepeated Language.nil_mem_one))
  obtain ⟨hplaces, -⟩ := Analysis.literals_at_places h (m := 6) (by decide) ha
  exact ⟨_, _, h, ha, rfl, hw, hplaces ⟨['y', 'y'], 4⟩ (by simp) _ hw rfl⟩

/-! ## Whether there is an inventory -/

/-- Whether the text that a literal is sure to show can be held. -/
def Inventory.literalFits (meant : Text) (times : Option Repetition) : Bool :=
  Repetition.isOnce times ||
    (times.bind (·.fixedCount?)).all fun n => meant.bytes * n ≤ Text.capacity

theorem Inventory.exists_sureText_iff {meant : Text} {times : Option Repetition} :
    (∃ text, sureText meant times = .ok text) ↔ literalFits meant times = true := by
  unfold sureText literalFits
  by_cases honce : Repetition.isOnce times = true
  · simp [honce]
  · cases hn : times.bind (·.fixedCount?) with
    | none => simp [honce]
    | some n => by_cases hn : meant.bytes * n ≤ Text.capacity <;> simp [honce, Text.repeated, hn]

mutual

/-- Whether all texts that the inventory of a piece notes can be held. -/
def Piece.literalsFit : Piece → Bool
  | ⟨.literal _ meant, times⟩ => Inventory.literalFits meant times
  | ⟨.group body, times⟩ => !Repetition.isOnce times || literalsFitInAll body
  | _ => true

/-- Whether all texts that the inventory of pieces notes can be held. -/
def literalsFitInAll : List Piece → Bool
  | [] => true
  | piece :: rest => piece.literalsFit && literalsFitInAll rest

end

/-- Whether all texts that the inventory of a sequence notes can be held. -/
def Sequence.literalsFit (s : Sequence) : Bool := literalsFitInAll s

mutual

theorem Piece.exists_inventory_iff : ∀ (piece : Piece) (position : Nat),
    (∃ found, piece.inventory position = .ok found) ↔ piece.literalsFit = true
  | ⟨.literal written meant, times⟩, position => by
    rw [Piece.literalsFit, ← exists_sureText_iff]
    constructor
    · rintro ⟨found, h⟩
      obtain ⟨text, htext, -⟩ := TextError.bind_eq_ok.1 h
      exact ⟨text, htext⟩
    · rintro ⟨text, htext⟩
      exact ⟨_, TextError.bind_eq_ok.2 ⟨text, htext, rfl⟩⟩
  | ⟨.group body, times⟩, position => by
    rw [Piece.inventory, Piece.literalsFit]
    by_cases honce : Repetition.isOnce times = true
    · simpa [honce] using exists_inventoryOfAll_iff body position
    · rw [if_neg honce]
      simp only [honce, Bool.not_false, Bool.true_or, iff_true]
      exact ⟨_, rfl⟩
  | ⟨.charClass _, _⟩, _ => ⟨fun _ => rfl, fun _ => ⟨_, rfl⟩⟩
  | ⟨.choice _, _⟩, _ => ⟨fun _ => rfl, fun _ => ⟨_, rfl⟩⟩
  | ⟨.anchor _, _⟩, _ => ⟨fun _ => rfl, fun _ => ⟨_, rfl⟩⟩
  | ⟨.lookaround _, _⟩, _ => ⟨fun _ => rfl, fun _ => ⟨_, rfl⟩⟩

theorem exists_inventoryOfAll_iff : ∀ (pieces : List Piece) (position : Nat),
    (∃ found, inventoryOfAll position pieces = .ok found) ↔ literalsFitInAll pieces = true
  | [], _ => ⟨fun _ => rfl, fun _ => ⟨_, rfl⟩⟩
  | piece :: rest, position => by
    rw [literalsFitInAll, Bool.and_eq_true, ← Piece.exists_inventory_iff piece position]
    constructor
    · rintro ⟨found, h⟩
      obtain ⟨⟨front, next⟩, hfront, h⟩ := TextError.bind_eq_ok.1 h
      obtain ⟨back, hback, -⟩ := TextError.bind_eq_ok.1 h
      exact ⟨⟨_, hfront⟩, (exists_inventoryOfAll_iff rest next).1 ⟨back, hback⟩⟩
    · rintro ⟨⟨⟨front, next⟩, hfront⟩, hrest⟩
      obtain ⟨back, hback⟩ := (exists_inventoryOfAll_iff rest next).2 hrest
      exact ⟨_, TextError.bind_eq_ok.2 ⟨_, hfront, TextError.bind_eq_ok.2 ⟨back, hback, rfl⟩⟩⟩

end

/-- There is an inventory exactly if all its texts can be held. -/
theorem Sequence.exists_inventory_iff (s : Sequence) :
    (∃ entries, s.inventory = .ok entries) ↔ s.literalsFit = true := by
  rw [Sequence.literalsFit, ← exists_inventoryOfAll_iff s 0]
  constructor
  · rintro ⟨entries, h⟩
    obtain ⟨next, hnext⟩ := Sequence.inventory_eq_ok h
    exact ⟨_, hnext⟩
  · rintro ⟨found, h⟩
    exact ⟨found.1, by rw [Sequence.inventory, h]; rfl⟩

/-- There is an analysis exactly if there is an inventory. -/
theorem Analysis.exists_ofSequence_iff (s : Sequence) :
    (∃ a, Analysis.ofSequence s = .ok a) ↔ s.literalsFit = true := by
  rw [← Sequence.exists_inventory_iff]
  constructor
  · rintro ⟨a, ha⟩
    obtain ⟨literals, hliterals, -⟩ := TextError.bind_eq_ok.1 ha
    exact ⟨literals, hliterals⟩
  · rintro ⟨literals, hliterals⟩
    exact ⟨_, TextError.bind_eq_ok.2 ⟨literals, hliterals, rfl⟩⟩

end InputMask
