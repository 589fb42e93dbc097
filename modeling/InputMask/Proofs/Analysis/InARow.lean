import InputMask.Layout.OfPattern
import InputMask.Proofs.Analysis.Longest
import InputMask.Proofs.Analysis.Shortest

/-!
# Walks over pieces in a row

Each walk over the pieces of a sequence can be taken in two parts: what it finds in pieces that
are followed by others is put together from what it finds in the one and in the other. For
lengths and places that takes sums that are associative although they are held at the ceiling;
for openings, that what is not complete is not extended.

* `longestOfAll_append`, `shortestOfAll_append` — lengths.
* `inventoryOfAll_append` — literals and their places. `next_le_of_inventoryOfAll`: places stay
  counts.
* `openingOfAll_append` — openings.
* `fixedTextOfAll_append`, `stepsOfAll_append` — the one text, and the steps of a layout.
-/

namespace InputMask

/-! ## Lengths -/

namespace Extent

theorem ofNat_add_upTo (m n : Nat) : (ofNat m).add (upTo n) = ofNat (m + n) := by
  by_cases hm : m ≤ Count.ceiling
  · rw [ofNat, if_pos hm, upTo_add_upTo]
  · rw [ofNat, if_neg hm, endless_add, ofNat, if_neg (by omega)]

theorem upTo_add_ofNat (m n : Nat) : (upTo m).add (ofNat n) = ofNat (m + n) := by
  by_cases hn : n ≤ Count.ceiling
  · rw [ofNat, if_pos hn, upTo_add_upTo]
  · rw [ofNat, if_neg hn, add_endless, ofNat, if_neg (by omega)]

/-- What is longer than any count stays so, whichever sum is taken first. -/
theorem add_assoc (e f g : Extent) : (e.add f).add g = e.add (f.add g) := by
  match e, f, g with
  | upTo a, upTo b, upTo c =>
    rw [upTo_add_upTo, upTo_add_upTo, ofNat_add_upTo, upTo_add_ofNat, Nat.add_assoc]
  | endless, _, _ => simp only [endless_add]
  | _, endless, _ => simp only [endless_add, add_endless]
  | _, _, endless => simp only [add_endless]

end Extent

theorem Count.add_assoc (a b c : Nat) : add (add a b) c = add a (add b c) := by
  simp only [add]
  omega

theorem Count.add_zero {a : Nat} (h : a ≤ ceiling) : add a 0 = a :=
  Nat.min_eq_left h

theorem upTo_zero_add_longestOfAll (pieces : List Piece) :
    (Extent.upTo 0).add (longestOfAll pieces) = longestOfAll pieces := by
  cases h : longestOfAll pieces with
  | endless => rfl
  | upTo n =>
    rw [Extent.upTo_add_upTo, Nat.zero_add, Extent.ofNat_eq_upTo]
    exact ⟨rfl, le_ceiling_of_longestOfAll h⟩

theorem longestOfAll_append (front back : List Piece) :
    longestOfAll (front ++ back) = (longestOfAll front).add (longestOfAll back) := by
  induction front with
  | nil => exact (upTo_zero_add_longestOfAll back).symm
  | cons piece front ih =>
    rw [List.cons_append, longestOfAll, longestOfAll, ih, Extent.add_assoc]

theorem shortestOfAll_append (front back : List Piece) :
    shortestOfAll (front ++ back) = Count.add (shortestOfAll front) (shortestOfAll back) := by
  induction front with
  | nil =>
    rw [List.nil_append, shortestOfAll, Count.add, Nat.zero_add]
    exact (Nat.min_eq_left (shortestOfAll_le_ceiling back)).symm
  | cons piece front ih =>
    rw [List.cons_append, shortestOfAll, shortestOfAll, ih, Count.add_assoc]

/-! ## Literals -/

theorem inventoryOfAll_append (position : Nat) (front back : List Piece) :
    inventoryOfAll position (front ++ back) = do
      let found ← inventoryOfAll position front
      let others ← inventoryOfAll found.2 back
      return (found.1 ++ others.1, others.2) := by
  induction front generalizing position with
  | nil =>
    show inventoryOfAll position back = do
      let others ← inventoryOfAll position back
      return ([] ++ others.1, others.2)
    cases inventoryOfAll position back <;> rfl
  | cons piece front ih =>
    simp only [List.cons_append, inventoryOfAll, ih, bind_assoc, pure_bind, List.append_assoc]

mutual

/-- The place after a piece is a count. -/
theorem Piece.next_le_of_inventory : ∀ (piece : Piece) {position next : Nat}
    {entries : List PlacedText}, position ≤ Count.ceiling →
    piece.inventory position = .ok (entries, next) → next ≤ Count.ceiling
  | ⟨.literal written meant, times⟩, position, next, entries, _, h => by
    rw [Piece.inventory] at h
    obtain ⟨text, -, h⟩ := TextError.bind_eq_ok.1 h
    cases h
    exact Nat.min_le_right _ _
  | ⟨.group body, times⟩, position, next, entries, hle, h => by
    rw [Piece.inventory] at h
    split at h
    · exact next_le_of_inventoryOfAll body hle h
    · cases h
      exact Nat.min_le_right _ _
  | ⟨.charClass _, _⟩, position, next, entries, _, h | ⟨.choice _, _⟩, position, next, entries, _, h
  | ⟨.anchor _, _⟩, position, next, entries, _, h
  | ⟨.lookaround _, _⟩, position, next, entries, _, h => by
    cases h
    exact Nat.min_le_right _ _

/-- The place after pieces is a count. -/
theorem next_le_of_inventoryOfAll : ∀ (pieces : List Piece) {position next : Nat}
    {entries : List PlacedText}, position ≤ Count.ceiling →
    inventoryOfAll position pieces = .ok (entries, next) → next ≤ Count.ceiling
  | [], position, next, entries, hle, h => by
    cases h
    exact hle
  | piece :: rest, position, next, entries, hle, h => by
    rw [inventoryOfAll] at h
    obtain ⟨⟨front, mid⟩, hfront, h⟩ := TextError.bind_eq_ok.1 h
    obtain ⟨⟨back, last⟩, hback, h⟩ := TextError.bind_eq_ok.1 h
    cases h
    exact next_le_of_inventoryOfAll rest (piece.next_le_of_inventory hle hfront) hback

end

/-! ## Openings -/

namespace Opening

theorem followedBy_assoc (o p q : Opening) :
    (o.followedBy p).followedBy q = o.followedBy (p.followedBy q) := by
  by_cases ho : o.complete = true
  · by_cases hp : p.complete = true
    · simp [followedBy, ho, hp, List.append_assoc]
    · simp [followedBy, ho, hp]
  · simp [followedBy, ho]

end Opening

theorem openingOfAll_append (front back : List Piece) :
    openingOfAll (front ++ back) = (openingOfAll front).followedBy (openingOfAll back) := by
  induction front with
  | nil => rfl
  | cons piece front ih =>
    rw [List.cons_append, openingOfAll, openingOfAll, ih, Opening.followedBy_assoc]

/-! ## Layouts -/

/-- The one text of two things in a row, of which the first decides if it has none. What the second
one gives may depend on the text in front of it. -/
def bothTexts (first : Except TextError (Option Text))
    (next : Text → Except TextError (Option Text)) : Except TextError (Option Text) := do
  match ← first with
  | none => return none
  | some text =>
    match ← next text with
    | none => return none
    | some others => return some (text ++ others)

theorem bothTexts_some {text : Text} {next : Text → Except TextError (Option Text)} :
    bothTexts (.ok (some text)) next = Option.map (text ++ ·) <$> next text := by
  show (next text >>= _) = _
  rcases next text with _ | _ | others <;> rfl

theorem bothTexts_assoc (x : Except TextError (Option Text))
    (y z : Text → Except TextError (Option Text)) :
    bothTexts (bothTexts x y) z =
      bothTexts x fun text => bothTexts (y text) fun others => z (text ++ others) := by
  rcases x with _ | _ | front
  · rfl
  · rfl
  · rw [bothTexts_some, bothTexts_some]
    rcases y front with _ | _ | mid
    · rfl
    · rfl
    · rw [bothTexts_some]
      show bothTexts (.ok (some (front ++ mid))) z = _
      rw [bothTexts_some]
      rcases z (front ++ mid) with _ | _ | back
      · rfl
      · rfl
      · exact congrArg (fun text => Except.ok (some text)) (List.append_assoc front mid back)

theorem fixedTextOfAll_cons (used : Nat) (piece : Piece) (rest : List Piece) :
    fixedTextOfAll used (piece :: rest) = bothTexts (fixedTextOfAll used [piece]) fun text =>
      fixedTextOfAll (used + text.bytes) rest := by
  rw [fixedTextOfAll, fixedTextOfAll, bothTexts, bind_assoc]
  refine bind_congr fun found => ?_
  cases found with
  | none => rfl
  | some front =>
    dsimp only
    rw [bind_assoc]
    refine bind_congr fun put => ?_
    rw [fixedTextOfAll, pure_bind]
    dsimp only
    rw [List.append_nil]
    rfl

theorem fixedTextOfAll_append (used : Nat) (front back : List Piece) :
    fixedTextOfAll used (front ++ back) = bothTexts (fixedTextOfAll used front) fun text =>
      fixedTextOfAll (used + text.bytes) back := by
  induction front generalizing used with
  | nil =>
    refine Eq.trans ?_ bothTexts_some.symm
    show fixedTextOfAll used back = Option.map ([] ++ ·) <$> fixedTextOfAll used back
    rcases fixedTextOfAll used back with _ | _ | text <;> rfl
  | cons piece front ih =>
    rw [List.cons_append, fixedTextOfAll_cons, fixedTextOfAll_cons used piece front,
      bothTexts_assoc]
    simp only [ih, Text.bytes_append, Nat.add_assoc]

theorem stepsOfAll_append (limit : Nat) (front back : List Piece) :
    stepsOfAll limit (front ++ back) = do
      return (← stepsOfAll limit front) ++ (← stepsOfAll limit back) := by
  induction front with
  | nil =>
    rw [List.nil_append, stepsOfAll, pure_bind]
    cases stepsOfAll limit back <;> rfl
  | cons piece front ih =>
    simp only [List.cons_append, stepsOfAll, ih, bind_assoc, pure_bind, List.append_assoc]

end InputMask
