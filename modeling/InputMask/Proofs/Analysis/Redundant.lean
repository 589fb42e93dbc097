import InputMask.Analysis.Basic
import InputMask.Proofs.Analysis.InARow
import InputMask.Proofs.Pattern.Bare

/-!
# Redundant syntax changes nothing

What is found out about a pattern is found out about its bare tree: lengths, literals and their
places, the opening, and the layout at every limit.

* `Alike` — two sequences between which no walk tells a difference. Sequences stay alike inside
  others: `Alike.append`, `Alike.inGroup`, `Alike.inChoice`.
* `alike_zeroWidth`, `alike_once`, `alike_group` — each kind of redundant syntax by itself.
* `alike_bareOfAll` — a sound sequence is like its bare tree.
* `Sequence.bare_changes_nothing` — what this means for a pattern that is read.
-/

namespace InputMask

/-! ## Sequences that are alike -/

namespace TextError

variable {α β : Type}

/-- A computation gives whatever another one gives. -/
def Upholds (y x : Except TextError α) : Prop := ∀ a, x = .ok a → y = .ok a

theorem Upholds.rfl {x : Except TextError α} : Upholds x x := fun _ h => h

theorem Upholds.trans {x y z : Except TextError α} (hzy : Upholds z y) (hyx : Upholds y x) :
    Upholds z x :=
  fun a h => hzy a (hyx a h)

theorem Upholds.bind {x y : Except TextError α} {f g : α → Except TextError β}
    (h : Upholds y x) (hfg : ∀ a, Upholds (g a) (f a)) : Upholds (y >>= g) (x >>= f) := by
  intro b hb
  obtain ⟨a, ha, hb⟩ := bind_eq_ok.1 hb
  exact bind_eq_ok.2 ⟨a, h a ha, hfg a b hb⟩

theorem Upholds.inARow {x y : Except TextError (Option Text)}
    {f g : Text → Except TextError (Option Text)} (h : Upholds y x)
    (hfg : ∀ text, x = .ok (some text) → Upholds (g text) (f text)) :
    Upholds (bothTexts y g) (bothTexts x f) := by
  intro found hfound
  obtain ⟨first, hfirst, hrest⟩ := bind_eq_ok.1 hfound
  refine bind_eq_ok.2 ⟨first, h first hfirst, ?_⟩
  cases first with
  | none => exact hrest
  | some text => exact (hfg text hfirst).bind (fun _ => .rfl) found hrest

end TextError

open TextError (Upholds)

/-- No walk over the pieces tells a difference between two sequences; the second of them gives
texts and steps wherever the first does. It may do so where the first does not: text in a group is
put together by itself, and if the group turns out to have no fixed text, never put behind what
stands in front of it. -/
structure Alike (t s : List Piece) : Prop where
  longest : longestOfAll t = longestOfAll s
  shortest : shortestOfAll t = shortestOfAll s
  inventory : ∀ position ≤ Count.ceiling, inventoryOfAll position t = inventoryOfAll position s
  opening : openingOfAll t = openingOfAll s
  fixedText : ∀ used ≤ Text.capacity, Upholds (fixedTextOfAll used s) (fixedTextOfAll used t)
  steps : ∀ limit, Upholds (stepsOfAll limit s) (stepsOfAll limit t)

namespace Alike

theorem rfl {s : List Piece} : Alike s s :=
  ⟨.refl _, .refl _, fun _ _ => .refl _, .refl _, fun _ _ => .rfl, fun _ => .rfl⟩

theorem trans {r s t : List Piece} (hts : Alike t s) (hsr : Alike s r) : Alike t r where
  longest := hts.longest.trans hsr.longest
  shortest := hts.shortest.trans hsr.shortest
  inventory position hp := (hts.inventory position hp).trans (hsr.inventory position hp)
  opening := hts.opening.trans hsr.opening
  fixedText used hused := (hsr.fixedText used hused).trans (hts.fixedText used hused)
  steps limit := (hsr.steps limit).trans (hts.steps limit)

/-- What is alike in two parts is alike as a whole. -/
theorem append {s s' t t' : List Piece} (h : Alike t s) (h' : Alike t' s') :
    Alike (t ++ t') (s ++ s') where
  longest := by rw [longestOfAll_append, longestOfAll_append, h.longest, h'.longest]
  shortest := by rw [shortestOfAll_append, shortestOfAll_append, h.shortest, h'.shortest]
  inventory position hp := by
    rw [inventoryOfAll_append, inventoryOfAll_append, h.inventory position hp]
    cases hs : inventoryOfAll position s with
    | error e => rfl
    | ok found =>
      have hnext : found.2 ≤ Count.ceiling := next_le_of_inventoryOfAll s hp hs
      show (inventoryOfAll found.2 t' >>= _) = (inventoryOfAll found.2 s' >>= _)
      rw [h'.inventory found.2 hnext]
  opening := by rw [openingOfAll_append, openingOfAll_append, h.opening, h'.opening]
  fixedText used hused := by
    rw [fixedTextOfAll_append, fixedTextOfAll_append]
    refine (h.fixedText used hused).inARow fun text htext => ?_
    exact h'.fixedText _ (bytes_le_of_fixedText t hused htext)
  steps limit := by
    rw [stepsOfAll_append, stepsOfAll_append]
    exact (h.steps limit).bind fun _ => (h'.steps limit).bind fun _ => .rfl

/-- Two pieces are alike if they are so one by one; of their lengths only what they add to a sum
is looked at. -/
theorem single {p q : Piece} (hlongest : longestOfAll [p] = longestOfAll [q])
    (hshortest : shortestOfAll [p] = shortestOfAll [q])
    (hinventory : ∀ position, p.inventory position = q.inventory position)
    (hopening : p.opening = q.opening) (hfixed : Upholds q.fixedText p.fixedText)
    (hsteps : ∀ limit, Upholds (q.steps limit) (p.steps limit)) : Alike [p] [q] where
  longest := hlongest
  shortest := hshortest
  inventory position _ := by rw [inventoryOfAll, inventoryOfAll, hinventory]
  opening := by
    show p.opening.followedBy .empty = q.opening.followedBy .empty
    rw [hopening]
  fixedText used _ := by
    rw [fixedTextOfAll, fixedTextOfAll]
    exact hfixed.bind fun _ => .rfl
  steps limit := by
    rw [stepsOfAll, stepsOfAll]
    exact (hsteps limit).bind fun _ => .rfl

section

variable {a b : Atom} (times : Option Repetition)

theorem longestOfAll_single (h : a.longest = b.longest) :
    longestOfAll [⟨a, times⟩] = longestOfAll [⟨b, times⟩] :=
  congrArg (fun e => (Repetition.longest times e).add (.upTo 0)) h

theorem shortestOfAll_single (h : a.shortest = b.shortest) :
    shortestOfAll [⟨a, times⟩] = shortestOfAll [⟨b, times⟩] :=
  congrArg (fun n => Count.add (Repetition.shortest times n) 0) h

theorem after_eq (hlongest : a.longest = b.longest) (hshortest : a.shortest = b.shortest)
    (position : Nat) :
    Inventory.after position ⟨a, times⟩ = Inventory.after position ⟨b, times⟩ := by
  rw [Inventory.after, Inventory.after, Piece.longest, Piece.longest, Piece.shortest,
    Piece.shortest, hlongest, hshortest]

end

/-- A group that occurs as often as before is alike if its body is. -/
theorem inGroup {t s : List Piece} (h : Alike t s) {times : Option Repetition}
    (honce : Repetition.isOnce times = false) : Alike [⟨.group t, times⟩] [⟨.group s, times⟩] := by
  have hlongest : Atom.longest (.group t) = Atom.longest (.group s) := h.longest
  have hshortest : Atom.shortest (.group t) = Atom.shortest (.group s) := h.shortest
  refine .single (longestOfAll_single times hlongest) (shortestOfAll_single times hshortest)
    ?inventory ?opening ?fixedText ?steps
  case inventory =>
    intro position
    simp [Piece.inventory, honce, after_eq times hlongest hshortest]
  case opening => simp [Piece.opening, Atom.isRepeatable, honce]
  case fixedText =>
    rw [Piece.fixedText, Piece.fixedText]
    split
    · exact .rfl
    · exact (h.fixedText 0 (Nat.zero_le _)).bind fun _ => .rfl
  case steps =>
    intro limit
    rw [Piece.steps, Piece.steps]
    split
    · exact h.steps limit
    · refine (h.fixedText 0 (Nat.zero_le _)).bind fun _ => ?_
      rw [Piece.slots, Piece.slots, Piece.longest, Piece.longest, hlongest]
      exact .rfl

/-- Alternatives are alike if their branches are so one by one. -/
theorem inChoice {ts ss : List (List Piece)} (h : List.Forall₂ Alike ts ss)
    (times : Option Repetition) : Alike [⟨.choice ts, times⟩] [⟨.choice ss, times⟩] := by
  have hbranches : longestOfAny ts = longestOfAny ss ∧ shortestOfAny ts = shortestOfAny ss ∧
      openingsOf ts = openingsOf ss ∧
      ∀ limit, Upholds (layoutsOf limit ss) (layoutsOf limit ts) := by
    induction h with
    | nil => exact ⟨.refl _, .refl _, .refl _, fun _ => .rfl⟩
    | cons h _ ih =>
      obtain ⟨hlongest, hshortest, hopenings, hlayouts⟩ := ih
      refine ⟨?_, ?_, ?_, fun limit => ?_⟩
      · rw [longestOfAny, longestOfAny, h.longest, hlongest]
      · rw [shortestOfAny, shortestOfAny, h.shortest, hshortest]
      · rw [openingsOf, openingsOf, h.opening, hopenings]
      · rw [layoutsOf, layoutsOf]
        refine (h.steps limit).bind fun _ => Upholds.rfl.bind fun _ => ?_
        exact (hlayouts limit).bind fun _ => .rfl
  obtain ⟨hlongest, hany, hopenings, hlayouts⟩ := hbranches
  have hlongest : Atom.longest (.choice ts) = Atom.longest (.choice ss) := hlongest
  have hshortest : Atom.shortest (.choice ts) = Atom.shortest (.choice ss) := by
    rw [Atom.shortest, Atom.shortest, hany]
  refine .single (longestOfAll_single times hlongest) (shortestOfAll_single times hshortest)
    ?inventory ?opening ?fixedText ?steps
  case inventory =>
    intro position
    simp [Piece.inventory, after_eq times hlongest hshortest]
  case opening => simp [Piece.opening, Atom.opening, Atom.isRepeatable, hopenings]
  case fixedText => exact .rfl
  case steps => exact fun limit => (hlayouts limit).bind fun _ => .rfl

end Alike

/-! ## Redundant syntax -/

theorem Repetition.eq_of_isOnce {times : Option Repetition} (h : isOnce times = true) :
    times = none ∨ times = some ⟨1, .upTo 1⟩ := by
  cases times with
  | none => exact .inl rfl
  | some r =>
    obtain ⟨hmost, hleast⟩ : r.most = .upTo r.least ∧ r.least = 1 := by
      simpa [isOnce, fixedCount?] using h
    obtain ⟨least, most⟩ := r
    dsimp only at hmost hleast
    subst hleast hmost
    exact .inr rfl

/-- In a sum, what is taken once counts as it is, even if it is longer than any count. -/
theorem Extent.mul_one_add (e f : Extent) : (e.mul (.upTo 1)).add f = e.add f := by
  rcases e with (_ | n) | _
  · rw [upTo_zero_mul]
  · rw [upTo_mul_upTo, Nat.mul_one]
    cases f with
    | upTo m => rw [ofNat_add_upTo, upTo_add_upTo]
    | endless => rw [add_endless, add_endless]
  · rfl

/-- What matches no text may as well not be there. -/
theorem alike_zeroWidth {a : Atom} (h : a.isZeroWidth = true) : Alike [] [⟨a, none⟩] := by
  cases a with
  | anchor | lookaround =>
    refine ⟨rfl, rfl, fun position hp => ?_, rfl, fun used hused found h => ?_, fun _ => .rfl⟩
    · show (.ok ([], position) : Except TextError (List PlacedText × Nat)) =
        .ok ([], Count.add position 0)
      rw [Count.add_zero hp]
    · -- nothing is put behind what is in front of it
      obtain rfl : some [] = found := Except.ok.inj h
      refine TextError.bind_eq_ok.2 ⟨some [], rfl, ?_⟩
      exact TextError.bind_eq_ok.2 ⟨[], Text.behind_eq_ok.2 ⟨hused, rfl⟩, rfl⟩
  | literal | charClass | group | choice => cases h

/-- Whether or not it says that it occurs once, something of a fixed length ends at the same
place. -/
theorem Inventory.after_once (position n : Nat) :
    Count.add position n =
      Count.add position (((Extent.upTo n).mul (.upTo 1)).end?.getD (Count.mul n 1)) := by
  rw [Extent.upTo_mul_upTo, Nat.mul_one, Count.mul, Nat.mul_one]
  by_cases hn : n ≤ Count.ceiling
  · rw [Extent.ofNat, if_pos hn]
    rfl
  · rw [Extent.ofNat, if_neg hn]
    simp only [Extent.end?, Option.getD_none, Count.add]
    omega

/-- An atom is fixed text or a class. -/
def Atom.IsPlain (a : Atom) : Prop :=
  (∃ written meant, a = .literal written meant) ∨ ∃ text, a = .charClass text

theorem Atom.IsPlain.longest_eq {a : Atom} (h : a.IsPlain) : a.longest = .upTo a.shortest := by
  rcases h with ⟨written, meant, rfl⟩ | ⟨text, rfl⟩
  · rfl
  · rfl

/-- Fixed text and classes occur once, whether a repetition says so or not. -/
theorem alike_plain {a : Atom} (h : a.IsPlain) : Alike [⟨a, none⟩] [⟨a, some ⟨1, .upTo 1⟩⟩] := by
  have hafter : ∀ position, Inventory.after position ⟨a, none⟩ =
      Inventory.after position ⟨a, some ⟨1, .upTo 1⟩⟩ := by
    intro position
    show Count.add position (a.longest.end?.getD a.shortest) = Count.add position
      ((a.longest.mul (.upTo 1)).end?.getD (Count.mul a.shortest 1))
    rw [h.longest_eq]
    exact Inventory.after_once position a.shortest
  refine .single ?longest ?shortest ?inventory ?opening ?fixedText ?steps
  case longest => exact (Extent.mul_one_add a.longest (.upTo 0)).symm
  case shortest =>
    show Count.add a.shortest 0 = Count.add (Count.mul a.shortest 1) 0
    simp only [Count.add, Count.mul]
    omega
  case inventory =>
    intro position
    rcases h with ⟨written, meant, rfl⟩ | ⟨text, rfl⟩
    · exact congrArg (fun next => Except.ok (Inventory.entry meant position, next))
        (hafter position)
    · exact congrArg (fun next => Except.ok ([], next)) (hafter position)
  case opening => rfl
  case fixedText => exact .rfl
  case steps =>
    intro limit
    rcases h with ⟨written, meant, rfl⟩ | ⟨text, rfl⟩
    · exact .rfl
    · exact .rfl

/-- A repetition of fixed text or of a class may as well not be there if it says once. -/
theorem alike_once {a : Atom} (h : a.IsPlain) (times : Option Repetition) :
    Alike [⟨a, Repetition.bare times⟩] [⟨a, times⟩] := by
  by_cases honce : Repetition.isOnce times = true
  · have hbare : Repetition.bare times = none := if_pos honce
    rw [hbare]
    rcases Repetition.eq_of_isOnce honce with rfl | rfl
    · exact .rfl
    · exact alike_plain h
  · have hbare : Repetition.bare times = times := if_neg honce
    rw [hbare]
    exact .rfl

theorem Text.repeated_once {text : Text} (h : text.bytes ≤ capacity) :
    text.repeated 1 = .ok text := by
  rw [repeated, Nat.mul_one, if_pos h, copies_eq_flatten]
  simp

/-- The one text of a group that occurs once is that of its body. -/
theorem upholds_fixedText_of_isOnce (body : List Piece) {times : Option Repetition}
    (h : Repetition.isOnce times = true) {used : Nat} (hused : used ≤ Text.capacity) :
    Upholds (fixedTextOfAll used [⟨.group body, times⟩]) (fixedTextOfAll used body) := by
  intro found hfound
  have hbody : fixedTextOfAll 0 body = .ok found :=
    fixedTextOfAll_of_le body (Nat.zero_le used) hfound
  rw [fixedTextOfAll, Piece.fixedText, Repetition.count?_of_isOnce h]
  refine TextError.bind_eq_ok.2 ⟨found, TextError.bind_eq_ok.2 ⟨found, hbody, ?_⟩, ?_⟩
  · cases found with
    | none => rfl
    | some text =>
      have hfits := bytes_le_of_fixedText body (Nat.zero_le _) hbody
      rw [Nat.zero_add] at hfits
      show some <$> text.repeated 1 = _
      rw [Text.repeated_once hfits]
      rfl
  · cases found with
    | none => rfl
    | some text =>
      have hroom := bytes_le_of_fixedText body hused hfound
      refine TextError.bind_eq_ok.2 ⟨text, Text.behind_eq_ok.2 ⟨hroom, rfl⟩, ?_⟩
      exact congrArg (fun whole => Except.ok (some whole)) (List.append_nil text)

/-- A group that occurs once may as well be what stands in it. -/
theorem alike_group (body : List Piece) {times : Option Repetition}
    (h : Repetition.isOnce times = true) : Alike body [⟨.group body, times⟩] := by
  -- a walk goes over the body, and then over nothing that follows it
  have hwalk : Alike (body ++ []) [⟨.group body, times⟩] := by
    refine ⟨?longest, ?shortest, ?inventory, ?opening, ?fixedText, ?steps⟩
    case longest =>
      rw [longestOfAll_append]
      rcases Repetition.eq_of_isOnce h with rfl | rfl
      · rfl
      · exact (Extent.mul_one_add _ _).symm
    case shortest =>
      rw [shortestOfAll_append]
      rcases Repetition.eq_of_isOnce h with rfl | rfl
      · rfl
      · show Count.add (shortestOfAll body) 0 = Count.add (Count.mul (shortestOfAll body) 1) 0
        simp only [Count.add, Count.mul]
        omega
    case inventory =>
      intro position _
      have hpiece :
          Piece.inventory position ⟨.group body, times⟩ = inventoryOfAll position body := by
        rw [Piece.inventory, if_pos h]
      rw [inventoryOfAll_append, ← hpiece]
      rfl
    case opening =>
      rw [openingOfAll_append, openingOfAll, openingOfAll, Piece.opening, if_neg (by simp [h])]
      rfl
    case fixedText =>
      intro used hused
      rw [List.append_nil]
      exact upholds_fixedText_of_isOnce body h hused
    case steps =>
      intro limit
      have honce := Repetition.isAtMostOnce_of_isOnce h
      rw [stepsOfAll_append, stepsOfAll, stepsOfAll, Piece.steps, if_pos honce]
      exact .rfl
  rwa [List.append_nil] at hwalk

mutual

theorem Piece.alike_bare : ∀ piece : Piece, piece.Everywhere Piece.Sound →
    Alike piece.bare [piece]
  | ⟨.literal written meant, times⟩, _ => alike_once (.inl ⟨written, meant, rfl⟩) times
  | ⟨.charClass text, times⟩, _ => alike_once (.inr ⟨text, rfl⟩) times
  | ⟨.group body, times⟩, h => by
    have hbody := alike_bareOfAll body h.2
    rw [Piece.bare]
    split
    · rename_i honce
      exact hbody.trans (alike_group body honce)
    · rename_i honce
      exact hbody.inGroup (by simpa using honce)
  | ⟨.choice branches, times⟩, h => .inChoice (alike_bareOfAny branches h.2) times
  | ⟨.anchor kind, times⟩, h => by
    obtain rfl : times = none := h.1.times_eq_none rfl
    exact alike_zeroWidth rfl
  | ⟨.lookaround l, times⟩, h => by
    obtain rfl : times = none := h.1.times_eq_none rfl
    exact alike_zeroWidth rfl

/-- **A sound sequence is like its bare tree.**  The induction is on the tree: each piece is like
its bare pieces, and pieces that follow one another stay alike. -/
theorem alike_bareOfAll : ∀ pieces : List Piece, everywhereInAll Piece.Sound pieces →
    Alike (bareOfAll pieces) pieces
  | [], _ => .rfl
  | piece :: rest, h => (piece.alike_bare h.1).append (alike_bareOfAll rest h.2)

theorem alike_bareOfAny : ∀ branches : List (List Piece), everywhereInAny Piece.Sound branches →
    List.Forall₂ Alike (bareOfAny branches) branches
  | [], _ => .nil
  | branch :: rest, h => .cons (alike_bareOfAll branch h.1) (alike_bareOfAny rest h.2)

end

/-! ## What is found out about a pattern -/

section

variable {s t : Sequence}

theorem Alike.ofSequence (h : Alike t s) (ht : t.statedLength? = none)
    (hs : s.statedLength? = none) : Analysis.ofSequence t = Analysis.ofSequence s := by
  have hinventory : t.inventory = s.inventory := by
    rw [Sequence.inventory, Sequence.inventory, h.inventory 0 (Nat.zero_le _)]
  have hlongest : t.longest = s.longest := h.longest
  have hshortest : t.shortest = s.shortest := h.shortest
  rw [Analysis.ofSequence, Analysis.ofSequence, hinventory, hlongest, hshortest, ht, hs]

theorem Alike.layout (h : Alike t s) (limit : Nat) : Upholds (s.layout limit) (t.layout limit) :=
  (h.steps limit).bind fun _ => .rfl

/-- **Redundant syntax changes nothing.**  If a pattern states no length, as is so if there is
no condition in it that states one, then the analysis of its bare tree is the same, and so is
its opening; and at every limit its bare tree has the layout that the pattern has, unless a text
that is written for it cannot be held. -/
theorem Sequence.bare_changes_nothing {text : Text} {depth : Nat}
    (h : Sequence.read text depth = .ok s) (hstated : s.statedLength? = none) :
    Analysis.ofSequence s.bare = Analysis.ofSequence s ∧ s.bare.opening = s.opening ∧
      ∀ limit, s.bare.layout limit = s.layout limit ∨ s.bare.layout limit = .error .tooLong := by
  have halike : Alike s.bare s := alike_bareOfAll s (Sequence.sound_of_read h)
  have hbare : s.bare.statedLength? = none :=
    statedLength?_eq_none (fun _ => Piece.IsBare.statedLength?_eq_none) (everywhere_bareOfAll s)
  refine ⟨halike.ofSequence hbare hstated, halike.opening, fun limit => ?_⟩
  cases hl : s.bare.layout limit with
  | ok l => exact .inl (halike.layout limit l hl).symm
  | error e => exact .inr rfl

/-- Groups inside one another that occur once, and redundant syntax in a group that occurs twice
and in a branch. -/
theorem Sequence.bare_changes_nothing_nested :
    ∃ s, Sequence.read "^(a(b{1}\\d){1})(?!x)((y|z$)-){2}(?:/)?$".toList 2 = .ok s ∧
      s.bare = [⟨.plain ['a'], none⟩, ⟨.plain ['b'], none⟩, ⟨.charClass "\\d".toList, none⟩,
        ⟨.group [⟨.choice [[⟨.plain ['y'], none⟩], [⟨.plain ['z'], none⟩]], none⟩,
          ⟨.plain ['-'], none⟩], some ⟨2, .upTo 2⟩⟩,
        ⟨.group [⟨.plain ['/'], none⟩], some ⟨0, .upTo 1⟩⟩] ∧
      Analysis.ofSequence s.bare = Analysis.ofSequence s ∧ s.bare.opening = ⟨"ab".toList, false⟩ ∧
      s.bare.layout 9 = .ok [.fixed "ab".toList, .slots 5, .fixed ['/']] := by
  have hread : Sequence.read "^(a(b{1}\\d){1})(?!x)((y|z$)-){2}(?:/)?$".toList 2 =
      .ok [⟨.anchor .start, none⟩,
        ⟨.group [⟨.plain ['a'], none⟩, ⟨.group [⟨.plain ['b'], some ⟨1, .upTo 1⟩⟩,
          ⟨.charClass "\\d".toList, none⟩], some ⟨1, .upTo 1⟩⟩], none⟩,
        ⟨.lookaround ⟨true, ['x'], none, none⟩, none⟩,
        ⟨.group [⟨.group [⟨.choice [[⟨.plain ['y'], none⟩],
          [⟨.plain ['z'], none⟩, ⟨.anchor .finish, none⟩]], none⟩], none⟩,
          ⟨.plain ['-'], none⟩], some ⟨2, .upTo 2⟩⟩,
        ⟨.group [⟨.plain ['/'], none⟩], some ⟨0, .upTo 1⟩⟩, ⟨.anchor .finish, none⟩] := by cbv
  obtain ⟨hanalysis, hopening, hlayout⟩ := Sequence.bare_changes_nothing hread rfl
  refine ⟨_, hread, by rfl, hanalysis, hopening.trans (by rfl), ?_⟩
  rcases hlayout 9 with hsame | htooLong
  · exact hsame.trans (by rfl)
  · cases htooLong

end

end InputMask
