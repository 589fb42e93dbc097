import InputMask.Analysis.Basic
import InputMask.Proofs.Pattern.Everywhere
import InputMask.Proofs.Pattern.Language

/-!
# The longest length is exact

The longest length that is read off the structure of a pattern is the length of its
longest match, and endless exactly if some match is longer than any count.

* `Extent.Measures` — an extent is the length of the longest text of a language. There is
  one lemma for each way in which languages are put together: `Measures.mul`,
  `Measures.add`, `Measures.inARow`.
* `measures_longestOfAll` — the longest length of sound pieces measures what they match.
* `Sequence.longest_exact` — the same for every pattern that is read, as two equivalences.
-/

namespace InputMask

namespace Extent

/-- The extent is the length of the longest text of the language; if it is endless, there is a
text that is longer than any count. -/
def Measures (e : Extent) (l : Language Char) : Prop :=
  match e with
  | upTo n => (∃ w ∈ l, w.length = n) ∧ ∀ w ∈ l, w.length ≤ n
  | endless => ∃ w ∈ l, Count.ceiling < w.length

theorem Measures.nonempty {e : Extent} {l : Language Char} (h : e.Measures l) : ∃ w, w ∈ l := by
  cases e with
  | upTo n => exact h.1.imp fun _ hw => hw.1
  | endless => exact h.imp fun _ hw => hw.1

theorem Measures.length_le {n : Nat} {l : Language Char} (h : (upTo n).Measures l) {w : Text}
    (hw : w ∈ l) : w.length ≤ n :=
  h.2 w hw

/-- A longest text makes its length the extent, whether or not that is a count. -/
theorem measures_ofNat {n : Nat} {l : Language Char} (hex : ∃ w ∈ l, w.length = n)
    (hle : ∀ w ∈ l, w.length ≤ n) : (ofNat n).Measures l := by
  unfold ofNat
  split
  · exact ⟨hex, hle⟩
  · obtain ⟨w, hw, hn⟩ := hex
    exact ⟨w, hw, by omega⟩

theorem measures_one : (upTo 0).Measures 1 :=
  ⟨⟨[], Language.nil_mem_one, rfl⟩, fun w hw => by rw [(Language.mem_one w).1 hw]; simp⟩

theorem measures_singleton (text : Text) : (upTo text.length).Measures {text} :=
  ⟨⟨text, rfl, rfl⟩, fun w hw => by rw [show w = text from hw]⟩

theorem measures_class {taken : Char → Prop} {c : Char} (hc : taken c) :
    (upTo 1).Measures {w | ∃ c, taken c ∧ w = [c]} := by
  refine ⟨⟨[c], ⟨c, hc, rfl⟩, rfl⟩, ?_⟩
  rintro w ⟨d, -, rfl⟩
  simp

/-! ## One after another -/

theorem Measures.mul {e f : Extent} {l k : Language Char} (he : e.Measures l)
    (hf : f.Measures k) : (e.add f).Measures (l * k) := by
  cases e with
  | endless =>
    obtain ⟨u, hu, hlen⟩ := he
    obtain ⟨v, hv⟩ := hf.nonempty
    rw [endless_add]
    exact ⟨u ++ v, Language.append_mem_mul hu hv, by rw [List.length_append]; omega⟩
  | upTo a =>
    cases f with
    | endless =>
      obtain ⟨u, hu⟩ := he.nonempty
      obtain ⟨v, hv, hlen⟩ := hf
      rw [add_endless]
      exact ⟨u ++ v, Language.append_mem_mul hu hv, by rw [List.length_append]; omega⟩
    | upTo b =>
      obtain ⟨⟨u, hu, rfl⟩, hleu⟩ := he
      obtain ⟨⟨v, hv, rfl⟩, hlev⟩ := hf
      rw [upTo_add_upTo]
      refine measures_ofNat ⟨u ++ v, Language.append_mem_mul hu hv, List.length_append⟩ ?_
      intro w hw
      obtain ⟨x, hx, y, hy, rfl⟩ := Language.mem_mul.1 hw
      rw [List.length_append]
      exact Nat.add_le_add (hleu x hx) (hlev y hy)

/-- A text that is as long as both parts can be together is a longest text of each. -/
theorem Measures.length_eq_of_append {a b : Nat} {l k : Language Char}
    (hl : (upTo a).Measures l) (hk : (upTo b).Measures k) {u v : Text} (hu : u ∈ l) (hv : v ∈ k)
    (h : (u ++ v).length = a + b) : a = u.length ∧ b = v.length := by
  have hua := hl.length_le hu
  have hvb := hk.length_le hv
  rw [List.length_append] at h
  omega

/-! ## One or another -/

theorem Measures.add {e f : Extent} {l k : Language Char} (he : e.Measures l)
    (hf : f.Measures k) : (e.max f).Measures (l + k) := by
  cases e with
  | endless =>
    obtain ⟨u, hu, hlen⟩ := he
    rw [endless_max]
    exact ⟨u, Or.inl hu, hlen⟩
  | upTo a =>
    cases f with
    | endless =>
      obtain ⟨v, hv, hlen⟩ := hf
      rw [max_endless]
      exact ⟨v, Or.inr hv, hlen⟩
    | upTo b =>
      obtain ⟨⟨u, hu, hua⟩, hleu⟩ := he
      obtain ⟨⟨v, hv, hvb⟩, hlev⟩ := hf
      constructor
      · by_cases hab : a ≤ b
        · exact ⟨v, Or.inr hv, by rw [hvb]; exact (Nat.max_eq_right hab).symm⟩
        · exact ⟨u, Or.inl hu, by rw [hua]; exact (Nat.max_eq_left (by omega)).symm⟩
      · rintro w (hw | hw)
        · exact le_trans (hleu w hw) (Nat.le_max_left a b)
        · exact le_trans (hlev w hw) (Nat.le_max_right a b)

/-! ## In a row -/

/-- `k` times the same text in a row. -/
theorem exists_mem_pow {l : Language Char} {u : Text} (hu : u ∈ l) (k : Nat) :
    ∃ w ∈ l ^ k, w.length = k * u.length := by
  induction k with
  | zero => exact ⟨[], by simp, by simp⟩
  | succ k ih =>
    obtain ⟨w, hw, hlen⟩ := ih
    refine ⟨w ++ u, ?_, ?_⟩
    · rw [pow_succ]
      exact Language.append_mem_mul hw hu
    · rw [List.length_append, hlen, Nat.succ_mul]

theorem length_le_of_mem_pow {l : Language Char} {n : Nat} (h : ∀ w ∈ l, w.length ≤ n)
    {k : Nat} {w : Text} (hw : w ∈ l ^ k) : w.length ≤ k * n := by
  induction k generalizing w with
  | zero =>
    rw [pow_zero, Language.mem_one] at hw
    simp [hw]
  | succ k ih =>
    rw [pow_succ] at hw
    obtain ⟨x, hx, y, hy, rfl⟩ := Language.mem_mul.1 hw
    rw [List.length_append, Nat.succ_mul]
    exact Nat.add_le_add (ih hx) (h y hy)

/-- Any number of repetitions that is allowed gives matches of that many times the length. -/
theorem exists_mem_language {l : Language Char} {r : Repetition} {k : Nat} (hk : r.Allows k)
    {u : Text} (hu : u ∈ l) :
    ∃ w ∈ Repetition.language (some r) l, w.length = k * u.length := by
  obtain ⟨w, hw, hlen⟩ := exists_mem_pow hu k
  exact ⟨w, ⟨k, hk, hw⟩, hlen⟩

theorem Measures.inARow {e : Extent} {l : Language Char} (he : e.Measures l)
    {times : Option Repetition}
    (ht : ∀ r m, times = some r → r.most = .upTo m → r.least ≤ m) :
    (Repetition.longest times e).Measures (Repetition.language times l) := by
  cases times with
  | none => exact he
  | some r =>
    obtain ⟨least, most⟩ := r
    show (e.mul most).Measures _
    cases most with
    | upTo b =>
      have hb : Repetition.Allows ⟨least, .upTo b⟩ b :=
        Repetition.allows_most rfl (ht _ b rfl rfl)
      cases e with
      | upTo a =>
        obtain ⟨⟨u, hu, rfl⟩, hle⟩ := he
        obtain ⟨w, hw, hlen⟩ := exists_mem_language hb hu
        rw [upTo_mul_upTo, Nat.mul_comm]
        refine measures_ofNat ⟨w, hw, hlen⟩ ?_
        rintro v ⟨k, hk, hv⟩
        exact le_trans (length_le_of_mem_pow hle hv) (Nat.mul_le_mul_right _ (hk.2 b rfl))
      | endless =>
        obtain ⟨u, hu, hlong⟩ := he
        obtain ⟨w, hw, hlen⟩ := exists_mem_language hb hu
        cases b with
        | zero =>
          rw [mul_upTo_zero]
          refine ⟨⟨w, hw, by rw [hlen, Nat.zero_mul]⟩, ?_⟩
          rintro v ⟨k, hk, hv⟩
          rw [Nat.le_zero.1 (hk.2 0 rfl), pow_zero, Language.mem_one] at hv
          rw [hv]
          exact le_refl 0
        | succ b =>
          rw [endless_mul_upTo_succ]
          have : 1 * u.length ≤ (b + 1) * u.length := Nat.mul_le_mul_right _ (by omega)
          exact ⟨w, hw, by omega⟩
    | endless =>
      -- without an upper bound the item can occur more often than any count says
      have hk : Repetition.Allows ⟨least, .endless⟩ (least + (Count.ceiling + 1)) :=
        ⟨Nat.le_add_right _ _, fun m hm => by cases hm⟩
      have hlong : ∀ u ∈ l, 0 < u.length →
          ∃ w ∈ Repetition.language (some ⟨least, .endless⟩) l, Count.ceiling < w.length := by
        intro u hu hpos
        obtain ⟨w, hw, hlen⟩ := exists_mem_language hk hu
        have : (least + (Count.ceiling + 1)) * 1 ≤ (least + (Count.ceiling + 1)) * u.length :=
          Nat.mul_le_mul_left _ hpos
        exact ⟨w, hw, by omega⟩
      cases e with
      | endless =>
        obtain ⟨u, hu, hu'⟩ := he
        exact hlong u hu (by omega)
      | upTo a =>
        obtain ⟨⟨u, hu, rfl⟩, hle⟩ := he
        rcases hlen : u.length with _ | n
        · rw [upTo_zero_mul]
          obtain ⟨w, hw, hwlen⟩ := exists_mem_language hk hu
          refine ⟨⟨w, hw, by rw [hwlen, hlen, Nat.mul_zero]⟩, ?_⟩
          rintro v ⟨k, -, hv⟩
          rw [hlen] at hle
          simpa using length_le_of_mem_pow hle hv
        · exact hlong u hu (by omega)

end Extent

/-! ## Over the whole of a pattern -/

section Structure

variable {taken : Char → Prop} {c : Char}

mutual

/-- The longest length of a sound piece measures what the piece matches. -/
theorem Piece.measures_longest (hc : taken c) : ∀ piece : Piece, piece.Everywhere Piece.Sound →
    piece.longest.Measures (piece.language taken)
  | ⟨atom, times⟩, h => by
    have hatom := Atom.measures_longest hc atom h.2 h.1.branches_ne_nil
    rw [Piece.longest, Piece.language]
    exact hatom.inARow h.1.least_le_most

theorem Atom.measures_longest (hc : taken c) : ∀ atom : Atom, atom.Everywhere Piece.Sound →
    (∀ branches, atom = .choice branches → branches ≠ []) →
    atom.longest.Measures (atom.language taken)
  | .literal _ meant, _, _ => Extent.measures_singleton meant
  | .charClass _, _, _ => Extent.measures_class hc
  | .group body, h, _ => measures_longestOfAll hc body h
  | .choice branches, h, hne => measures_longestOfAny hc branches h (hne branches rfl)
  | .anchor _, _, _ => Extent.measures_one
  | .lookaround _, _, _ => Extent.measures_one

theorem measures_longestOfAll (hc : taken c) : ∀ pieces : List Piece,
    everywhereInAll Piece.Sound pieces →
    (longestOfAll pieces).Measures (languageOfAll taken pieces)
  | [], _ => Extent.measures_one
  | piece :: rest, h => by
    rw [longestOfAll, languageOfAll]
    exact (Piece.measures_longest hc piece h.1).mul (measures_longestOfAll hc rest h.2)

/-- Without a branch there is no match, so here there must be one. -/
theorem measures_longestOfAny (hc : taken c) : ∀ branches : List (List Piece),
    everywhereInAny Piece.Sound branches → branches ≠ [] →
    (longestOfAny branches).Measures (languageOfAny taken branches)
  | [], _, hne => absurd rfl hne
  | [branch], h, _ => by
    rw [longestOfAny, longestOfAny, Extent.max_upTo_zero, languageOfAny, languageOfAny, add_zero]
    exact measures_longestOfAll hc branch h.1
  | first :: second :: rest, h, _ => by
    rw [longestOfAny, languageOfAny]
    exact (measures_longestOfAll hc first h.1).add
      (measures_longestOfAny hc (second :: rest) h.2 (by simp))

end

end Structure

/-- The longest length of a sequence, if it has an end, is a count. -/
theorem le_ceiling_of_longestOfAll {pieces : List Piece} {n : Nat}
    (h : longestOfAll pieces = .upTo n) : n ≤ Count.ceiling := by
  cases pieces with
  | nil =>
    rw [longestOfAll, Extent.upTo.injEq] at h
    omega
  | cons piece rest =>
    rw [longestOfAll] at h
    obtain ⟨a, b, -, -, -, hn⟩ := Extent.add_eq_upTo h
    exact hn

theorem Sequence.measures_longest {s : Sequence} (h : s.Sound) : s.longest.Measures s.language :=
  measures_longestOfAll (c := 'a') trivial s h

/-- Without a stated length the longest length follows from the structure. -/
theorem Analysis.longest_ofSequence {s : Sequence} (hstated : s.statedLength? = none)
    {a : Analysis} (ha : Analysis.ofSequence s = .ok a) : a.longest = s.longest := by
  obtain ⟨literals, -, ha⟩ := TextError.bind_eq_ok.1 ha
  cases ha
  simp [hstated]

/-- **The longest length is exact.**  It is a number if and only if that number is a count and
the length of the longest match, and it is endless if and only if some match is longer than
any count. -/
theorem Sequence.longest_exact {text : Text} {limit : Nat} {s : Sequence}
    (h : Sequence.read text limit = .ok s) :
    (∀ n, s.longest = .upTo n ↔ n ≤ Count.ceiling ∧ (∃ w ∈ s.language, w.length = n) ∧
      ∀ w ∈ s.language, w.length ≤ n) ∧
    (s.longest = .endless ↔ ∃ w ∈ s.language, Count.ceiling < w.length) := by
  have hm := Sequence.measures_longest (Sequence.sound_of_read h)
  cases hs : s.longest with
  | upTo k =>
    rw [hs] at hm
    have hk : k ≤ Count.ceiling := le_ceiling_of_longestOfAll hs
    obtain ⟨⟨w, hw, hwk⟩, hle⟩ := hm
    refine ⟨fun n => ⟨?_, ?_⟩, ?_⟩
    · intro hn
      cases hn
      exact ⟨hk, ⟨w, hw, hwk⟩, hle⟩
    · rintro ⟨-, ⟨v, hv, hvn⟩, hlen⟩
      have h1 := hle v hv
      have h2 := hlen w hw
      rw [show k = n by omega]
    · refine ⟨fun h => (by cases h), ?_⟩
      rintro ⟨v, hv, hlong⟩
      have := hle v hv
      omega
  | endless =>
    rw [hs] at hm
    obtain ⟨w, hw, hlong⟩ := hm
    refine ⟨fun n => ⟨fun h => (by cases h), ?_⟩, fun _ => ⟨w, hw, hlong⟩, fun _ => rfl⟩
    rintro ⟨hn, -, hlen⟩
    have := hlen w hw
    omega

/-- An optional group whose branches differ in length. -/
theorem Sequence.longest_exact_optional_branches :
    ∃ s, Sequence.read "(a[0-9]?|bcd)?x".toList 64 = .ok s ∧ s.longest = .upTo 4 ∧
      (∃ w ∈ s.language, w.length = 4) ∧ ∀ w ∈ s.language, w.length ≤ 4 := by
  have h : Sequence.read "(a[0-9]?|bcd)?x".toList 64 =
      .ok [⟨.group [⟨.choice
        [[⟨.plain ['a'], none⟩, ⟨.charClass "[0-9]".toList, some ⟨0, .upTo 1⟩⟩],
          [⟨.plain ['b'], none⟩, ⟨.plain ['c'], none⟩, ⟨.plain ['d'], none⟩]], none⟩],
        some ⟨0, .upTo 1⟩⟩, ⟨.plain ['x'], none⟩] := by cbv
  exact ⟨_, h, by decide, (((Sequence.longest_exact h).1 4).1 (by decide)).2⟩

end InputMask
