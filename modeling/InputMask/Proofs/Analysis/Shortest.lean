import InputMask.Proofs.Analysis.Inventory

/-!
# The shortest length is exact

The shortest length that is read off the structure of a pattern is the length of its shortest
match, held at the ceiling. Whether a number is held sooner or later makes no difference, so it
is enough that the lengths agree as counts.

* `Count.Agree` — two numbers are the same count. Sums and products that are held agree with
  those that are not.
* `Count.Measures` — a count is the length of the shortest text of a language. There is one
  lemma for each way in which languages are put together: `Measures.mul`, `Measures.add`,
  `Measures.inARow`.
* `measures_shortestOfAll` — the shortest length of sound pieces measures what they match.
* `Sequence.exists_shortest` — the same of a whole sequence, with the ceiling written out.
* `Analysis.shortest_exact` — the analysis of a pattern that states no length gives this length,
  and there is one exactly if all texts of its inventory can be held.
-/

namespace InputMask

namespace Count

/-! ## Counts held at the ceiling -/

/-- Two numbers are the same count: equal, or both at the ceiling or beyond it. -/
def Agree (a b : Nat) : Prop := min a ceiling = min b ceiling

theorem Agree.rfl {a : Nat} : Agree a a := by
  rw [Agree]

theorem Agree.add {a b c d : Nat} (hab : Agree a b) (hcd : Agree c d) :
    Agree (add a c) (b + d) := by
  unfold Agree at *
  rw [Count.add]
  omega

theorem Agree.min {a b c d : Nat} (hab : Agree a b) (hcd : Agree c d) :
    Agree (min a c) (min b d) := by
  unfold Agree at *
  omega

/-- Numbers beyond the ceiling stay beyond it however often they are taken, unless they are not
taken at all. -/
theorem Agree.mul {a b : Nat} (hab : Agree a b) (k : Nat) : Agree (mul a k) (b * k) := by
  unfold Agree at *
  rw [Count.mul]
  cases k with
  | zero => simp
  | succ k =>
    by_cases heq : a = b
    · rw [heq]
      omega
    · have ha : a ≤ a * (k + 1) := Nat.le_mul_of_pos_right a k.succ_pos
      have hb : b ≤ b * (k + 1) := Nat.le_mul_of_pos_right b k.succ_pos
      omega

/-! ## Shortest texts -/

/-- The count is the length of the shortest text of the language. -/
def Measures (n : Nat) (l : Language Char) : Prop :=
  ∃ w ∈ l, (∀ v ∈ l, w.length ≤ v.length) ∧ Agree n w.length

theorem measures_one : Measures 0 1 :=
  ⟨[], Language.nil_mem_one, fun _ _ => Nat.zero_le _, .rfl⟩

theorem measures_singleton (text : Text) : Measures text.length {text} := by
  refine ⟨text, rfl, ?_, .rfl⟩
  rintro v rfl
  exact Nat.le_refl _

theorem measures_class {taken : Char → Prop} {c : Char} (hc : taken c) :
    Measures 1 {w | ∃ c, taken c ∧ w = [c]} := by
  refine ⟨[c], ⟨c, hc, rfl⟩, ?_, .rfl⟩
  rintro v ⟨d, -, rfl⟩
  exact Nat.le_refl _

theorem Measures.mul {a b : Nat} {l k : Language Char} (ha : Measures a l) (hb : Measures b k) :
    Measures (Count.add a b) (l * k) := by
  obtain ⟨u, hu, hleu, hua⟩ := ha
  obtain ⟨v, hv, hlev, hvb⟩ := hb
  refine ⟨u ++ v, Language.append_mem_mul hu hv, ?_, ?_⟩
  · intro w hw
    obtain ⟨x, hx, y, hy, rfl⟩ := Language.mem_mul.1 hw
    rw [List.length_append, List.length_append]
    exact Nat.add_le_add (hleu x hx) (hlev y hy)
  · rw [List.length_append]
    exact hua.add hvb

theorem Measures.add {a b : Nat} {l k : Language Char} (ha : Measures a l) (hb : Measures b k) :
    Measures (min a b) (l + k) := by
  obtain ⟨u, hu, hleu, hua⟩ := ha
  obtain ⟨v, hv, hlev, hvb⟩ := hb
  have hmin := hua.min hvb
  rcases Nat.le_total u.length v.length with huv | hvu
  · rw [Nat.min_eq_left huv] at hmin
    refine ⟨u, Or.inl hu, ?_, hmin⟩
    rintro w (hw | hw)
    · exact hleu w hw
    · exact huv.trans (hlev w hw)
  · rw [Nat.min_eq_right hvu] at hmin
    refine ⟨v, Or.inr hv, ?_, hmin⟩
    rintro w (hw | hw)
    · exact hvu.trans (hleu w hw)
    · exact hlev w hw

theorem mul_le_length_of_mem_pow {l : Language Char} {n : Nat} (h : ∀ w ∈ l, n ≤ w.length)
    {k : Nat} {w : Text} (hw : w ∈ l ^ k) : k * n ≤ w.length := by
  induction k generalizing w with
  | zero => omega
  | succ k ih =>
    rw [pow_succ] at hw
    obtain ⟨x, hx, y, hy, rfl⟩ := Language.mem_mul.1 hw
    rw [List.length_append, Nat.succ_mul]
    exact Nat.add_le_add (ih hx) (h y hy)

theorem Measures.inARow {n : Nat} {l : Language Char} (hn : Measures n l)
    {times : Option Repetition}
    (ht : ∀ r m, times = some r → r.most = .upTo m → r.least ≤ m) :
    Measures (Repetition.shortest times n) (Repetition.language times l) := by
  cases times with
  | none => exact hn
  | some r =>
    obtain ⟨u, hu, hle, hagree⟩ := hn
    have hleast : r.Allows r.least := Repetition.allows_least fun m hm => ht r m rfl hm
    obtain ⟨w, hw, hlen⟩ := Extent.exists_mem_language hleast hu
    refine ⟨w, hw, ?_, ?_⟩
    · rintro v ⟨k, hk, hv⟩
      rw [hlen]
      exact (Nat.mul_le_mul_right _ hk.1).trans (mul_le_length_of_mem_pow hle hv)
    · rw [hlen, Nat.mul_comm]
      exact hagree.mul r.least

end Count

/-! ## Over the whole of a pattern -/

section

variable {taken : Char → Prop} {c : Char}

mutual

/-- The shortest length of a sound piece measures what the piece matches. -/
theorem Piece.measures_shortest (hc : taken c) : ∀ piece : Piece, piece.Everywhere Piece.Sound →
    Count.Measures piece.shortest (piece.language taken)
  | ⟨atom, times⟩, h => by
    have hatom := Atom.measures_shortest hc atom h.2 h.1.branches_ne_nil
    rw [Piece.shortest, Piece.language]
    exact hatom.inARow h.1.least_le_most

theorem Atom.measures_shortest (hc : taken c) : ∀ atom : Atom, atom.Everywhere Piece.Sound →
    (∀ branches, atom = .choice branches → branches ≠ []) →
    Count.Measures atom.shortest (atom.language taken)
  | .literal _ meant, _, _ => Count.measures_singleton meant
  | .charClass _, _, _ => Count.measures_class hc
  | .group body, h, _ => measures_shortestOfAll hc body h
  | .choice branches, h, hne => by
    obtain ⟨n, hn, hmeasures⟩ := measures_shortestOfAny hc branches h (hne branches rfl)
    rw [Atom.shortest, hn]
    exact hmeasures
  | .anchor _, _, _ => Count.measures_one
  | .lookaround _, _, _ => Count.measures_one

theorem measures_shortestOfAll (hc : taken c) : ∀ pieces : List Piece,
    everywhereInAll Piece.Sound pieces →
    Count.Measures (shortestOfAll pieces) (languageOfAll taken pieces)
  | [], _ => Count.measures_one
  | piece :: rest, h => by
    rw [shortestOfAll, languageOfAll]
    exact (Piece.measures_shortest hc piece h.1).mul (measures_shortestOfAll hc rest h.2)

/-- Without a branch there is no match, so here there must be one. -/
theorem measures_shortestOfAny (hc : taken c) : ∀ branches : List (List Piece),
    everywhereInAny Piece.Sound branches → branches ≠ [] →
    ∃ n, shortestOfAny branches = some n ∧ Count.Measures n (languageOfAny taken branches)
  | [], _, hne => absurd rfl hne
  | [branch], h, _ => by
    refine ⟨shortestOfAll branch, rfl, ?_⟩
    rw [languageOfAny, languageOfAny, add_zero]
    exact measures_shortestOfAll hc branch h.1
  | first :: second :: rest, h, _ => by
    obtain ⟨n, hn, hmeasures⟩ := measures_shortestOfAny hc (second :: rest) h.2 (by simp)
    refine ⟨min (shortestOfAll first) n, by rw [shortestOfAny, hn], ?_⟩
    rw [languageOfAny]
    exact (measures_shortestOfAll hc first h.1).add hmeasures

end

end

theorem shortestOfAll_le_ceiling (pieces : List Piece) : shortestOfAll pieces ≤ Count.ceiling := by
  cases pieces with
  | nil => exact Nat.zero_le _
  | cons piece rest =>
    rw [shortestOfAll]
    exact Nat.min_le_right _ _

/-- The shortest length of a sound sequence is that of its shortest match, held at the ceiling. -/
theorem Sequence.exists_shortest {s : Sequence} (h : s.Sound) :
    ∃ w ∈ s.language, (∀ v ∈ s.language, w.length ≤ v.length) ∧
      s.shortest = min w.length Count.ceiling := by
  have hmeasures : Count.Measures s.shortest s.language :=
    measures_shortestOfAll (c := 'a') trivial s h
  obtain ⟨w, hw, hle, hagree⟩ := hmeasures
  refine ⟨w, hw, hle, ?_⟩
  rw [← hagree]
  exact (Nat.min_eq_left (shortestOfAll_le_ceiling s)).symm

theorem Analysis.shortest_of_ofSequence {s : Sequence} (hstated : s.statedLength? = none)
    {a : Analysis} (ha : Analysis.ofSequence s = .ok a) : a.shortest = s.shortest := by
  obtain ⟨literals, -, ha⟩ := TextError.bind_eq_ok.1 ha
  obtain rfl := Except.ok.inj ha
  simp [hstated]

/-- **The shortest length is exact** where an analysis gives it: without a stated length it is that
of the shortest match, held at the ceiling. There is an analysis if and only if all texts of
the inventory can be held. -/
theorem Analysis.shortest_exact {text : Text} {depth : Nat} {s : Sequence}
    (h : Sequence.read text depth = .ok s) (hstated : s.statedLength? = none) :
    ∃ w ∈ s.language, (∀ v ∈ s.language, w.length ≤ v.length) ∧
      ((∃ a, Analysis.ofSequence s = .ok a ∧ a.shortest = min w.length Count.ceiling) ↔
        s.literalsFit = true) := by
  obtain ⟨w, hw, hle, hshortest⟩ := Sequence.exists_shortest (Sequence.sound_of_read h)
  refine ⟨w, hw, hle, ?_⟩
  rw [← Analysis.exists_ofSequence_iff]
  constructor
  · rintro ⟨a, ha, -⟩
    exact ⟨a, ha⟩
  · rintro ⟨a, ha⟩
    exact ⟨a, ha, by rw [Analysis.shortest_of_ofSequence hstated ha, hshortest]⟩

/-- Branches of different length that occur at least twice. -/
theorem Analysis.shortest_exact_repeated_branches :
    ∃ s, Sequence.read "(ab|c){2,}x*".toList 64 = .ok s ∧ s.statedLength? = none ∧
      s.literalsFit = true ∧ ∃ w ∈ s.language, (∀ v ∈ s.language, w.length ≤ v.length) ∧
        ∃ a, Analysis.ofSequence s = .ok a ∧ a.shortest = 2 ∧
          a.shortest = min w.length Count.ceiling := by
  have h : Sequence.read "(ab|c){2,}x*".toList 64 =
      .ok [⟨.group [⟨.choice [[⟨.plain ['a'], none⟩, ⟨.plain ['b'], none⟩],
          [⟨.plain ['c'], none⟩]], none⟩], some ⟨2, .endless⟩⟩,
        ⟨.plain ['x'], some ⟨0, .endless⟩⟩] := by cbv
  have hstated : Sequence.statedLength? [⟨.group [⟨.choice [[⟨.plain ['a'], none⟩,
      ⟨.plain ['b'], none⟩], [⟨.plain ['c'], none⟩]], none⟩], some ⟨2, .endless⟩⟩,
        ⟨.plain ['x'], some ⟨0, .endless⟩⟩] = none := by decide
  obtain ⟨w, hw, hle, hiff⟩ := Analysis.shortest_exact h hstated
  obtain ⟨a, ha, hshortest⟩ := hiff.2 (by decide)
  refine ⟨_, h, hstated, by decide, w, hw, hle, a, ha, ?_, hshortest⟩
  rw [Analysis.shortest_of_ofSequence hstated ha]
  decide

/-- The shortest length of a literal that is repeated beyond the capacity of a text is a count all
the same, but there is no analysis that gives it. -/
theorem Analysis.no_shortest_beyond_capacity :
    ∃ s, Sequence.read "a{9223372036854775808}".toList 64 = .ok s ∧ s.statedLength? = none ∧
      (∃ w ∈ s.language, w.length = 9223372036854775808 ∧
        ∀ v ∈ s.language, w.length ≤ v.length) ∧
      Analysis.ofSequence s = .error .tooLong := by
  have h : Sequence.read "a{9223372036854775808}".toList 64 =
      .ok [⟨.plain ['a'], some ⟨9223372036854775808, .upTo 9223372036854775808⟩⟩] := by cbv
  obtain ⟨w, hw, hle, hshortest⟩ := Sequence.exists_shortest (Sequence.sound_of_read h)
  refine ⟨_, h, by decide, ⟨w, hw, ?_, hle⟩, by cbv⟩
  have hcount : Sequence.shortest
      [⟨.plain ['a'], some ⟨9223372036854775808, .upTo 9223372036854775808⟩⟩] =
      9223372036854775808 := by decide
  rw [hcount] at hshortest
  have hceiling : Count.ceiling = 18446744073709551615 := rfl
  omega

end InputMask
