import InputMask.Proofs.Filling.Readback

/-!
# No typed character is lost

The capacity of a layout is the number of typed characters that it can take: what its slots
hold, and for branches the most that one of them can take. Where fixed text is never
recognised as typed, slots take the typed characters that count one by one, as many as the
capacity allows: of several branches the furthest one is the one with most room.

* `Filling.Copies` — what it means to take the next `n` characters and nothing else.
* `copies_fillAll` — every layout takes as many characters as its capacity.
* `Layout.typedText_fill` — so the characters in slots are the first ones that were typed.
-/

namespace InputMask

mutual

/-- How many typed characters a step can take. -/
def Step.capacity : Step → Nat
  | .slots n => n
  | .fixed _ => 0
  | .either branches => capacityOfAny branches

/-- How many typed characters steps can take, one after another. -/
def capacityOfAll : List Step → Nat
  | [] => 0
  | step :: rest => step.capacity + capacityOfAll rest

/-- How many typed characters one of several branches can take at most. -/
def capacityOfAny : List (List Step) → Nat
  | [] => 0
  | branch :: rest => max (capacityOfAll branch) (capacityOfAny rest)

end

/-- How many typed characters a layout can take. -/
def Layout.capacity (l : Layout) : Nat := capacityOfAll l

namespace Filling

/-- The shown characters that slots have taken. -/
def typedText (f : Filling) : Text :=
  (f.shown.filter (·.origin == .typed)).map (·.char)

/-- A filling only stops when no typed character is left. -/
def StopsSpent (f : Filling) : Prop := f.stopped = true → f.pending = []

/-- From `f` to `g` slots have taken the next `n` characters, or all that were left, and none was
skipped. -/
structure Copies (n : Nat) (f g : Filling) : Prop where
  typedText_eq : g.typedText = f.typedText ++ f.pending.take n
  used_eq : g.used = f.used ++ f.pending.take n
  pending_eq : g.pending = f.pending.drop n
  stopsSpent : g.StopsSpent

variable {f g h : Filling} {m n : Nat}

theorem StopsSpent.copies (hf : f.StopsSpent) : f.Copies 0 f :=
  ⟨by simp, by simp, by simp, hf⟩

theorem Copies.trans (hfg : f.Copies m g) (hgh : g.Copies n h) : f.Copies (m + n) h where
  typedText_eq := by
    rw [hgh.typedText_eq, hfg.typedText_eq, hfg.pending_eq, List.append_assoc, ← List.take_add]
  used_eq := by
    rw [hgh.used_eq, hfg.used_eq, hfg.pending_eq, List.append_assoc, ← List.take_add]
  pending_eq := by rw [hgh.pending_eq, hfg.pending_eq, List.drop_drop]
  stopsSpent := hgh.stopsSpent

/-- Whether the steps belong to a branch makes no difference to what is taken. -/
theorem Copies.of_inBranch {b : Bool} (h : Copies n { f with inBranch := b } g) : f.Copies n g :=
  ⟨h.typedText_eq, h.used_eq, h.pending_eq, h.stopsSpent⟩

theorem Copies.length_used (h : f.Copies n g) :
    g.used.length = f.used.length + min n f.pending.length := by
  rw [h.used_eq, List.length_append, List.length_take]

/-- How many characters are taken depends on how many are left. -/
theorem Copies.of_min_eq (h : f.Copies m g)
    (hmn : min m f.pending.length = min n f.pending.length) : f.Copies n g := by
  have htake : f.pending.take m = f.pending.take n := List.take_eq_take_iff.2 hmn
  have hdrop : f.pending.drop m = f.pending.drop n := List.drop_eq_drop_iff.2 hmn
  exact ⟨htake ▸ h.typedText_eq, htake ▸ h.used_eq, hdrop ▸ h.pending_eq, h.stopsSpent⟩

/-- With nothing left to take, stopping takes as much as anything else. -/
theorem copies_stop (hp : f.pending = []) (n : Nat) : f.Copies n f.stop :=
  ⟨by simp [hp, typedText, stop], by simp [hp, stop], by simp [hp, stop], fun _ => hp⟩

/-- Slots take as many characters as they can hold. -/
theorem copies_take (hf : f.StopsSpent) (n : Nat) : f.Copies n (f.take n) := by
  by_cases hp : f.pending = []
  · rw [take_of_pending_nil hp]
    exact copies_stop hp n
  · rw [take_of_pending_ne_nil hp]
    refine ⟨?_, rfl, rfl, fun hstopped => absurd (hf hstopped) hp⟩
    simp [typedText, Cell.ofText, List.filter_map, Function.comp_def, -List.map_take]

/-- Fixed text that is not recognised as typed takes nothing. -/
theorem copies_place (hf : f.StopsSpent) {typed : Typed} {text : Text}
    (h : ¬ f.Echoes typed text) : f.Copies 0 (f.place typed text) := by
  rw [place_of_not_echoes h]
  split
  · rename_i hstop
    exact copies_stop (by simpa using (Bool.and_eq_true_iff.1 hstop).1) 0
  · refine ⟨?_, by simp [put], by simp [put], hf⟩
    simp [typedText, put, Cell.ofText, List.filter_map, Function.comp_def]

end Filling

/-! ## Branches -/

theorem capacityOfAll_le_capacityOfAny {branches : List (List Step)} {branch : List Step}
    (h : branch ∈ branches) : capacityOfAll branch ≤ capacityOfAny branches := by
  induction branches with
  | nil => cases h
  | cons first rest ih =>
    rw [capacityOfAny]
    rcases List.mem_cons.1 h with rfl | h
    · exact Nat.le_max_left _ _
    · exact Nat.le_trans (ih h) (Nat.le_max_right _ _)

/-- One of several branches can take the most. -/
theorem exists_capacityOfAll_eq {branches : List (List Step)} (h : branches ≠ []) :
    ∃ branch ∈ branches, capacityOfAll branch = capacityOfAny branches := by
  induction branches with
  | nil => exact absurd rfl h
  | cons first rest ih =>
    rw [capacityOfAny]
    by_cases hrest : rest = []
    · exact ⟨first, List.mem_cons_self .., by simp [hrest, capacityOfAny]⟩
    · obtain ⟨branch, hmem, hbranch⟩ := ih hrest
      by_cases hle : capacityOfAny rest ≤ capacityOfAll first
      · exact ⟨first, List.mem_cons_self .., (Nat.max_eq_left hle).symm⟩
      · exact ⟨branch, List.mem_cons_of_mem _ hmem, by omega⟩

/-- If every branch takes as much as it can hold, so does the choice between them: the furthest of
them has taken no less than the one with most room, and so no less than that can hold. -/
theorem Filling.Copies.either {typed : Typed} {f : Filling} {branches : List (List Step)}
    (hf : f.StopsSpent) (h : ∀ branch ∈ branches,
      Copies (capacityOfAll branch) f (fillAll typed { f with inBranch := true } branch)) :
    f.Copies (capacityOfAny branches) ((Step.either branches).fill typed f) := by
  rw [Step.fill, fillEach_eq_map]
  split
  · rename_i hnone
    rw [List.map_eq_nil_iff.1 (furthest?_eq_none hnone)]
    exact hf.copies
  · rename_i best hbest
    obtain ⟨branch, hmem, rfl⟩ := List.mem_map.1 (mem_of_furthest? hbest)
    obtain ⟨most, hmost, hcapacity⟩ := exists_capacityOfAll_eq (List.ne_nil_of_mem hmem)
    have hle := length_used_le_of_furthest? hbest _ (List.mem_map_of_mem hmost)
    rw [(h most hmost).length_used, (h branch hmem).length_used, hcapacity] at hle
    have hbranch := capacityOfAll_le_capacityOfAny hmem
    have hcopies := (h branch hmem).of_min_eq (n := capacityOfAny branches) (by omega)
    exact ⟨hcopies.typedText_eq, hcopies.used_eq, hcopies.pending_eq, hcopies.stopsSpent⟩

/-! ## Layouts -/

/-- None of some texts is recognised as typed, however far a layout has been filled. -/
def Typed.Unechoed (typed : Typed) (texts : List Text) : Prop :=
  ∀ text ∈ texts, ∀ f : Filling, ¬ f.Echoes typed text

section

variable {typed : Typed}

theorem Typed.Unechoed.left {front back : List Text} (h : typed.Unechoed (front ++ back)) :
    typed.Unechoed front :=
  fun text ht => h text (List.mem_append_left _ ht)

theorem Typed.Unechoed.right {front back : List Text} (h : typed.Unechoed (front ++ back)) :
    typed.Unechoed back :=
  fun text ht => h text (List.mem_append_right _ ht)

mutual

theorem Step.copies_fill : ∀ (step : Step) (f : Filling), typed.Unechoed step.texts →
    f.StopsSpent → f.Copies step.capacity (step.fill typed f)
  | .slots n, _, _, hf => Filling.copies_take hf n
  | .fixed text, f, h, hf => Filling.copies_place hf (h text (List.mem_singleton_self text) f)
  | .either branches, f, h, hf =>
    .either hf fun branch hmem =>
      (copies_fillEach branches { f with inBranch := true } h hf branch hmem).of_inBranch

/-- Steps one after another take as many characters as they can hold together. -/
theorem copies_fillAll : ∀ (steps : List Step) (f : Filling), typed.Unechoed (textsOfAll steps) →
    f.StopsSpent → f.Copies (capacityOfAll steps) (fillAll typed f steps)
  | [], f, _, hf => hf.copies
  | step :: rest, f, h, hf => by
    rw [fillAll, capacityOfAll]
    split
    · rename_i hstopped
      exact hf.copies.of_min_eq (by simp [hf hstopped])
    · have hstep := Step.copies_fill step f h.left hf
      exact hstep.trans (copies_fillAll rest _ h.right hstep.stopsSpent)

theorem copies_fillEach : ∀ (branches : List (List Step)) (f : Filling),
    typed.Unechoed (textsOfAny branches) → f.StopsSpent → ∀ branch ∈ branches,
    f.Copies (capacityOfAll branch) (fillAll typed f branch)
  | [], _, _, _, _, hmem => by cases hmem
  | first :: rest, f, h, hf, branch, hmem => by
    rcases List.mem_cons.1 hmem with heq | hmem
    · rw [heq]
      exact copies_fillAll first f h.left hf
    · exact copies_fillEach rest f h.right hf branch hmem

end

/-- Fixed text of which nothing counts is not recognised as typed. -/
theorem Typed.unechoed_of_silent {texts : List Text}
    (h : ∀ text ∈ texts, ∀ c ∈ text, typed.counts c = false) : typed.Unechoed texts := by
  rintro text ht f ⟨hcounted, -, -⟩
  exact hcounted (List.filter_eq_nil_iff.2 (by simpa using h text ht))

/-- Fixed text with something in it that does not count is not recognised as typed where all that
was typed counts. -/
theorem Typed.unechoed_of_counted {texts : List Text}
    (hraw : ∀ c ∈ typed.raw, typed.counts c = true)
    (h : ∀ text ∈ texts, (∃ c ∈ text, typed.counts c = true) →
      ∃ c ∈ text, typed.counts c = false) : typed.Unechoed texts := by
  rintro text ht f ⟨hcounted, hfront, -⟩
  obtain ⟨c, hc⟩ := List.exists_mem_of_ne_nil _ hcounted
  obtain ⟨d, hd, hsilent⟩ := h text ht ⟨c, List.mem_filter.1 hc⟩
  have hcounts := hraw d (hfront.subset (List.mem_append_right _ hd))
  rw [hsilent] at hcounts
  cases hcounts

end

/-- **No typed character is lost.**  If of no fixed text anything counts, or if all that was typed
counts and every fixed text of which something counts also has something that does not, then the
characters that slots have taken are the first ones that count, as many as the layout can take. -/
theorem Layout.typedText_fill (l : Layout) (typed : Typed)
    (h : (∀ text ∈ l.texts, ∀ c ∈ text, typed.counts c = false) ∨
      (∀ c ∈ typed.raw, typed.counts c = true) ∧
        ∀ text ∈ l.texts, (∃ c ∈ text, typed.counts c = true) →
          ∃ c ∈ text, typed.counts c = false) :
    (l.fill typed).typedText = typed.input.take (min typed.input.length l.capacity) := by
  have hunechoed : typed.Unechoed l.texts := by
    rcases h with hsilent | ⟨hraw, hmixed⟩
    · exact typed.unechoed_of_silent hsilent
    · exact typed.unechoed_of_counted hraw hmixed
  have hcopies := copies_fillAll l (.start typed) hunechoed fun hstopped => by cases hstopped
  calc (l.fill typed).typedText
      = typed.input.take l.capacity := hcopies.typedText_eq
    _ = typed.input.take (min typed.input.length l.capacity) := by
      rw [Nat.min_comm, ← List.take_eq_take_min]

/-- A choice inside a choice: the second branch of the first one has room for three characters, if
its own second branch is taken. The letter in front counts, the dash behind it does not. -/
theorem Layout.typedText_fill_nested_choice :
    (∀ c ∈ "12345".toList, Char.isAlphanum c = true) ∧
      (Layout.fill [.fixed "x-".toList,
        .either [[.slots 2], [.slots 1, .either [[.slots 1], [.fixed ['/'], .slots 2]]]],
        .slots 1] ⟨"12345".toList, Char.isAlphanum⟩).typedText = "1234".toList := by
  have hraw : ∀ c ∈ "12345".toList, Char.isAlphanum c = true := List.all_eq_true.1 (by decide)
  have hmixed : ∀ text ∈ ["x-".toList, ['/']], (∃ c ∈ text, Char.isAlphanum c = true) →
      ∃ c ∈ text, Char.isAlphanum c = false := by
    intro text ht _
    have htexts : text = "x-".toList ∨ text = ['/'] := by simpa using ht
    rcases htexts with rfl | rfl
    · exact ⟨'-', by decide, by decide⟩
    · exact ⟨'/', by decide, by decide⟩
  exact ⟨hraw, Layout.typedText_fill _ ⟨"12345".toList, Char.isAlphanum⟩ (.inr ⟨hraw, hmixed⟩)⟩

end InputMask
