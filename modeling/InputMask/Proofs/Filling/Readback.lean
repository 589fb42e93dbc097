import InputMask.Proofs.Filling.Room
import InputMask.Proofs.Layout.Normal

/-!
# Texts that a layout gives back

A layout without branches gives a text back unchanged if the text is in the form of the
layout: every slot that is used is full of characters that count, but the last one, and
fixed text stands between them and is followed by something that counts.

* `ReadsBack` — the texts in the form of some steps.
* `ReadsBack.text_fillAll` — such a text is given back; fixed text in it is recognised as
  typed, because so far the typed text reads like the shown text. `ReadsBack.fillAllFits`:
  there is room for it if the text can be held.
* `readsBack_fillAll` — whatever is typed, what a layout shows is of that form, unless the
  layout ends in fixed text of which nothing counts.
-/

namespace InputMask

/-- A layout of slots and fixed text only. -/
def Layout.Linear (l : Layout) : Prop := ∀ branches, Step.either branches ∉ l

/-- A layout that ends, after some slots, in fixed text of which no character counts. -/
def Layout.EndsSilently (counts : Char → Bool) (l : Layout) : Prop :=
  ∃ front text, l = front ++ [.fixed text] ∧ (∃ n, .slots n ∈ front) ∧ ∀ c ∈ text, counts c = false

/-- A text in the form of the steps, as far as it goes. `begun` says that slots in front of the
steps have taken characters, so that fixed text waits for more of them. Fixed text is only shown
if the characters in it that count can be listed. -/
inductive ReadsBack (counts : Char → Bool) : Bool → List Step → Text → Prop
  | nil (begun : Bool) : ReadsBack counts begun [] []
  | unfilled (begun : Bool) (n : Nat) (rest : List Step) :
      ReadsBack counts begun (.slots n :: rest) []
  | partly {begun : Bool} {n : Nat} {rest : List Step} {u : Text} (hne : u ≠ [])
      (hu : ∀ c ∈ u, counts c = true) (hlt : u.length < n) :
      ReadsBack counts begun (.slots n :: rest) u
  | filled {begun : Bool} {rest : List Step} {u v : Text} (hne : u ≠ [])
      (hu : ∀ c ∈ u, counts c = true) (hv : ReadsBack counts true rest v) :
      ReadsBack counts begun (.slots u.length :: rest) (u ++ v)
  | waiting (text : Text) (rest : List Step) : ReadsBack counts true (.fixed text :: rest) []
  | shown {begun : Bool} {text : Text} {rest : List Step} {v : Text}
      (hcounts : begun = true → (text ++ v).filter counts ≠ [])
      (hlist : Text.isListable (text.filter counts) = true) (hv : ReadsBack counts begun rest v) :
      ReadsBack counts begun (.fixed text :: rest) (text ++ v)

namespace Filling

/-! ## What slots and fixed text do -/

theorem fillAll_of_stopped {typed : Typed} {f : Filling} (h : f.stopped = true)
    (steps : List Step) : fillAll typed f steps = f := by
  cases steps with
  | nil => rfl
  | cons step rest => rw [fillAll, if_pos h]

theorem fillAllFits_of_stopped {typed : Typed} {f : Filling} (h : f.stopped = true)
    (steps : List Step) : fillAllFits typed f steps = true := by
  cases steps with
  | nil => rw [fillAllFits]
  | cons step rest => rw [fillAllFits, h, Bool.true_or]

theorem fillAllFits_cons {typed : Typed} {f : Filling} {step : Step} {rest : List Step}
    (h : f.stopped = false) : fillAllFits typed f (step :: rest) = true ↔
      step.fillFits typed f = true ∧ fillAllFits typed (step.fill typed f) rest = true := by
  rw [fillAllFits, h, Bool.false_or, Bool.and_eq_true]

theorem take_of_pending_nil {n : Nat} {f : Filling} (h : f.pending = []) :
    f.take n = f.stop := by
  simp [Filling.take, h]

theorem take_of_pending_ne_nil {n : Nat} {f : Filling} (h : f.pending ≠ []) :
    f.take n = { f with
      used := f.used ++ f.pending.take n
      pending := f.pending.drop n
      shown := f.shown ++ Cell.ofText .typed (f.pending.take n)
      taken := f.taken + (f.pending.take n).length } :=
  if_neg (by simpa using h)

/-- Slots that are filled leave a running filling as it was, but for the characters they take. -/
structure Takes (n : Nat) (f g : Filling) : Prop where
  text_eq : g.text = f.text ++ f.pending.take n
  pending_eq : g.pending = f.pending.drop n
  taken_ne : g.taken ≠ 0
  stopped_eq : g.stopped = f.stopped
  inBranch_eq : g.inBranch = f.inBranch

theorem takes {n : Nat} {f : Filling} (hn : n ≠ 0) (h : f.pending ≠ []) :
    Takes n f (f.take n) := by
  have hlength : f.pending.length ≠ 0 := by simpa using h
  rw [take_of_pending_ne_nil h]
  refine ⟨?_, rfl, ?_, rfl, rfl⟩
  · simp [Filling.text, Cell.ofText, Function.comp_def]
  · show f.taken + (f.pending.take n).length ≠ 0
    rw [List.length_take]
    omega

theorem place_of_stopping {typed : Typed} {text : Text} {f : Filling} (h : f.pending = [])
    (hl : f.isLeading = false) : f.place typed text = f.stop := by
  simp [Filling.place, h, hl]

theorem text_put (origin : Origin) (text : Text) (f : Filling) :
    (f.put origin text).text = f.text ++ text := by
  simp [Filling.put, Filling.text, Cell.ofText, Function.comp_def]

/-- Whether a fixed text is skipped in what was typed. -/
def Echoes (typed : Typed) (text : Text) (f : Filling) : Prop :=
  text.filter typed.counts ≠ [] ∧ f.text ++ text <+: typed.raw ∧
    text.filter typed.counts <+: f.pending

theorem echoes_iff {typed : Typed} {text : Text} {f : Filling} :
    (!(text.filter typed.counts).isEmpty && (f.text ++ text).isPrefixOf typed.raw &&
      (text.filter typed.counts).isPrefixOf f.pending) = true ↔ f.Echoes typed text := by
  simp [Echoes, List.isPrefixOf_iff_prefix, and_assoc]

/-- Fixed text that was typed as well is shown as such and skipped. -/
theorem place_of_echoes {typed : Typed} {text : Text} {f : Filling}
    (hgo : f.pending ≠ [] ∨ f.isLeading = true) (h : f.Echoes typed text) :
    f.place typed text = { f.put .echoed text with
      used := f.used ++ text.filter typed.counts
      pending := f.pending.drop (text.filter typed.counts).length } := by
  have hshown : ¬ (f.pending.isEmpty && !f.isLeading) = true := by
    rcases hgo with hgo | hgo <;> simp [hgo]
  rw [place, if_neg hshown]
  exact if_pos (echoes_iff.2 h)

/-- Fixed text that was not typed is shown where it is not left out. -/
theorem place_of_not_echoes {typed : Typed} {text : Text} {f : Filling}
    (h : ¬ f.Echoes typed text) :
    f.place typed text =
      if f.pending.isEmpty && !f.isLeading then f.stop else f.put .fixed text := by
  unfold place
  split
  · rfl
  · exact if_neg fun hecho => h (echoes_iff.1 hecho)

/-- Fixed text that is shown leaves a running filling as it was, but for the text and for what
is skipped. -/
structure Places (typed : Typed) (text : Text) (f g : Filling) : Prop where
  text_eq : g.text = f.text ++ text
  taken_eq : g.taken = f.taken
  stopped_eq : g.stopped = f.stopped
  inBranch_eq : g.inBranch = f.inBranch
  pending_of_echoes : f.Echoes typed text →
    g.pending = f.pending.drop (text.filter typed.counts).length
  pending_of_not : ¬ f.Echoes typed text → g.pending = f.pending

/-- No typed character comes back when fixed text is shown. -/
theorem Places.mem_pending {typed : Typed} {text : Text} {f g : Filling}
    (h : Places typed text f g) {c : Char} (hc : c ∈ g.pending) : c ∈ f.pending := by
  by_cases he : f.Echoes typed text
  · rw [h.pending_of_echoes he] at hc
    exact List.mem_of_mem_drop hc
  · rwa [h.pending_of_not he] at hc

theorem places (typed : Typed) (text : Text) {f : Filling}
    (h : f.pending ≠ [] ∨ f.isLeading = true) : Places typed text f (f.place typed text) := by
  by_cases he : f.Echoes typed text
  · rw [place_of_echoes h he]
    exact ⟨text_put .echoed text f, rfl, rfl, rfl, fun _ => rfl, fun hn => absurd he hn⟩
  · have hshown : ¬ (f.pending.isEmpty && !f.isLeading) = true := by
      rcases h with h | h <;> simp [h]
    rw [place_of_not_echoes he, if_neg hshown]
    exact ⟨text_put .fixed text f, rfl, rfl, rfl, fun hc => absurd hc he, fun _ => rfl⟩

/-- Once typed characters have been taken and none is left, no step shows anything. -/
theorem finished_kept (typed : Typed) (text : Text) :
    Kept typed fun g => g.text = text ∧ g.pending = [] ∧ g.taken ≠ 0 := by
  refine ⟨?take, ?place, fun b g hg => hg⟩
  case take =>
    rintro n g ⟨htext, hpend, htaken⟩
    rw [take_of_pending_nil hpend]
    exact ⟨htext, hpend, htaken⟩
  case place =>
    rintro shown g ⟨htext, hpend, htaken⟩
    rw [place_of_stopping hpend (by simp [isLeading, htaken])]
    exact ⟨htext, hpend, htaken⟩

theorem text_fillAll_of_spent {typed : Typed} {f : Filling} (hp : f.pending = [])
    (ht : f.taken ≠ 0) (steps : List Step) : (fillAll typed f steps).text = f.text :=
  ((finished_kept typed f.text).fillAll steps f ⟨rfl, hp, ht⟩).1

theorem fillAllFits_of_spent {typed : Typed} {f : Filling} (hp : f.pending = [])
    (ht : f.taken ≠ 0) (hf : f.fits = true) (steps : List Step) :
    fillAllFits typed f steps = true := by
  refine (fillAllFits_iff steps f).2 fun g step hcarried => ?_
  obtain ⟨htext, hpend, htaken⟩ :=
    hcarried.reached.of_kept (finished_kept typed f.text) ⟨rfl, hp, ht⟩
  have hstop : g.stop.fits = true := by
    rw [fits_iff] at hf ⊢
    exact htext ▸ hf
  cases step with
  | slots n =>
    rw [Step.HasRoom, take_of_pending_nil hpend]
    exact hstop
  | fixed text =>
    rw [Step.HasRoom, place_of_stopping hpend (by simp [isLeading, htaken])]
    exact ⟨hstop, fun h => nomatch h⟩
  | either branches => trivial

/-! ## Giving a text back -/

/-- A filling in front of the part `w` of the typed text, all of which has been shown up to
there. Nothing counts in the `tail` after that part. -/
structure Reads (typed : Typed) (begun : Bool) (w tail : Text) (f : Filling) : Prop where
  raw_eq : typed.raw = f.text ++ (w ++ tail)
  pending_eq : f.pending = w.filter typed.counts
  begun_eq : begun = (f.taken != 0)
  stopped_eq : f.stopped = false
  inBranch_eq : f.inBranch = false

theorem Reads.isLeading {typed : Typed} {begun : Bool} {w tail : Text} {f : Filling}
    (h : f.Reads typed begun w tail) : f.isLeading = !begun := by
  simp [Filling.isLeading, h.inBranch_eq, h.begun_eq, bne]

theorem Reads.take {typed : Typed} {begun : Bool} {u v tail : Text} {f : Filling}
    (h : f.Reads typed begun (u ++ v) tail) (hne : u ≠ [])
    (hu : ∀ c ∈ u, typed.counts c = true) :
    (f.take u.length).Reads typed true v tail ∧ (f.take u.length).text = f.text ++ u := by
  have hpend : f.pending = u ++ v.filter typed.counts := by
    rw [h.pending_eq, List.filter_append, List.filter_eq_self.2 hu]
  have hlength : u.length ≠ 0 := by simpa using hne
  have ht : Takes u.length f (f.take u.length) := takes hlength (by simp [hpend, hne])
  have htext : (f.take u.length).text = f.text ++ u := by
    rw [ht.text_eq, hpend, List.take_left]
  refine ⟨⟨?_, ?_, ?_, ?_, ?_⟩, htext⟩
  · rw [h.raw_eq, htext]
    simp
  · rw [ht.pending_eq, hpend, List.drop_left]
  · simpa using ht.taken_ne
  · rw [ht.stopped_eq, h.stopped_eq]
  · rw [ht.inBranch_eq, h.inBranch_eq]

theorem Reads.place {typed : Typed} {begun : Bool} {text v tail : Text} {f : Filling}
    (h : f.Reads typed begun (text ++ v) tail)
    (hcounts : begun = true → (text ++ v).filter typed.counts ≠ []) :
    (f.place typed text).Reads typed begun v tail ∧
      (f.place typed text).text = f.text ++ text := by
  have hgo : f.pending ≠ [] ∨ f.isLeading = true := by
    cases hb : begun with
    | true => exact Or.inl (by rw [h.pending_eq]; exact hcounts hb)
    | false => exact Or.inr (by rw [h.isLeading, hb]; rfl)
  have hp := places typed text hgo
  refine ⟨⟨?_, ?_, ?_, ?_, ?_⟩, hp.text_eq⟩
  · rw [h.raw_eq, hp.text_eq]
    simp
  · by_cases he : f.Echoes typed text
    · rw [hp.pending_of_echoes he, h.pending_eq, List.filter_append, List.drop_left]
    · -- the text reads like what was typed, so it can only be one of which nothing counts
      have hnil : text.filter typed.counts = [] := by
        refine Decidable.byContradiction fun hne => he ⟨hne, ?_, ?_⟩
        · rw [h.raw_eq]
          exact ⟨v ++ tail, by simp⟩
        · rw [h.pending_eq, List.filter_append]
          exact List.prefix_append _ _
      rw [hp.pending_of_not he, h.pending_eq, List.filter_append, hnil, List.nil_append]
  · rw [hp.taken_eq, h.begun_eq]
  · rw [hp.stopped_eq, h.stopped_eq]
  · rw [hp.inBranch_eq, h.inBranch_eq]

end Filling

/-- **A text in the form of the layout is given back.** -/
theorem ReadsBack.text_fillAll {typed : Typed} {begun : Bool} {steps : List Step} {w : Text}
    (h : ReadsBack typed.counts begun steps w) {tail : Text} {f : Filling}
    (hf : f.Reads typed begun w tail) : (fillAll typed f steps).text = f.text ++ w := by
  have hgo : ¬ f.stopped = true := by simp [hf.stopped_eq]
  induction h generalizing f with
  | nil begun => simp [fillAll]
  | unfilled begun n rest =>
    rw [fillAll, if_neg hgo, Step.fill, Filling.take_of_pending_nil hf.pending_eq,
      Filling.fillAll_of_stopped rfl]
    exact (List.append_nil f.text).symm
  | @partly begun n rest u hne hu hlt =>
    have hpend : f.pending = u := by rw [hf.pending_eq, List.filter_eq_self.2 hu]
    have ht := Filling.takes (show n ≠ 0 by omega) (by rwa [hpend])
    have hspent : (f.take n).pending = [] := by
      rw [ht.pending_eq, hpend, List.drop_eq_nil_of_le (by omega)]
    rw [fillAll, if_neg hgo, Step.fill, Filling.text_fillAll_of_spent hspent ht.taken_ne,
      ht.text_eq, hpend, List.take_of_length_le (by omega)]
  | @filled begun rest u v hne hu hv ih =>
    obtain ⟨hreads, htext⟩ := hf.take hne hu
    rw [fillAll, if_neg hgo, Step.fill, ih hreads (by simp [hreads.stopped_eq]), htext,
      List.append_assoc]
  | waiting text rest =>
    rw [fillAll, if_neg hgo, Step.fill,
      Filling.place_of_stopping hf.pending_eq (by rw [hf.isLeading]; rfl),
      Filling.fillAll_of_stopped rfl]
    exact (List.append_nil f.text).symm
  | @shown begun text rest v hcounts _ hv ih =>
    obtain ⟨hreads, htext⟩ := hf.place hcounts
    rw [fillAll, if_neg hgo, Step.fill, ih hreads (by simp [hreads.stopped_eq]), htext,
      List.append_assoc]

/-- There is room for giving a text back if it can be held. -/
theorem ReadsBack.fillAllFits {typed : Typed} {begun : Bool} {steps : List Step} {w : Text}
    (h : ReadsBack typed.counts begun steps w) {tail : Text} {f : Filling}
    (hf : f.Reads typed begun w tail) (hroom : Text.bytes (f.text ++ w) ≤ Text.capacity) :
    InputMask.fillAllFits typed f steps = true := by
  have hfits : f.fits = true := by
    rw [Text.bytes_append] at hroom
    exact Filling.fits_iff.2 (by omega)
  induction h generalizing f with
  | nil begun => rw [InputMask.fillAllFits]
  | unfilled begun n rest =>
    rw [Filling.fillAllFits_cons hf.stopped_eq, Step.fillFits, Step.fill,
      Filling.take_of_pending_nil hf.pending_eq]
    exact ⟨hfits, Filling.fillAllFits_of_stopped rfl rest⟩
  | @partly begun n rest u hne hu hlt =>
    have hpend : f.pending = u := by rw [hf.pending_eq, List.filter_eq_self.2 hu]
    have ht := Filling.takes (show n ≠ 0 by omega) (by rwa [hpend])
    have hspent : (f.take n).pending = [] := by
      rw [ht.pending_eq, hpend, List.drop_eq_nil_of_le (by omega)]
    have htake : (f.take n).fits = true := by
      rw [Filling.fits_iff, ht.text_eq, hpend, List.take_of_length_le (by omega)]
      exact hroom
    rw [Filling.fillAllFits_cons hf.stopped_eq, Step.fillFits, Step.fill]
    exact ⟨htake, Filling.fillAllFits_of_spent hspent ht.taken_ne htake rest⟩
  | @filled begun rest u v hne hu hv ih =>
    obtain ⟨hreads, htext⟩ := hf.take hne hu
    rw [← List.append_assoc, ← htext] at hroom
    have htake : (f.take u.length).fits = true := by
      rw [Text.bytes_append] at hroom
      exact Filling.fits_iff.2 (by omega)
    rw [Filling.fillAllFits_cons hf.stopped_eq, Step.fillFits, Step.fill]
    exact ⟨htake, ih hreads hroom htake⟩
  | waiting text rest =>
    rw [Filling.fillAllFits_cons hf.stopped_eq, Step.fillFits, Step.fill,
      Filling.place_of_stopping hf.pending_eq (by rw [hf.isLeading]; rfl)]
    exact ⟨by rw [Bool.and_eq_true]; exact ⟨hfits, rfl⟩, Filling.fillAllFits_of_stopped rfl rest⟩
  | @shown begun text rest v hcounts hlist hv ih =>
    obtain ⟨hreads, htext⟩ := hf.place hcounts
    rw [← List.append_assoc, ← htext] at hroom
    have hplace : (f.place typed text).fits = true := by
      rw [Text.bytes_append] at hroom
      exact Filling.fits_iff.2 (by omega)
    rw [Filling.fillAllFits_cons hf.stopped_eq, Step.fillFits, Step.fill]
    exact ⟨by simp [hplace, hlist], ih hreads hroom hplace⟩

/-- From the start, with silent text typed after it, a text is in front of the filling. -/
theorem Filling.reads_start {counts : Char → Bool} {w tail : Text}
    (htail : ∀ c ∈ tail, counts c = false) :
    (Filling.start ⟨w ++ tail, counts⟩).Reads ⟨w ++ tail, counts⟩ false w tail := by
  refine ⟨rfl, ?_, rfl, rfl, rfl⟩
  have hsilent : tail.filter counts = [] := List.filter_eq_nil_iff.2 (by simpa using htail)
  show (w ++ tail).filter counts = w.filter counts
  rw [List.filter_append, hsilent, List.append_nil]

/-- A text in the form of the layout is given back from the start, with silent text typed after it,
and there is room for that if the text can be held. -/
theorem ReadsBack.text_fill {counts : Char → Bool} {l : Layout} {w tail : Text}
    (h : ReadsBack counts false l w) (htail : ∀ c ∈ tail, counts c = false) :
    (l.fill ⟨w ++ tail, counts⟩).text = w := by
  have htyped : ReadsBack (Typed.mk (w ++ tail) counts).counts false l w := h
  exact htyped.text_fillAll (Filling.reads_start htail)

theorem ReadsBack.fillFits {counts : Char → Bool} {l : Layout} {w tail : Text}
    (h : ReadsBack counts false l w) (htail : ∀ c ∈ tail, counts c = false)
    (hroom : w.bytes ≤ Text.capacity) : l.fillFits ⟨w ++ tail, counts⟩ = true := by
  have htyped : ReadsBack (Typed.mk (w ++ tail) counts).counts false l w := h
  exact htyped.fillAllFits (Filling.reads_start htail) hroom

/-- With nothing typed after it, too. -/
theorem ReadsBack.given_back {counts : Char → Bool} {l : Layout} {w : Text}
    (h : ReadsBack counts false l w) (hroom : w.bytes ≤ Text.capacity) :
    l.fillFits ⟨w, counts⟩ = true ∧ (l.fill ⟨w, counts⟩).text = w := by
  have hfits := h.fillFits (List.forall_mem_nil _) hroom
  have htext := h.text_fill (List.forall_mem_nil _)
  rw [List.append_nil] at hfits htext
  exact ⟨hfits, htext⟩

/-! ## What is shown is of that form -/

/-- Steps that do not end in silent text after slots have taken characters. -/
def EndsCounted (counts : Char → Bool) (begun : Bool) (steps : List Step) : Prop :=
  ∀ front text, steps = front ++ [.fixed text] → (begun = true ∨ ∃ n, .slots n ∈ front) →
    text.filter counts ≠ []

section

variable {counts : Char → Bool} {begun : Bool} {rest : List Step}

theorem EndsCounted.of_slots {n : Nat} (h : EndsCounted counts begun (.slots n :: rest)) :
    EndsCounted counts true rest := by
  intro front text hrest _
  refine h (.slots n :: front) text ?_ (Or.inr ⟨n, List.mem_cons_self ..⟩)
  rw [hrest, List.cons_append]

theorem EndsCounted.of_fixed {first : Text} (h : EndsCounted counts begun (.fixed first :: rest)) :
    EndsCounted counts begun rest := by
  intro front text hrest hslots
  refine h (.fixed first :: front) text (by rw [hrest, List.cons_append]) ?_
  rcases hslots with hb | ⟨n, hn⟩
  · exact Or.inl hb
  · exact Or.inr ⟨n, List.mem_cons_of_mem _ hn⟩

theorem Layout.endsCounted {l : Layout} (h : ¬ l.EndsSilently counts) :
    EndsCounted counts false l := by
  intro front text hl hslots hnil
  rcases hslots with hb | hslots
  · cases hb
  · exact h ⟨front, text, hl, hslots, fun c hc => by simpa using List.filter_eq_nil_iff.1 hnil c hc⟩

end

/-- From the filling on the steps show a text of their form; something counts in it, if slots come
first and there is something to fill them with. -/
def ShowsForm (typed : Typed) (f : Filling) (steps : List Step) : Prop :=
  ∃ w, (fillAll typed f steps).text = f.text ++ w ∧
    ReadsBack typed.counts (f.taken != 0) steps w ∧
    ∀ n rest, steps = .slots n :: rest → f.pending ≠ [] → w.filter typed.counts ≠ []

section

variable {typed : Typed} {f : Filling} {rest : List Step}

theorem ShowsForm.slots {n : Nat} (hrun : f.stopped = false) (hn : n ≠ 0)
    (hpend : ∀ c ∈ f.pending, typed.counts c = true)
    (hrest : f.pending ≠ [] → ShowsForm typed (f.take n) rest) :
    ShowsForm typed f (.slots n :: rest) := by
  have hgo : ¬ f.stopped = true := by simp [hrun]
  rw [ShowsForm, fillAll, if_neg hgo, Step.fill]
  by_cases hp : f.pending = []
  · -- nothing is left for these slots
    refine ⟨[], ?_, .unfilled _ n rest, fun _ _ _ hne => absurd hp hne⟩
    rw [Filling.take_of_pending_nil hp, Filling.fillAll_of_stopped rfl]
    exact (List.append_nil f.text).symm
  · have ht := Filling.takes hn hp
    by_cases hlen : f.pending.length < n
    · -- all that is left goes into these slots
      have hspent : (f.take n).pending = [] := by
        rw [ht.pending_eq, List.drop_eq_nil_of_le (by omega)]
      refine ⟨f.pending, ?_, .partly hp hpend hlen, fun _ _ _ _ => ?_⟩
      · rw [Filling.text_fillAll_of_spent hspent ht.taken_ne, ht.text_eq,
          List.take_of_length_le (by omega)]
      · rwa [List.filter_eq_self.2 hpend]
    · have hlength : (f.pending.take n).length = n := by
        rw [List.length_take]
        omega
      have hu : ∀ c ∈ f.pending.take n, typed.counts c = true :=
        fun c hc => hpend c (List.mem_of_mem_take hc)
      have hune : f.pending.take n ≠ [] := by simp [hp, hn]
      have hbegun : ((f.take n).taken != 0) = true := by simpa using ht.taken_ne
      obtain ⟨v, hv, hback, -⟩ := hrest hp
      rw [hbegun] at hback
      have hfilled : ReadsBack typed.counts (f.taken != 0)
          (.slots (f.pending.take n).length :: rest) (f.pending.take n ++ v) :=
        .filled hune hu hback
      rw [hlength] at hfilled
      refine ⟨f.pending.take n ++ v, ?_, hfilled, fun _ _ _ _ => ?_⟩
      · rw [hv, ht.text_eq, List.append_assoc]
      · rw [List.filter_append, List.filter_eq_self.2 hu]
        exact List.append_ne_nil_of_left_ne_nil hune _

theorem ShowsForm.fixed {text : Text} (hrun : f.stopped = false) (hout : f.inBranch = false)
    (hnext : (Step.fixed text).StandsBefore rest) (hlinear : Layout.Linear rest)
    (hend : EndsCounted typed.counts (f.taken != 0) (.fixed text :: rest))
    (hfits : fillAllFits typed f (.fixed text :: rest) = true)
    (hrest : f.pending ≠ [] ∨ f.isLeading = true → ShowsForm typed (f.place typed text) rest) :
    ShowsForm typed f (.fixed text :: rest) := by
  have hgo : ¬ f.stopped = true := by simp [hrun]
  rw [ShowsForm, fillAll, if_neg hgo, Step.fill]
  by_cases hshown : f.pending ≠ [] ∨ f.isLeading = true
  · have hp := Filling.places typed text hshown
    obtain ⟨v, hv, hback, hfirst⟩ := hrest hshown
    rw [hp.taken_eq] at hback
    have hroom := (fillAllFits_iff _ f).1 hfits f _ (.first hrun)
    have hlist := hroom.2 (by rw [hp.stopped_eq, hrun])
    refine ⟨text ++ v, ?_, .shown ?_ hlist hback, fun n rest h => by cases h⟩
    · rw [hv, hp.text_eq, List.append_assoc]
    · intro hbegun hnil
      obtain ⟨htext, hvnil⟩ := List.append_eq_nil_iff.1 (List.filter_append .. ▸ hnil)
      -- silent text is not recognised as typed, so what was left is left for what follows
      have hsame := hp.pending_of_not fun he => he.1 htext
      have hleft : f.pending ≠ [] := by
        rcases hshown with h | h
        · exact h
        · simp only [Filling.isLeading, bne_iff_ne] at h hbegun
          simp [hbegun] at h
      cases rest with
      | nil => exact hend [] text rfl (Or.inl hbegun) htext
      | cons next rest =>
        cases next with
        | slots n => exact hfirst n rest rfl (by rwa [hsame]) hvnil
        | fixed other => exact hnext _ rfl trivial
        | either branches => exact hlinear branches (List.mem_cons_self ..)
  · obtain ⟨hp, hl⟩ := not_or.1 hshown
    have hp : f.pending = [] := Decidable.not_not.1 hp
    have hl : f.isLeading = false := by simpa using hl
    have hbegun : (f.taken != 0) = true := by
      simpa [Filling.isLeading, hout] using hl
    refine ⟨[], ?_, ?_, fun n rest h => by cases h⟩
    · rw [Filling.place_of_stopping hp hl, Filling.fillAll_of_stopped rfl]
      exact (List.append_nil f.text).symm
    · rw [hbegun]
      exact .waiting text rest

end

/-- **What a linear layout shows is of its form**, unless it ends in silent text, and as long as
there is room for it. -/
theorem readsBack_fillAll {typed : Typed} {steps : List Step} (hnormal : normalSteps steps)
    (hlinear : Layout.Linear steps) {f : Filling} (hrun : f.stopped = false)
    (hout : f.inBranch = false) (hpend : ∀ c ∈ f.pending, typed.counts c = true)
    (hend : EndsCounted typed.counts (f.taken != 0) steps)
    (hfits : fillAllFits typed f steps = true) : ShowsForm typed f steps := by
  induction steps generalizing f with
  | nil => exact ⟨[], by simp [fillAll], .nil _, fun n rest h => by cases h⟩
  | cons step rest ih =>
    obtain ⟨hstep, hnext, hnormal⟩ := hnormal
    have hlinear' : Layout.Linear rest := fun b hb => hlinear b (List.mem_cons_of_mem _ hb)
    have hfits' := ((Filling.fillAllFits_cons hrun).1 hfits).2
    cases step with
    | either branches => exact absurd (List.mem_cons_self ..) (hlinear branches)
    | slots n =>
      refine .slots hrun hstep hpend fun hp => ?_
      have ht := Filling.takes hstep hp
      have hbegun : ((f.take n).taken != 0) = true := by simpa using ht.taken_ne
      refine ih hnormal hlinear' (by rw [ht.stopped_eq, hrun]) (by rw [ht.inBranch_eq, hout])
        (fun c hc => hpend c ?_) (by rw [hbegun]; exact hend.of_slots) hfits'
      rw [ht.pending_eq] at hc
      exact List.mem_of_mem_drop hc
    | fixed text =>
      refine .fixed hrun hout hnext hlinear' hend hfits fun hshown => ?_
      have hp := Filling.places typed text hshown
      exact ih hnormal hlinear' (by rw [hp.stopped_eq, hrun]) (by rw [hp.inBranch_eq, hout])
        (fun c hc => hpend c (hp.mem_pending hc)) (by rw [hp.taken_eq]; exact hend.of_fixed) hfits'

end InputMask
