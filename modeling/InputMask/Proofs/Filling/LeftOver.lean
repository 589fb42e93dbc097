import InputMask.Proofs.Filling.Capacity

/-!
# What is left over

Typed text is read from the front, and what is read is shown: in a slot, or as the fixed text
that it repeats. A character is left over only where a layout ends; until then no step, in the
layout or in a branch that is taken, ends the walk or leaves a slot empty.

* `Filling.Accounts` — what has been read and what has not make up the typed characters that
  count, and what has been read is shown in its order. `accounts_kept`: every step keeps this.
* `RunsThrough` — steps are carried out one by one up to the last, those of a branch that is
  taken too.
* `runsThrough_fillAll` — steps that leave a character over are run through.
* `Layout.fill_drops_nothing` — both of these for a whole layout.
-/

namespace InputMask

namespace Filling

/-! ## What has been read is shown -/

/-- What has been read and what has not make up the typed characters that count; what has been
read is shown in its order; and only with nothing left to read is there a stop. -/
structure Accounts (typed : Typed) (f : Filling) : Prop where
  input_eq : typed.input = f.used ++ f.pending
  used_sublist : f.used.Sublist (f.text.filter typed.counts)
  stopsSpent : f.StopsSpent

theorem accounts_start (typed : Typed) : Accounts typed (.start typed) :=
  ⟨rfl, List.nil_sublist _, fun hstopped => by cases hstopped⟩

section

variable {typed : Typed} {f g : Filling}

theorem Accounts.stop (h : Accounts typed f) (hp : f.pending = []) : Accounts typed f.stop :=
  ⟨h.input_eq, h.used_sublist, fun _ => hp⟩

theorem Accounts.counts_of_mem_pending (h : Accounts typed f) {c : Char} (hc : c ∈ f.pending) :
    typed.counts c = true := by
  have hinput : c ∈ typed.input := h.input_eq ▸ List.mem_append_right _ hc
  exact (List.mem_filter.1 hinput).2

/-- Reading on keeps the account if what is read is shown along with it. -/
theorem Accounts.advance {front more : Text} (h : Accounts typed f)
    (hpending : f.pending = front ++ g.pending) (hused : g.used = f.used ++ front)
    (htext : g.text = f.text ++ more) (hmore : front.Sublist (more.filter typed.counts))
    (hstopped : g.stopped = f.stopped) : Accounts typed g where
  input_eq := by rw [h.input_eq, hpending, hused, List.append_assoc]
  used_sublist := by
    rw [hused, htext, List.filter_append]
    exact h.used_sublist.append hmore
  stopsSpent hg := by
    have hspent : front ++ g.pending = [] := hpending ▸ h.stopsSpent (hstopped ▸ hg)
    exact (List.append_eq_nil_iff.1 hspent).2

theorem Accounts.take (h : Accounts typed f) (n : Nat) : Accounts typed (f.take n) := by
  by_cases hp : f.pending = []
  · rw [take_of_pending_nil hp]
    exact h.stop hp
  · have hcounts : (f.pending.take n).filter typed.counts = f.pending.take n :=
      List.filter_eq_self.2 fun c hc => h.counts_of_mem_pending (List.mem_of_mem_take hc)
    rw [take_of_pending_ne_nil hp]
    refine h.advance (List.take_append_drop n f.pending).symm rfl
      (?text : Filling.text _ = f.text ++ f.pending.take n) ?shown rfl
    case text => simp [Filling.text, Cell.ofText, Function.comp_def]
    case shown => exact hcounts.symm ▸ List.Sublist.refl _

theorem Accounts.place (h : Accounts typed f) (text : Text) :
    Accounts typed (f.place typed text) := by
  unfold Filling.place
  split
  · rename_i hstop
    exact h.stop (by simpa using (Bool.and_eq_true_iff.1 hstop).1)
  · dsimp only
    split
    · rename_i hecho
      have hfront := List.isPrefixOf_iff_prefix.1 (Bool.and_eq_true_iff.1 hecho).2
      exact h.advance (List.prefix_iff_eq_append.1 hfront).symm rfl (text_put .echoed text f)
        (List.Sublist.refl _) rfl
    · exact h.advance rfl (List.append_nil _).symm (text_put .fixed text f)
        (List.nil_sublist _) rfl

theorem Accounts.stopped_eq_false (h : Accounts typed f) (hp : f.pending ≠ []) :
    f.stopped = false := by
  simpa using mt h.stopsSpent hp

theorem accounts_kept (typed : Typed) : Kept typed (Accounts typed) where
  take n _ hf := hf.take n
  place text _ hf := hf.place text
  inBranch _ _ hf := ⟨hf.input_eq, hf.used_sublist, hf.stopsSpent⟩

/-! ## What has been read does not come back -/

/-- Once nothing is left to read, nothing is. -/
theorem spent_kept (typed : Typed) : Kept typed fun f => f.pending = [] where
  take n f hf := by rw [take_of_pending_nil hf]; exact hf
  place text f hf := by
    unfold Filling.place
    split
    · exact hf
    · dsimp only
      split
      · simp [hf]
      · exact hf
  inBranch _ _ hf := hf

theorem pending_ne_nil_of_fillAll {steps : List Step}
    (h : (InputMask.fillAll typed f steps).pending ≠ []) : f.pending ≠ [] :=
  fun hf => h ((spent_kept typed).fillAll steps f hf)

/-- Slots after which a character is left have all been filled. -/
theorem le_length_of_take {n : Nat} (h : (f.take n).pending ≠ []) : n ≤ f.pending.length := by
  by_cases hp : f.pending = []
  · rw [take_of_pending_nil hp] at h
    exact absurd hp h
  · by_cases hn : n = 0
    · omega
    · have hleft : f.pending.drop n ≠ [] := (takes hn hp).pending_eq ▸ h
      have hlt : n < f.pending.length := by simpa using hleft
      exact Nat.le_of_lt hlt

end

end Filling

/-! ## Steps are run through -/

/-- Steps are carried out from one filling to another without a stop: slots are filled to the
last, and of several branches the furthest one is run through in its turn. -/
inductive RunsThrough (typed : Typed) : Filling → List Step → Filling → Prop
  | nil {f : Filling} (hrun : f.stopped = false) : RunsThrough typed f [] f
  | slots {f g : Filling} {n : Nat} {rest : List Step} (hrun : f.stopped = false)
    (hroom : n ≤ f.pending.length) (hrest : RunsThrough typed (f.take n) rest g) :
    RunsThrough typed f (.slots n :: rest) g
  | fixed {f g : Filling} {text : Text} {rest : List Step} (hrun : f.stopped = false)
    (hrest : RunsThrough typed (f.place typed text) rest g) :
    RunsThrough typed f (.fixed text :: rest) g
  | noBranch {f g : Filling} {rest : List Step} (hrun : f.stopped = false)
    (hrest : RunsThrough typed f rest g) : RunsThrough typed f (.either [] :: rest) g
  | branch {f best g : Filling} {branches : List (List Step)} {branch rest : List Step}
    (hrun : f.stopped = false) (hmem : branch ∈ branches)
    (hbest : Filling.furthest? (fillEach typed { f with inBranch := true } branches) = some best)
    (hbranch : RunsThrough typed { f with inBranch := true } branch best)
    (hrest : RunsThrough typed { best with inBranch := f.inBranch } rest g) :
    RunsThrough typed f (.either branches :: rest) g

section

variable {typed : Typed}

mutual

/-- **Steps that leave a character over are run through.**  A walk stops only where nothing is
left to read, and what is left at the end was left at every step before. -/
theorem runsThrough_fillAll : ∀ (steps : List Step) (f : Filling), Filling.Accounts typed f →
    (fillAll typed f steps).pending ≠ [] → RunsThrough typed f steps (fillAll typed f steps)
  | [], f, hf, h => .nil (hf.stopped_eq_false h)
  | .slots n :: rest, f, hf, h => by
    have hrun := hf.stopped_eq_false (Filling.pending_ne_nil_of_fillAll h)
    rw [fillAll, hrun] at h ⊢
    exact .slots hrun (Filling.le_length_of_take (Filling.pending_ne_nil_of_fillAll h))
      (runsThrough_fillAll rest (f.take n) (hf.take n) h)
  | .fixed text :: rest, f, hf, h => by
    have hrun := hf.stopped_eq_false (Filling.pending_ne_nil_of_fillAll h)
    rw [fillAll, hrun] at h ⊢
    exact .fixed hrun (runsThrough_fillAll rest (f.place typed text) (hf.place text) h)
  | .either branches :: rest, f, hf, h => by
    have hrun := hf.stopped_eq_false (Filling.pending_ne_nil_of_fillAll h)
    have hkept := Filling.accounts_kept typed
    have hstart := hkept.inBranch true f hf
    have hnext := hkept.fill (.either branches) f hf
    rw [fillAll, hrun] at h ⊢
    simp only [Bool.false_eq_true, if_false, Step.fill] at h hnext ⊢
    cases hbest : Filling.furthest? (fillEach typed { f with inBranch := true } branches) with
    | none =>
      rw [hbest] at h hnext
      rw [fillEach_eq_map] at hbest
      obtain rfl : branches = [] := List.map_eq_nil_iff.1 (Filling.furthest?_eq_none hbest)
      exact .noBranch hrun (runsThrough_fillAll rest f hf h)
    | some best =>
      rw [hbest] at h hnext
      have hleft : best.pending ≠ [] :=
        Filling.pending_ne_nil_of_fillAll (f := { best with inBranch := f.inBranch }) h
      have hmem := Filling.mem_of_furthest? hbest
      obtain ⟨branch, hbranch, hruns⟩ := exists_runsThrough_of_mem branches _ hstart hmem hleft
      exact .branch hrun hbranch hbest hruns (runsThrough_fillAll rest _ hnext h)

/-- A branch that leaves a character over is run through. -/
theorem exists_runsThrough_of_mem : ∀ (branches : List (List Step)) (f : Filling),
    Filling.Accounts typed f → ∀ {best : Filling}, best ∈ fillEach typed f branches →
    best.pending ≠ [] → ∃ branch ∈ branches, RunsThrough typed f branch best
  | [], _, _, _, hmem, _ => by cases hmem
  | first :: rest, f, hf, best, hmem, hleft => by
    rcases List.mem_cons.1 hmem with heq | hmem
    · subst heq
      exact ⟨first, List.mem_cons_self .., runsThrough_fillAll first f hf hleft⟩
    · obtain ⟨branch, hbranch, hruns⟩ := exists_runsThrough_of_mem rest f hf hmem hleft
      exact ⟨branch, List.mem_cons_of_mem _ hbranch, hruns⟩

end

end

/-- **No typed character is dropped while there is room.**  Whatever the layout and whatever
counts, the typed characters that count are those that have been read and, behind them, those
that are left over. The former are shown in their order among what counts in the text; and if
there are any of the latter, every step of the layout, and of each branch that was taken, has
been carried out without a stop. -/
theorem Layout.fill_drops_nothing (l : Layout) (typed : Typed) :
    typed.input = (l.fill typed).used ++ (l.fill typed).pending ∧
      (l.fill typed).used.Sublist ((l.fill typed).text.filter typed.counts) ∧
      ((l.fill typed).pending ≠ [] → (l.fill typed).stopped = false ∧
        RunsThrough typed (.start typed) l (l.fill typed)) := by
  have hstart := Filling.accounts_start typed
  have hfill := (Filling.accounts_kept typed).fillAll l _ hstart
  exact ⟨hfill.input_eq, hfill.used_sublist, fun hleft =>
    ⟨hfill.stopped_eq_false hleft, runsThrough_fillAll l _ hstart hleft⟩⟩

/-- The first digit repeats the fixed text, the second branch takes more than the first, and the
layout ends before the typed text does. -/
theorem Layout.fill_drops_nothing_with_digits_left :
    ∃ (l : Layout) (typed : Typed), (l.fill typed).text = "1-2/34!".toList ∧
      (l.fill typed).used = "1234".toList ∧ (l.fill typed).pending = "56".toList ∧
      (l.fill typed).used.Sublist ((l.fill typed).text.filter typed.counts) ∧
      RunsThrough typed (.start typed) l (l.fill typed) := by
  refine ⟨[.fixed "1-".toList, .slots 1, .either [[.slots 1], [.fixed ['/'], .slots 2]],
    .fixed ['!']], ⟨"1-23456".toList, Char.isAlphanum⟩, by decide, by decide, by decide, ?_, ?_⟩
  · exact (Layout.fill_drops_nothing _ _).2.1
  · exact ((Layout.fill_drops_nothing _ _).2.2 (by decide)).2

end InputMask
