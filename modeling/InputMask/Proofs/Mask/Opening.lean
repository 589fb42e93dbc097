import InputMask.Proofs.Analysis.Opening
import InputMask.Proofs.Mask.Display

/-!
# The opening before anything is typed

With nothing typed a mask shows its opening, unless a choice keeps it from being shown.

* `reaches_cases` — in a branch the steps show what the walk over the pattern shows, as far
  as the opening goes.
* `opens_cases` — outside of branches the opening is shown exactly if no choice keeps it
  from being shown.
* `Mask.opening_prefix_display_iff` — the same of what a mask displays.
-/

namespace InputMask

/-! ## Branches -/

namespace Lead

/-- From `w` the walk over a part of a pattern comes to `l`, and the walk over its steps to `r`.
They are only apart where the opening `o` of the part ends. -/
inductive Reaches (w : Lead) (o : Opening) : Lead → Lead → Prop
  /-- Nothing has kept the opening from being shown. -/
  | through {l : Lead} {y : Text} (htext : l.text = w.text ++ y) (hgo : l.ended = false)
      (hle : o.text <+: y) (hall : o.complete = true → y = o.text) : Reaches w o l l
  /-- Something has, unless the opening ends here. -/
  | blocked {l : Lead} {y : Text} (htext : l.text = w.text ++ y) (hended : l.ended = true)
      (hpart : o.complete = true → y <+: o.text ∧ y ≠ o.text) : Reaches w o l l
  /-- The opening has ended, and the steps go on. -/
  | beyond {l r : Lead} {y : Text} (htext : l.text = w.text ++ y) (hended : l.ended = true)
      (hmore : l.text <+: r.text) (hle : o.text <+: y) (hopen : o.complete = false) :
      Reaches w o l r

variable {w l r : Lead} {o : Opening}

theorem Reaches.stay (hw : w.ended = false) : Reaches w .empty w w :=
  .through (List.append_nil _).symm hw List.prefix_rfl fun _ => rfl

theorem Reaches.finish (hmore : w.text <+: r.text) : Reaches w ⟨[], false⟩ w.finish r :=
  .beyond (List.append_nil _).symm rfl hmore List.prefix_rfl rfl

theorem Reaches.put (hw : w.ended = false) (inBranch : Bool) (text : Text) :
    Reaches w ⟨text, true⟩ (w.put inBranch text) (w.put inBranch text) := by
  unfold Lead.put
  split
  · rename_i hnil
    rw [hnil]
    exact .stay hw
  · rename_i hne
    split
    · exact .blocked (List.append_nil _).symm rfl fun _ => ⟨List.nil_prefix, Ne.symm hne⟩
    · exact .through rfl hw List.prefix_rfl fun _ => rfl

/-- What is reached inside a choice, seen from outside, with the opening that its branches share. -/
theorem Reaches.apart (h : Reaches w.apart o l r) {shared : Opening}
    (hle : shared.text <+: o.text)
    (hall : shared.complete = true → o.complete = true ∧ o.text = shared.text) :
    Reaches w shared l.apart r.apart := by
  cases h with
  | through htext hgo hle' hall' =>
    refine .through htext hgo (hle.trans hle') fun hc => ?_
    obtain ⟨hcomplete, heq⟩ := hall hc
    rw [hall' hcomplete, heq]
  | blocked htext hended hpart =>
    refine .blocked htext hended fun hc => ?_
    obtain ⟨hcomplete, heq⟩ := hall hc
    rw [← heq]
    exact hpart hcomplete
  | beyond htext hended hmore hle' hopen =>
    refine .beyond htext hended hmore (hle.trans hle') (Bool.eq_false_iff.2 fun hc => ?_)
    rw [(hall hc).1] at hopen
    cases hopen

/-- One part after another. -/
theorem Reaches.followedBy {l' r' : Lead} {next : Opening} (h : Reaches w o l r)
    (hnext : l = r → l.ended = false → Reaches l next l' r') (hl : l.ended = true → l' = l)
    (hr : r.ended = true → r' = r) (hmore : r.text <+: r'.text) :
    Reaches w (o.followedBy next) l' r' := by
  cases h with
  | @through y htext hgo hle hall =>
    have htext' : ∀ {v : Lead} {z : Text}, v.text = l.text ++ z → v.text = w.text ++ (y ++ z) :=
      fun hv => by rw [hv, htext, List.append_assoc]
    cases hc : o.complete with
    | false =>
      rw [Opening.followedBy_of_not_complete hc]
      have hle' : ∀ z, o.text <+: y ++ z := fun z => hle.trans (List.prefix_append _ _)
      cases hnext rfl hgo with
      | through hz hgo' _ _ =>
        exact .through (htext' hz) hgo' (hle' _) fun h => by rw [hc] at h; cases h
      | blocked hz hended' _ =>
        exact .blocked (htext' hz) hended' fun h => by rw [hc] at h; cases h
      | beyond hz hended' hmore' _ _ => exact .beyond (htext' hz) hended' hmore' (hle' _) hc
    | true =>
      rw [Opening.followedBy_of_complete hc, ← hall hc]
      cases hnext rfl hgo with
      | through hz hgo' hle' hall' =>
        exact .through (htext' hz) hgo' ((List.prefix_append_right_inj y).2 hle') fun h => by
          rw [hall' h]
      | blocked hz hended' hpart =>
        refine .blocked (htext' hz) hended' fun h => ?_
        obtain ⟨hpre, hne⟩ := hpart h
        refine ⟨(List.prefix_append_right_inj y).2 hpre, fun heq => hne ?_⟩
        exact List.append_cancel_left heq
      | beyond hz hended' hmore' hle' hopen =>
        exact .beyond (htext' hz) hended' hmore' ((List.prefix_append_right_inj y).2 hle') hopen
  | @blocked y htext hended hpart =>
    obtain rfl : l' = l := hl hended
    obtain rfl : r' = l' := hr hended
    refine .blocked htext hended fun h => ?_
    cases hc : o.complete with
    | false => rw [Opening.followedBy_of_not_complete hc, hc] at h; cases h
    | true =>
      obtain ⟨hpre, hne⟩ := hpart hc
      rw [Opening.followedBy_of_complete hc]
      refine ⟨hpre.trans (List.prefix_append _ _), fun heq => hne ?_⟩
      -- what is shown is no longer than the first opening
      refine hpre.eq_of_length_le ?_
      rw [heq, List.length_append]
      exact Nat.le_add_right _ _
  | beyond htext hended hmore' hle hopen =>
    rw [Opening.followedBy_of_not_complete hopen, hl hended]
    exact .beyond htext hended (hmore'.trans hmore) hle hopen

end Lead

/-- A walk that ends with the opening reaches no further than any steps. -/
theorem Piece.Varies.reaches {piece : Piece} (h : piece.Varies) (w : Lead) (steps : List Step) :
    w.Reaches piece.opening (piece.lead w) (leadOfSteps true w steps) := by
  rw [h.opening_eq, h.lead_eq]
  exact .finish (prefix_cases.steps steps true w)

/-- In a branch the steps show what the walk over the pattern shows, as far as the opening
goes. -/
theorem reaches_cases (limit : Nat) : Layout.Cases limit
    (fun piece steps => ∀ w : Lead, w.ended = false →
      w.Reaches piece.opening (piece.lead w) (leadOfSteps true w steps))
    (fun pieces steps => ∀ w : Lead, w.ended = false →
      w.Reaches (openingOfAll pieces) (leadOfAll w pieces) (leadOfSteps true w steps))
    (fun branches layouts => ∀ w : Lead, w.ended = false →
      w.Reaches (openingOfFirst branches) (leadOfFirstBranch w branches)
        (leadOfFirst w layouts)) where
  literal written meant times _ w hw := by
    cases honce : Repetition.isOnce times with
    | false => exact Piece.Varies.reaches (Or.inr ⟨rfl, honce⟩) w _
    | true =>
      rw [leadOfSteps_cons hw, Piece.opening, Piece.lead, honce]
      exact .put hw true meant
  literals written meant times n text honce _ _ w hw :=
    Piece.Varies.reaches (Piece.varies_of_takesSlots (Or.inr ⟨rfl, honce⟩)) w _
  slots piece hslots w hw := (Piece.varies_of_takesSlots hslots.1).reaches w _
  group body times steps _ ih w hw := by
    cases honce : Repetition.isOnce times with
    | false => exact Piece.Varies.reaches (Or.inr ⟨rfl, honce⟩) w _
    | true =>
      rw [Piece.opening, Piece.lead, honce]
      exact ih w hw
  groups body times n text whole honce _ _ _ w hw :=
    Piece.Varies.reaches (Piece.varies_of_takesSlots (Or.inr ⟨rfl, honce⟩)) w _
  choice branches times layouts _ ih w hw := by
    rw [leadOfSteps_cons hw]
    exact (ih w.apart hw).apart (Opening.shared_prefix branches) Opening.first_of_shared_complete
  anchor kind times w hw := .stay hw
  lookaround condition times w hw := .stay hw
  nil w hw := .stay hw
  cons piece rest front back ihFront ihBack w hw := by
    rw [openingOfAll, leadOfAll, if_neg (by simp [hw]), leadOfSteps_append]
    refine (ihFront w hw).followedBy (fun heq hgo => ?_) (fun hended => ?_)
      (fun hended => leadOfSteps_of_ended hended back) (prefix_cases.steps back true _)
    · rw [← heq]
      exact ihBack _ hgo
    · cases rest with
      | nil => rfl
      | cons next rest => rw [leadOfAll, if_pos hended]
  noBranch w hw := .stay hw
  branch branch rest steps layout layouts _ hm ihBranch _ w hw := by
    rw [openingOfFirst, leadOfFirstBranch, leadOfFirst, leadOfSteps_merge w hm]
    exact ihBranch w hw

/-! ## Outside of branches -/

namespace Lead

/-- From `w` the walk over some steps comes to `r`, and the opening `o` is shown on the way or not.
If it is complete and shown, nothing else is; if it is not shown, nothing more will be. -/
inductive Opens (w : Lead) (o : Opening) : Bool → Lead → Prop
  | shown {r : Lead} {y : Text} (htext : r.text = w.text ++ y) (hle : o.text <+: y)
      (hall : o.complete = true → y = o.text ∧ r.ended = false) : Opens w o true r
  | hidden {r : Lead} {y : Text} (htext : r.text = w.text ++ y) (hended : r.ended = true)
      (hnot : ¬ o.text <+: y) : Opens w o false r

variable {w l r : Lead} {o : Opening}

theorem Opens.put (hw : w.ended = false) (text : Text) :
    w.Opens ⟨text, true⟩ true (w.put false text) := by
  unfold Lead.put
  split
  · rename_i hnil
    rw [hnil]
    exact .shown (List.append_nil _).symm List.prefix_rfl fun _ => ⟨rfl, hw⟩
  · rw [if_neg (by simp)]
    exact .shown rfl List.prefix_rfl fun _ => ⟨rfl, hw⟩

theorem Opens.stay (hw : w.ended = false) : w.Opens .empty true w :=
  .shown (List.append_nil _).symm List.prefix_rfl fun _ => ⟨rfl, hw⟩

theorem Reaches.prefix_left (h : w.Reaches o l r) : w.text <+: l.text := by
  cases h with
  | through htext => exact ⟨_, htext.symm⟩
  | blocked htext => exact ⟨_, htext.symm⟩
  | beyond htext => exact ⟨_, htext.symm⟩

theorem Reaches.prefix_right (h : w.Reaches o l r) : l.text <+: r.text := by
  cases h with
  | through => exact List.prefix_rfl
  | blocked => exact List.prefix_rfl
  | beyond _ _ hmore => exact hmore

/-- What is shown of an opening in a branch is all that is shown of it. -/
theorem Reaches.opens (h : w.Reaches o l r) {y : Text} (hy : l.text = w.text ++ y) :
    w.Opens o (o.text.isPrefixOf y) r := by
  cases hpre : o.text.isPrefixOf y with
  | true =>
    have hpre : o.text <+: y := List.isPrefixOf_iff_prefix.1 hpre
    cases h with
    | through htext hgo hle hall =>
      exact .shown htext hle fun hc => ⟨hall hc, hgo⟩
    | blocked htext hended hpart =>
      obtain rfl := List.append_cancel_left (htext.symm.trans hy)
      refine .shown htext hpre fun hc => ?_
      obtain ⟨hle, hne⟩ := hpart hc
      exact absurd (hle.eq_of_length_le hpre.length_le) hne
    | beyond htext hended hmore hle hopen =>
      obtain ⟨z, hz⟩ := hmore
      rw [hy, List.append_assoc] at hz
      exact .shown hz.symm (hpre.trans (List.prefix_append _ _)) fun hc => by
        rw [hopen] at hc
        cases hc
  | false =>
    have hnot : ¬ o.text <+: y := fun hle => by
      rw [List.isPrefixOf_iff_prefix.2 hle] at hpre
      cases hpre
    cases h with
    | through htext hgo hle hall =>
      obtain rfl := List.append_cancel_left (htext.symm.trans hy)
      exact absurd hle hnot
    | blocked _ hended _ => exact .hidden hy hended hnot
    | beyond htext hended hmore hle hopen =>
      obtain rfl := List.append_cancel_left (htext.symm.trans hy)
      exact absurd hle hnot

/-- One part after another. -/
theorem Opens.followedBy {shows shows' : Bool} {r' : Lead} {next : Opening}
    (h : w.Opens o shows r)
    (hnext : r.text = w.text ++ o.text → r.ended = false → r.Opens next shows' r')
    (hr : r.ended = true → r' = r) (hmore : r.text <+: r'.text) :
    w.Opens (o.followedBy next) (shows && (!o.complete || shows')) r' := by
  cases h with
  | @shown _ y htext hle hall =>
    cases hc : o.complete with
    | false =>
      rw [Opening.followedBy_of_not_complete hc]
      obtain ⟨z, hz⟩ := hmore
      rw [htext, List.append_assoc] at hz
      exact .shown hz.symm (hle.trans (List.prefix_append _ _)) fun h => by
        rw [hc] at h
        cases h
    | true =>
      obtain ⟨rfl, hgo⟩ := hall hc
      rw [Opening.followedBy_of_complete hc]
      cases hnext htext hgo with
      | @shown _ z hz hle' hall' =>
        rw [htext, List.append_assoc] at hz
        exact .shown hz ((List.prefix_append_right_inj _).2 hle') fun h =>
          ⟨by rw [(hall' h).1], (hall' h).2⟩
      | @hidden _ z hz hended hnot =>
        rw [htext, List.append_assoc] at hz
        exact .hidden hz hended fun h => hnot ((List.prefix_append_right_inj _).1 h)
  | hidden htext hended hnot =>
    rw [hr hended]
    refine .hidden htext hended fun h => hnot ?_
    cases hc : o.complete with
    | false => rwa [Opening.followedBy_of_not_complete hc] at h
    | true =>
      rw [Opening.followedBy_of_complete hc] at h
      exact (List.prefix_append _ _).trans h

end Lead

/-- A choice outside of branches shows what its branches share if nothing stands in front of it and
its first branch shows as much. -/
theorem Lead.Reaches.opens_choice {w l r : Lead} {branches : List (List Piece)}
    (h : w.apart.Reaches (openingOfFirst branches) l r)
    (hfresh : w.text = [] → l = leadOfFirstBranch .start branches)
    (hbegun : w.text ≠ [] → r.text = w.text) :
    w.Opens (Opening.shared (openingsOf branches))
      (Atom.showsOpening (!w.text.isEmpty) (.choice branches)) r.apart := by
  have hshared := h.apart (Opening.shared_prefix branches) Opening.first_of_shared_complete
  rw [Atom.showsOpening]
  by_cases hw : w.text = []
  · have hopens := hshared.opens (y := l.text) (by rw [hw]; rfl)
    rw [hfresh hw] at hopens
    cases hnil : (Opening.shared (openingsOf branches)).text with
    | nil => simpa [hnil] using hopens
    | cons c rest => simpa [hnil, hw] using hopens
  · have htext : l.text = w.text :=
      (hbegun hw ▸ h.prefix_right).eq_of_length_le h.prefix_left.length_le
    have hbegun : w.text.isEmpty = false := by simpa using hw
    have hopens := hshared.opens (y := []) (by rw [List.append_nil]; exact htext)
    cases hnil : (Opening.shared (openingsOf branches)).text with
    | nil => simpa [hnil] using hopens
    | cons c rest => simpa [hnil, hbegun] using hopens

/-- At a piece where an opening ends nothing is left to be shown. -/
theorem Piece.Varies.opens {piece : Piece} (h : piece.Varies) (w : Lead) (steps : List Step) :
    w.Opens piece.opening (piece.showsOpening (!w.text.isEmpty)) (leadOfSteps false w steps) := by
  rw [h.opening_eq, h.showsOpening_eq]
  obtain ⟨y, hy⟩ := prefix_cases.steps steps false w
  exact .shown hy.symm List.nil_prefix fun h => by cases h

/-- Outside of branches each way in which steps come about shows an opening exactly if no choice
keeps it from being shown. -/
theorem opens_cases (limit : Nat) : Layout.Cases limit
    (fun piece steps => ∀ w : Lead, w.ended = false →
      w.Opens piece.opening (piece.showsOpening (!w.text.isEmpty)) (leadOfSteps false w steps))
    (fun pieces steps => ∀ w : Lead, w.ended = false →
      w.Opens (openingOfAll pieces) (showsOpeningOfAll (!w.text.isEmpty) pieces)
        (leadOfSteps false w steps))
    (fun _ _ => True) where
  literal written meant times _ w hw := by
    cases honce : Repetition.isOnce times with
    | false => exact Piece.Varies.opens (Or.inr ⟨rfl, honce⟩) w _
    | true =>
      rw [leadOfSteps_cons hw, Piece.opening, Piece.showsOpening, honce]
      exact .put hw meant
  literals written meant times n text honce _ _ w _ :=
    Piece.Varies.opens (Piece.varies_of_takesSlots (Or.inr ⟨rfl, honce⟩)) w _
  slots piece hslots w _ := (Piece.varies_of_takesSlots hslots.1).opens w _
  group body times steps _ ih w hw := by
    cases honce : Repetition.isOnce times with
    | false => exact Piece.Varies.opens (Or.inr ⟨rfl, honce⟩) w _
    | true =>
      rw [Piece.opening, Piece.showsOpening, honce]
      exact ih w hw
  groups body times n text whole honce _ _ _ w _ :=
    Piece.Varies.opens (Piece.varies_of_takesSlots (Or.inr ⟨rfl, honce⟩)) w _
  choice branches times layouts hl _ w hw := by
    rw [leadOfSteps_cons hw]
    refine ((reaches_cases limit).branches branches layouts hl w.apart hw).opens_choice ?_ ?_
    · intro hnil
      have hstart : w.apart = .start := by
        simp [Lead.apart, Lead.start, hnil, hw]
      rw [hstart]
    · intro hne
      cases layouts with
      | nil => rfl
      | cons layout rest => exact (begun_cases.steps layout w.apart hne rfl).1
  anchor kind times w hw := .stay hw
  lookaround condition times w hw := .stay hw
  nil w hw := .stay hw
  cons piece rest front back ihFront ihBack w hw := by
    rw [openingOfAll, showsOpeningOfAll, leadOfSteps_append]
    refine (ihFront w hw).followedBy (fun htext hgo => ?_)
      (fun hended => leadOfSteps_of_ended hended back) (prefix_cases.steps back false _)
    have hbegun : (!w.text.isEmpty || !piece.opening.text.isEmpty) =
        !(leadOfSteps false w front).text.isEmpty := by
      rw [htext]
      cases w.text <;> simp
    rw [hbegun]
    exact ihBack _ hgo
  noBranch := trivial
  branch _ _ _ _ _ _ _ _ _ := trivial

/-- The lead of a layout begins with the opening of its sequence exactly if no choice keeps the
opening from being shown. -/
theorem Sequence.opening_prefix_lead_iff {s : Sequence} {limit : Nat} {l : Layout}
    (hl : s.layout limit = .ok l) :
    s.opening.text <+: (leadOfSteps false .start l).text ↔ s.showsOpening = true := by
  obtain ⟨steps, hsteps, hmerge⟩ := Sequence.layout_eq_ok.1 hl
  rw [leadOfSteps_merge _ hmerge]
  have hopens : Lead.start.Opens s.opening s.showsOpening (leadOfSteps false .start steps) :=
    (opens_cases limit).pieces s steps hsteps .start rfl
  generalize s.showsOpening = shows, leadOfSteps false .start steps = lead at hopens ⊢
  cases hopens with
  | shown htext hle => simpa [htext, Lead.start] using hle
  | hidden htext _ hnot => simpa [htext, Lead.start] using hnot

namespace Mask

/-- **With nothing typed a mask shows its opening exactly if no choice keeps it from being
shown.** -/
theorem opening_prefix_display_iff {m : Mask} {s : Sequence} (hs : m.reading = .ok s)
    (hstated : s.statedLength? = none) {d : Display} (hd : m.display [] = .ok d) :
    m.opening <+: d.text ↔ s.showsOpening = true := by
  obtain ⟨l, hl⟩ : ∃ l, m.layout = .ok l := by
    rw [display, hs] at hd
    obtain ⟨l, hl, -⟩ := TextError.bind_eq_ok.1 hd
    exact ⟨l, hl⟩
  have hlayout : s.layout m.settings.limit = .ok l := layout_of_reading hs ▸ hl
  obtain ⟨-, rfl⟩ := Layout.present_eq_ok.1 ((display_eq hs hstated hl hd []).symm.trans hd)
  have hopening : m.opening = s.opening.text := by
    rw [opening, hs]
    rfl
  have htext : (l.fill (m.typed [])).text = (leadOfSteps false .start l).text :=
    Layout.text_fill_nil (Sequence.normal_layout hlayout) m.settings.counts
  rw [text_display hs hl, hopening, htext]
  exact Sequence.opening_prefix_lead_iff hlayout

/-- Branches that share text are shown as far as they do if they come first. -/
theorem opening_prefix_display_shared_start :
    Mask.opening ⟨"(ab|ac)[0-9]".toList, {}⟩ = ['a'] ∧
      ∃ d, Mask.display ⟨"(ab|ac)[0-9]".toList, {}⟩ [] = .ok d ∧ ['a'] <+: d.text := by
  have hs : Mask.reading ⟨"(ab|ac)[0-9]".toList, {}⟩ =
      .ok [⟨.group [⟨.choice [[⟨.plain ['a'], none⟩, ⟨.plain ['b'], none⟩],
        [⟨.plain ['a'], none⟩, ⟨.plain ['c'], none⟩]], none⟩], none⟩,
        ⟨.charClass "[0-9]".toList, none⟩] := by cbv
  have hd : Mask.display ⟨"(ab|ac)[0-9]".toList, {}⟩ [] = .ok ⟨['a', 'b'], 2⟩ := by cbv
  have hopening : Mask.opening ⟨"(ab|ac)[0-9]".toList, {}⟩ = ['a'] := by
    rw [opening, hs]
    decide
  refine ⟨hopening, _, hd, ?_⟩
  have hiff := opening_prefix_display_iff hs (by decide) hd
  rw [hopening] at hiff
  exact hiff.2 (by decide)

/-- Text in front of a choice keeps it from showing what its branches share. -/
theorem opening_hidden_by_text_before_choice :
    ∃ s, Mask.reading ⟨"x(a|a)".toList, {}⟩ = .ok s ∧ s.statedLength? = none ∧
      Mask.opening ⟨"x(a|a)".toList, {}⟩ = ['x', 'a'] ∧
      Mask.display ⟨"x(a|a)".toList, {}⟩ [] = .ok ⟨['x'], 1⟩ ∧ ¬ ['x', 'a'] <+: ['x'] := by
  have hs : Mask.reading ⟨"x(a|a)".toList, {}⟩ =
      .ok [⟨.plain ['x'], none⟩, ⟨.group [⟨.choice [[⟨.plain ['a'], none⟩],
        [⟨.plain ['a'], none⟩]], none⟩], none⟩] := by cbv
  refine ⟨_, hs, by decide, ?_, by cbv, by decide⟩
  rw [opening, hs]
  decide

end Mask

end InputMask
