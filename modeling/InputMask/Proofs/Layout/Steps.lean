import InputMask.Layout.OfPattern

/-!
# How the steps of a pattern come about

`Layout.Cases` says once what the layout of a pattern can consist of. A piece is laid out
in one of seven ways: a literal as fixed text or as repeated fixed text, a class
or whatever occurs a varying number of times as slots, a group in line or as repeated
fixed text, alternatives as layouts of their own, and anchors and conditions not at all.

A property of the steps of pieces, of lists of pieces and of branches holds of every
layout if it holds in these seven cases and is kept where steps are put together.
-/

namespace InputMask

/-- Whether a piece may be laid out as slots: a class, or a literal or group that does not occur
at most once. -/
def Piece.TakesSlots (p : Piece) : Prop :=
  (∃ text, p.atom = .charClass text) ∨
    p.atom.isRepeatable = true ∧ Repetition.isAtMostOnce p.times = false

/-- Whether a piece is laid out as slots: it may be, and it is not one text a fixed number of
times. -/
def Piece.BecomesSlots (p : Piece) : Prop :=
  p.TakesSlots ∧
    ∀ n text, Repetition.count? p.times = some n → p.atom.fixedText ≠ .ok (some text)

section Induction

variable {limit : Nat} {P : Piece → List Step → Prop} {A : List Piece → List Step → Prop}
  {B : List (List Piece) → List Layout → Prop}

/-- What has to be shown of each way in which steps come about. -/
structure Layout.Cases (limit : Nat) (P : Piece → List Step → Prop)
    (A : List Piece → List Step → Prop) (B : List (List Piece) → List Layout → Prop) :
    Prop where
  literal : ∀ written meant times, Repetition.isAtMostOnce times = true →
    P ⟨.literal written meant, times⟩ [.fixed meant]
  literals : ∀ written meant times n text, Repetition.isAtMostOnce times = false →
    Repetition.count? times = some n → meant.repeated n = .ok text →
    P ⟨.literal written meant, times⟩ [.fixed text]
  slots : ∀ piece : Piece, piece.BecomesSlots → P piece (piece.slots limit)
  group : ∀ body times steps, Repetition.isAtMostOnce times = true → A body steps →
    P ⟨.group body, times⟩ steps
  groups : ∀ body times n text whole, Repetition.isAtMostOnce times = false →
    Repetition.count? times = some n → fixedTextOfAll 0 body = .ok (some text) →
    text.repeated n = .ok whole → P ⟨.group body, times⟩ [.fixed whole]
  choice : ∀ branches times layouts, layoutsOf limit branches = .ok layouts → B branches layouts →
    P ⟨.choice branches, times⟩ [.either layouts]
  anchor : ∀ kind times, P ⟨.anchor kind, times⟩ []
  lookaround : ∀ condition times, P ⟨.lookaround condition, times⟩ []
  nil : A [] []
  cons : ∀ piece rest front back, P piece front → A rest back → A (piece :: rest) (front ++ back)
  noBranch : B [] []
  branch : ∀ branch rest steps layout layouts, stepsOfAll limit branch = .ok steps →
    Layout.merge steps = .ok layout → A branch steps → B rest layouts →
    B (branch :: rest) (layout :: layouts)

mutual

theorem Layout.Cases.piece (h : Layout.Cases limit P A B) : ∀ (piece : Piece) (steps : List Step),
    piece.steps limit = .ok steps → P piece steps
  | ⟨.literal written meant, times⟩, steps, hs => by
    rw [Piece.steps] at hs
    split at hs
    · rename_i honce
      cases hs
      exact h.literal written meant times honce
    · rename_i honce
      have honce : Repetition.isAtMostOnce times = false := by simpa using honce
      split at hs
      · rename_i n hn
        obtain ⟨text, ht, hs⟩ := TextError.bind_eq_ok.1 hs
        cases hs
        exact h.literals written meant times n text honce hn ht
      · rename_i hnone
        cases hs
        exact h.slots _ ⟨Or.inr ⟨rfl, honce⟩, fun n text hn => by cases hnone.symm.trans hn⟩
  | ⟨.charClass text, times⟩, steps, hs => by
    rw [Piece.steps] at hs
    cases hs
    refine h.slots _ ⟨Or.inl ⟨text, rfl⟩, fun n fixed _ hfixed => ?_⟩
    rw [Atom.fixedText] at hfixed
    cases hfixed
  | ⟨.group body, times⟩, steps, hs => by
    rw [Piece.steps] at hs
    split at hs
    · rename_i honce
      exact h.group body times steps honce (h.pieces body steps hs)
    · rename_i honce
      have honce : Repetition.isAtMostOnce times = false := by simpa using honce
      obtain ⟨fixed, hf, hs⟩ := TextError.bind_eq_ok.1 hs
      split at hs
      · rename_i n text hn
        obtain ⟨whole, hw, hs⟩ := TextError.bind_eq_ok.1 hs
        cases hs
        exact h.groups body times n text whole honce hn hf hw
      · rename_i hother
        cases hs
        refine h.slots _ ⟨Or.inr ⟨rfl, honce⟩, fun n text hn htext => ?_⟩
        exact hother n text hn (Except.ok.inj (hf.symm.trans htext))
  | ⟨.choice branches, times⟩, steps, hs => by
    rw [Piece.steps] at hs
    obtain ⟨layouts, hl, hs⟩ := TextError.bind_eq_ok.1 hs
    cases hs
    exact h.choice branches times layouts hl (h.branches branches layouts hl)
  | ⟨.anchor kind, times⟩, steps, hs => by
    rw [Piece.steps] at hs
    cases hs
    exact h.anchor kind times
  | ⟨.lookaround condition, times⟩, steps, hs => by
    rw [Piece.steps] at hs
    cases hs
    exact h.lookaround condition times

theorem Layout.Cases.pieces (h : Layout.Cases limit P A B) :
    ∀ (pieces : List Piece) (steps : List Step), stepsOfAll limit pieces = .ok steps →
      A pieces steps
  | [], steps, hs => by
    rw [stepsOfAll] at hs
    cases hs
    exact h.nil
  | piece :: rest, steps, hs => by
    rw [stepsOfAll] at hs
    obtain ⟨front, hf, hs⟩ := TextError.bind_eq_ok.1 hs
    obtain ⟨back, hb, hs⟩ := TextError.bind_eq_ok.1 hs
    cases hs
    exact h.cons piece rest front back (h.piece piece front hf) (h.pieces rest back hb)

theorem Layout.Cases.branches (h : Layout.Cases limit P A B) :
    ∀ (branches : List (List Piece)) (layouts : List Layout),
    layoutsOf limit branches = .ok layouts → B branches layouts
  | [], layouts, hl => by
    rw [layoutsOf] at hl
    cases hl
    exact h.noBranch
  | branch :: rest, layouts, hl => by
    rw [layoutsOf] at hl
    obtain ⟨steps, hs, hl⟩ := TextError.bind_eq_ok.1 hl
    obtain ⟨layout, hm, hl⟩ := TextError.bind_eq_ok.1 hl
    obtain ⟨others, ho, hl⟩ := TextError.bind_eq_ok.1 hl
    cases hl
    exact h.branch branch rest steps layout others hs hm (h.pieces branch steps hs)
      (h.branches rest others ho)

end

end Induction

/-- A layout is the merged steps of the sequence. -/
theorem Sequence.layout_eq_ok {limit : Nat} {s : Sequence} {l : Layout} :
    s.layout limit = .ok l ↔ ∃ steps, stepsOfAll limit s = .ok steps ∧ Layout.merge steps = .ok l :=
  TextError.bind_eq_ok

/-! ## Merging -/

namespace Layout

theorem merge_cons (step : Step) (rest : List Step) :
    merge (step :: rest) = merge rest >>= join step :=
  List.foldrM_cons ..

/-- What holds of no steps, and is kept where a step is joined to what is merged already, holds of
everything that is merged. -/
@[elab_as_elim]
theorem merge_induction {M : List Step → Layout → Prop} (nil : M [] [])
    (cons : ∀ step rest l joined, M rest l → join step l = .ok joined → M (step :: rest) joined)
    {steps : List Step} {merged : Layout} (h : merge steps = .ok merged) : M steps merged := by
  induction steps generalizing merged with
  | nil =>
    cases h
    exact nil
  | cons step rest ih =>
    rw [merge_cons] at h
    obtain ⟨l, hl, hjoin⟩ := TextError.bind_eq_ok.1 h
    exact cons step rest l merged (ih hl) hjoin

/-- Joining only fails where two fixed texts cannot be held together. -/
theorem exists_join {step : Step} {l : Layout}
    (hroom : ∀ s t rest, step = .fixed s → l = .fixed t :: rest →
      Text.bytes s + Text.bytes t ≤ Text.capacity) : ∃ joined, join step l = .ok joined := by
  rcases step with (_ | n) | (_ | ⟨c, s⟩) | branches
  · exact ⟨_, rfl⟩
  · rcases l with _ | ⟨_ | _ | _, rest⟩ <;> exact ⟨_, rfl⟩
  · exact ⟨_, rfl⟩
  · rcases l with _ | ⟨_ | t | _, rest⟩
    case cons.fixed =>
      have hput : Text.behind (Text.bytes (c :: s)) t = .ok t :=
        Text.behind_eq_ok.2 ⟨hroom _ t rest rfl rfl, rfl⟩
      exact ⟨_, TextError.bind_eq_ok.2 ⟨t, hput, rfl⟩⟩
    all_goals exact ⟨_, rfl⟩
  · rcases l with _ | ⟨_ | _ | _, rest⟩ <;> exact ⟨_, rfl⟩

/-- The ways in which a step is joined to what stands behind it. -/
@[elab_as_elim]
theorem join_cases {J : Step → Layout → Layout → Prop} (noSlots : ∀ l, J (.slots 0) l l)
    (noText : ∀ l, J (.fixed []) l l)
    (slots : ∀ m n rest, m ≠ 0 →
      J (.slots m) (.slots n :: rest) (.slots (Count.add m n) :: rest))
    (fixed : ∀ s t rest, s ≠ [] → Text.bytes s + Text.bytes t ≤ Text.capacity →
      J (.fixed s) (.fixed t :: rest) (.fixed (s ++ t) :: rest))
    (cons : ∀ step l, step ≠ .slots 0 → step ≠ .fixed [] →
      (∀ m n rest, step = .slots m → l ≠ .slots n :: rest) →
      (∀ s t rest, step = .fixed s → l ≠ .fixed t :: rest) → J step l (step :: l))
    {step : Step} {l joined : Layout} (h : join step l = .ok joined) : J step l joined := by
  unfold join at h
  split at h
  · cases h
    exact noSlots _
  · cases h
    exact noText _
  · rename_i m n rest hm
    cases h
    exact slots m n rest fun h0 => hm (by rw [h0])
  · rename_i s t rest hs
    obtain ⟨put, hput, hjoined⟩ := TextError.bind_eq_ok.1 h
    obtain ⟨hroom, rfl⟩ := Text.behind_eq_ok.1 hput
    cases hjoined
    exact fixed s put rest (fun h0 => hs (by rw [h0])) hroom
  · rename_i h1 h2 h3 h4
    cases h
    exact cons step l h1 h2 h3 h4

end Layout

end InputMask
