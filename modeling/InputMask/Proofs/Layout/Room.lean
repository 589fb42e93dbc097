import InputMask.Layout.Template
import InputMask.Proofs.Layout.Steps

/-!
# Room for layouts and templates

A layout is worked out unless a text that has to be written on the way would be longer than a
text can be: one that is written several times in a row, or one that is put behind another. The
same holds of a template. Both can be told from sizes alone, without writing any of the texts:
here are the sizes, and the proof that they decide it.

* `Sized` — a value is there exactly if it fits, and is then of a known size. `Sized.bind` puts
  two parts together.
* `fixedTextOfAll_sized` — the one text that pieces can match.
* `Layout.merge_sized` — steps with neighbours joined, `stepsOfAll_sized` — the steps of pieces.
* `Sequence.exists_layout_iff` — there is a layout exactly if `Sequence.layoutFits`.
* `Layout.exists_template_iff` — there is a template exactly if `Layout.templateFits`.
-/

namespace InputMask

/-- A value can be worked out exactly if it fits, and then its size is the expected one. -/
structure Sized {α σ : Type} (size : α → σ) (value : Except TextError α) (fits : Bool)
    (expected : σ) : Prop where
  exists_iff : (∃ a, value = .ok a) ↔ fits = true
  size_eq : ∀ a, value = .ok a → size a = expected

section Sized

variable {α β σ τ : Type} {size : α → σ} {sizeNext : β → τ}

theorem Sized.of_ok {a : α} {expected : σ} (h : size a = expected) :
    Sized size (.ok a) true expected where
  exists_iff := ⟨fun _ => rfl, fun _ => ⟨a, rfl⟩⟩
  size_eq := by
    intro b hb
    cases hb
    exact h

theorem Sized.of_error {e : TextError} {expected : σ} :
    Sized size (.error e : Except TextError α) false expected where
  exists_iff := by simp
  size_eq _ h := nomatch h

/-- What is refused under a condition fits exactly if that is met. -/
theorem Sized.of_ite {p : Prop} [Decidable p] {a : α} {e : TextError} {expected : σ}
    (h : size a = expected) :
    Sized size (if p then .ok a else .error e) (decide p) expected := by
  by_cases hp : p
  · simpa [hp] using Sized.of_ok h
  · simpa [hp] using Sized.of_error

/-- Work in two parts fits exactly if both parts do, where the second may depend on the size of
what came first. -/
theorem Sized.bind {value : Except TextError α} {f : α → Except TextError β} {fits fitsNext : Bool}
    {expected : σ} {next : τ} (h : Sized size value fits expected)
    (hf : ∀ a, size a = expected → Sized sizeNext (f a) fitsNext next) :
    Sized sizeNext (value >>= f) (fits && fitsNext) next where
  exists_iff := by
    rw [Bool.and_eq_true, ← h.exists_iff]
    constructor
    · rintro ⟨b, hb⟩
      obtain ⟨a, ha, hb⟩ := TextError.bind_eq_ok.1 hb
      exact ⟨⟨a, ha⟩, (hf a (h.size_eq a ha)).exists_iff.1 ⟨b, hb⟩⟩
    · rintro ⟨⟨a, ha⟩, hnext⟩
      obtain ⟨b, hb⟩ := (hf a (h.size_eq a ha)).exists_iff.2 hnext
      exact ⟨b, TextError.bind_eq_ok.2 ⟨a, ha, hb⟩⟩
  size_eq := by
    intro b hb
    obtain ⟨a, ha, hb⟩ := TextError.bind_eq_ok.1 hb
    exact (hf a (h.size_eq a ha)).size_eq b hb

/-- What is made of a value at once needs no further room. -/
theorem Sized.bind_ok {value : Except TextError α} {f : α → β} {fits : Bool} {expected : σ}
    {next : τ} (h : Sized size value fits expected)
    (hf : ∀ a, size a = expected → sizeNext (f a) = next) :
    Sized sizeNext (value >>= fun a => .ok (f a)) fits next := by
  rw [← Bool.and_true fits]
  exact h.bind fun a ha => .of_ok (hf a ha)

/-- Whether a value fits can be said without its size. -/
theorem Sized.forget {value : Except TextError α} {fits : Bool} {expected : σ}
    (h : Sized size value fits expected) : Sized (fun _ => ()) value fits () :=
  ⟨h.exists_iff, fun _ _ => rfl⟩

theorem Sized.map {value : Except TextError α} {f : α → β} {fits : Bool} {expected : σ}
    {next : τ} (h : Sized size value fits expected)
    (hf : ∀ a, size a = expected → sizeNext (f a) = next) :
    Sized sizeNext (f <$> value) fits next := by
  rw [map_eq_pure_bind]
  exact h.bind_ok hf

end Sized

namespace Text

theorem bytes_copies (n : Nat) (text : Text) : bytes (text.copies n) = text.bytes * n := by
  rw [copies_eq_flatten]
  induction n with
  | zero => rfl
  | succ n ih =>
    rw [List.replicate_succ, List.flatten_cons, bytes_append, ih, Nat.mul_succ, Nat.add_comm]

theorem bytes_replicate (n : Nat) (c : Char) : bytes (List.replicate n c) = n * c.utf8Size := by
  induction n with
  | zero => simp
  | succ n ih => rw [List.replicate_succ, bytes_cons, ih, Nat.succ_mul, Nat.add_comm]

/-- Whether a text of so many bytes can be written `n` times in a row. -/
def fitsTimes (n bytes : Nat) : Bool := bytes * n ≤ capacity

theorem repeated_sized (n : Nat) (text : Text) :
    Sized bytes (text.repeated n) (fitsTimes n text.bytes) (text.bytes * n) :=
  .of_ite (bytes_copies n text)

/-- Whether a text of so many bytes can be put behind `used` bytes of another one. -/
def fitsBehind (used bytes : Nat) : Bool := used + bytes ≤ capacity

theorem behind_sized (used : Nat) (text : Text) :
    Sized bytes (text.behind used) (fitsBehind used text.bytes) text.bytes :=
  .of_ite rfl

end Text

/-! ## Fixed text -/

mutual

/-- The bytes of the one text that an atom matches, if its structure says so. -/
def Atom.fixedBytes? : Atom → Option Nat
  | .literal _ meant => some meant.bytes
  | .charClass _ => none
  | .group body => fixedBytesOfAll? body
  | .choice _ => none
  | .anchor _ => some 0
  | .lookaround _ => some 0

/-- The bytes of the one text that a piece matches. -/
def Piece.fixedBytes? : Piece → Option Nat
  | ⟨atom, times⟩ =>
    match Repetition.count? times with
    | none => none
    | some n => atom.fixedBytes?.map (· * n)

/-- The bytes of the one text that pieces match one after another. -/
def fixedBytesOfAll? : List Piece → Option Nat
  | [] => some 0
  | piece :: rest =>
    match piece.fixedBytes? with
    | none => none
    | some bytes => (fixedBytesOfAll? rest).map (bytes + ·)

end

mutual

/-- Whether the texts can be held that are written on the way to the fixed text of an atom. -/
def Atom.fixedTextFits : Atom → Bool
  | .group body => fixedTextFitsInAll 0 body
  | _ => true

/-- Whether the texts can be held that are written on the way to the fixed text of a piece. A
piece that does not occur a fixed number of times is not looked into. -/
def Piece.fixedTextFits : Piece → Bool
  | ⟨atom, times⟩ =>
    match Repetition.count? times with
    | none => true
    | some n => atom.fixedTextFits && atom.fixedBytes?.all (Text.fitsTimes n)

/-- Whether the texts can be held that are written on the way to the fixed text of pieces, behind
`used` bytes of the same text. After the first piece without one, no other is looked at. -/
def fixedTextFitsInAll (used : Nat) : List Piece → Bool
  | [] => true
  | piece :: rest =>
    piece.fixedTextFits && piece.fixedBytes?.all fun bytes =>
      Text.fitsBehind used bytes && fixedTextFitsInAll (used + bytes) rest

end

mutual

theorem Atom.fixedText_sized : ∀ atom : Atom,
    Sized (Option.map Text.bytes) atom.fixedText atom.fixedTextFits atom.fixedBytes?
  | .literal _ _ | .charClass _ | .choice _ | .anchor _ | .lookaround _ => .of_ok rfl
  | .group body => fixedTextOfAll_sized body 0

theorem Piece.fixedText_sized : ∀ piece : Piece,
    Sized (Option.map Text.bytes) piece.fixedText piece.fixedTextFits piece.fixedBytes?
  | ⟨atom, times⟩ => by
    rw [Piece.fixedText, Piece.fixedTextFits, Piece.fixedBytes?]
    cases Repetition.count? times with
    | none => exact .of_ok rfl
    | some n =>
      apply atom.fixedText_sized.bind
      intro found hfound
      -- what comes next is known from the size, so the size stands for what was found
      rw [← hfound]
      cases found with
      | none => exact .of_ok rfl
      | some text =>
        exact (Text.repeated_sized n text).map fun whole hwhole => congrArg some hwhole

/-- The sizes tell whether the one text of pieces can be worked out, and how long it is. -/
theorem fixedTextOfAll_sized : ∀ (pieces : List Piece) (used : Nat),
    Sized (Option.map Text.bytes) (fixedTextOfAll used pieces) (fixedTextFitsInAll used pieces)
      (fixedBytesOfAll? pieces)
  | [], _ => .of_ok rfl
  | piece :: rest, used => by
    rw [fixedTextOfAll, fixedTextFitsInAll, fixedBytesOfAll?]
    apply piece.fixedText_sized.bind
    intro found hfound
    rw [← hfound]
    cases found with
    | none => exact .of_ok rfl
    | some text =>
      apply (Text.behind_sized used text).bind
      intro put hput
      rw [hput, ← Bool.and_true (fixedTextFitsInAll _ rest)]
      apply (fixedTextOfAll_sized rest (used + text.bytes)).bind
      intro others hothers
      rw [← hothers]
      cases others with
      | none => exact .of_ok rfl
      | some others => exact .of_ok (congrArg some (by rw [Text.bytes_append, hput]))

end

/-! ## Merging -/

/-- The bytes of the text that a step shows, if it shows nothing else. Slots for no character
are no more than empty text. -/
def Step.textBytes? : Step → Option Nat
  | .slots n => if n = 0 then some 0 else none
  | .fixed text => some text.bytes
  | .either _ => none

namespace Layout

/-- The bytes of the text that a layout begins with, if it begins with text. -/
def headBytes? : Layout → Option Nat
  | .fixed text :: _ => some text.bytes
  | _ => none

/-- The bytes of text that stands in front of what begins with `ahead` bytes of text. -/
def bytesBefore (ahead : Option Nat) : Option Nat → Option Nat
  | none => none
  | some n => if n = 0 then ahead else some (n + ahead.getD 0)

/-- Whether text can be joined to what begins with `ahead` bytes of text. -/
def fitsBefore (ahead : Option Nat) : Option Nat → Bool
  | none => true
  | some n => n = 0 || ahead.all (Text.fitsBehind n)

/-- The bytes of the text that steps of such sizes begin with, once they are merged. -/
def frontBytes? : List (Option Nat) → Option Nat
  | [] => none
  | size :: rest => bytesBefore (frontBytes? rest) size

/-- Whether the texts can be held that come about where steps of such sizes are merged. -/
def mergeFits : List (Option Nat) → Bool
  | [] => true
  | size :: rest => mergeFits rest && fitsBefore (frontBytes? rest) size

theorem fitsBefore_of_pos {ahead : Option Nat} {n : Nat} (hn : n ≠ 0) :
    fitsBefore ahead (some n) = ahead.all (Text.fitsBehind n) := by
  simp [fitsBefore, hn]

theorem bytesBefore_of_pos {ahead : Option Nat} {n : Nat} (hn : n ≠ 0) :
    bytesBefore ahead (some n) = some (n + ahead.getD 0) :=
  if_neg hn

/-- The sizes of a step and of what it is joined to tell whether they can be joined. -/
theorem join_sized (step : Step) (l : Layout) :
    Sized headBytes? (join step l) (fitsBefore l.headBytes? step.textBytes?)
      (bytesBefore l.headBytes? step.textBytes?) := by
  rcases step with (_ | n) | (_ | ⟨c, s⟩) | branches
  · exact .of_ok rfl
  · rcases l with _ | ⟨_ | _ | _, rest⟩ <;> exact .of_ok rfl
  · exact .of_ok rfl
  · have hpos : Text.bytes (c :: s) ≠ 0 := by
      have := c.utf8Size_pos
      rw [Text.bytes_cons]
      omega
    rw [Step.textBytes?, fitsBefore_of_pos hpos, bytesBefore_of_pos hpos]
    rcases l with _ | ⟨_ | t | _, rest⟩
    case cons.fixed =>
      refine (Text.behind_sized _ t).bind_ok fun put hput => ?_
      exact congrArg some (by rw [Text.bytes_append, hput]; rfl)
    all_goals exact .of_ok rfl
  · rcases l with _ | ⟨_ | _ | _, rest⟩ <;> exact .of_ok rfl

/-- The sizes of steps tell whether they can be merged. -/
theorem merge_sized (steps : List Step) :
    Sized headBytes? (merge steps) (mergeFits (steps.map Step.textBytes?))
      (frontBytes? (steps.map Step.textBytes?)) := by
  induction steps with
  | nil => exact .of_ok rfl
  | cons step rest ih =>
    rw [merge_cons, List.map_cons, mergeFits, frontBytes?]
    refine ih.bind fun l hl => ?_
    rw [← hl]
    exact join_sized step l

end Layout

/-! ## Layouts -/

/-- The size of slots for all that a piece can match. -/
def Piece.slotBytes (limit : Nat) (piece : Piece) : List (Option Nat) :=
  (piece.slots limit).map Step.textBytes?

mutual

/-- The sizes of the steps of a piece. -/
def Piece.stepBytes (limit : Nat) : Piece → List (Option Nat)
  | ⟨.literal written meant, times⟩ =>
    if Repetition.isAtMostOnce times then [some meant.bytes]
    else
      match Repetition.count? times with
      | some n => [some (meant.bytes * n)]
      | none => Piece.slotBytes limit ⟨.literal written meant, times⟩
  | ⟨.charClass text, times⟩ => Piece.slotBytes limit ⟨.charClass text, times⟩
  | ⟨.group body, times⟩ =>
    if Repetition.isAtMostOnce times then stepBytesOfAll limit body
    else
      match Repetition.count? times, fixedBytesOfAll? body with
      | some n, some bytes => [some (bytes * n)]
      | _, _ => Piece.slotBytes limit ⟨.group body, times⟩
  | ⟨.choice _, _⟩ => [none]
  | ⟨.anchor _, _⟩ => []
  | ⟨.lookaround _, _⟩ => []

/-- The sizes of the steps of pieces that follow one another. -/
def stepBytesOfAll (limit : Nat) : List Piece → List (Option Nat)
  | [] => []
  | piece :: rest => piece.stepBytes limit ++ stepBytesOfAll limit rest

end

mutual

/-- Whether the texts can be held that are written for the steps of a piece. Of a group that occurs
at most once these are the texts of its pieces, and of one that occurs a fixed number of times its
own text, written that often. -/
def Piece.stepsFit (limit : Nat) : Piece → Bool
  | ⟨.literal _ meant, times⟩ =>
    Repetition.isAtMostOnce times ||
      (Repetition.count? times).all fun n => Text.fitsTimes n meant.bytes
  | ⟨.group body, times⟩ =>
    if Repetition.isAtMostOnce times then stepsFitInAll limit body
    else
      fixedTextFitsInAll 0 body &&
        (Repetition.count? times).all fun n => (fixedBytesOfAll? body).all (Text.fitsTimes n)
  | ⟨.choice branches, _⟩ => layoutFitsInAny limit branches
  | _ => true

/-- Whether the texts can be held that are written for the steps of pieces. -/
def stepsFitInAll (limit : Nat) : List Piece → Bool
  | [] => true
  | piece :: rest => piece.stepsFit limit && stepsFitInAll limit rest

/-- Whether the texts can be held that are written for the layouts of several branches. -/
def layoutFitsInAny (limit : Nat) : List (List Piece) → Bool
  | [] => true
  | branch :: rest =>
    (stepsFitInAll limit branch && Layout.mergeFits (stepBytesOfAll limit branch)) &&
      layoutFitsInAny limit rest

end

/-- Whether the texts can be held that are written for the layout of a sequence: those of its
steps, and those that come about where the steps are merged. -/
def Sequence.layoutFits (limit : Nat) (s : Sequence) : Bool :=
  stepsFitInAll limit s && Layout.mergeFits (stepBytesOfAll limit s)

mutual

theorem Piece.steps_sized (limit : Nat) : ∀ piece : Piece,
    Sized (List.map Step.textBytes?) (piece.steps limit) (piece.stepsFit limit)
      (piece.stepBytes limit)
  | ⟨.literal written meant, times⟩ => by
    rw [Piece.steps, Piece.stepsFit, Piece.stepBytes]
    by_cases honce : Repetition.isAtMostOnce times = true
    · rw [if_pos honce, if_pos honce, honce, Bool.true_or]
      exact .of_ok rfl
    · rw [if_neg honce, if_neg honce, Bool.of_not_eq_true honce, Bool.false_or]
      cases Repetition.count? times with
      | none => exact .of_ok rfl
      | some n =>
        exact (Text.repeated_sized n meant).bind_ok fun text htext =>
          congrArg (fun bytes => [some bytes]) htext
  | ⟨.group body, times⟩ => by
    rw [Piece.steps, Piece.stepsFit, Piece.stepBytes]
    by_cases honce : Repetition.isAtMostOnce times = true
    · rw [if_pos honce, if_pos honce, if_pos honce]
      exact stepsOfAll_sized limit body
    · rw [if_neg honce, if_neg honce, if_neg honce]
      -- the fixed text is worked out first, also if the group then turns out to be slots
      apply (fixedTextOfAll_sized body 0).bind
      intro found hfound
      rw [← hfound]
      cases Repetition.count? times with
      | none => exact .of_ok rfl
      | some n =>
        cases found with
        | none => exact .of_ok rfl
        | some text =>
          exact (Text.repeated_sized n text).bind_ok fun whole hwhole =>
            congrArg (fun bytes => [some bytes]) hwhole
  | ⟨.choice branches, _⟩ => (layoutsOf_sized limit branches).bind_ok fun _ _ => rfl
  | ⟨.charClass _, _⟩ | ⟨.anchor _, _⟩ | ⟨.lookaround _, _⟩ => .of_ok rfl

theorem stepsOfAll_sized (limit : Nat) : ∀ pieces : List Piece,
    Sized (List.map Step.textBytes?) (stepsOfAll limit pieces) (stepsFitInAll limit pieces)
      (stepBytesOfAll limit pieces)
  | [] => .of_ok rfl
  | piece :: rest => by
    rw [stepsOfAll, stepsFitInAll, stepBytesOfAll]
    refine (piece.steps_sized limit).bind fun front hfront => ?_
    refine (stepsOfAll_sized limit rest).bind_ok fun back hback => ?_
    rw [List.map_append, hfront, hback]

theorem layoutsOf_sized (limit : Nat) : ∀ branches : List (List Piece),
    Sized (fun _ => ()) (layoutsOf limit branches) (layoutFitsInAny limit branches) ()
  | [] => .of_ok rfl
  | branch :: rest => by
    rw [layoutsOf, layoutFitsInAny]
    have hbranch : Sized (fun _ => ()) (stepsOfAll limit branch >>= Layout.merge)
        (stepsFitInAll limit branch && Layout.mergeFits (stepBytesOfAll limit branch)) () := by
      refine (stepsOfAll_sized limit branch).bind fun steps hsteps => ?_
      rw [← hsteps]
      exact (Layout.merge_sized steps).forget
    rw [← bind_assoc]
    exact hbranch.bind fun _ _ => (layoutsOf_sized limit rest).bind_ok fun _ _ => rfl

end

mutual

/-- The bytes that a step takes in a template. -/
def Step.templateBytes (placeholder : Char) : Step → Nat
  | .slots n => n * placeholder.utf8Size
  | .fixed text => text.bytes
  | .either branches => templateBytesOfFirst placeholder branches

/-- The bytes that steps take in a template. -/
def templateBytesOfAll (placeholder : Char) : List Step → Nat
  | [] => 0
  | step :: rest => step.templateBytes placeholder + templateBytesOfAll placeholder rest

/-- The bytes that the first branch takes in a template. -/
def templateBytesOfFirst (placeholder : Char) : List (List Step) → Nat
  | [] => 0
  | branch :: _ => templateBytesOfAll placeholder branch

end

mutual

/-- Whether a step fits behind `used` bytes of a template. Of a choice, the first branch has to fit
by itself as well. -/
def Step.templateFits (placeholder : Char) (used : Nat) : Step → Bool
  | .slots n => Text.fitsBehind used (n * placeholder.utf8Size)
  | .fixed text => Text.fitsBehind used text.bytes
  | .either branches =>
    templateFitsInFirst placeholder branches &&
      Text.fitsBehind used (templateBytesOfFirst placeholder branches)

/-- Whether all steps fit behind what stands in front of them, with `used` bytes in front of the
first one. -/
def templateFitsInAll (placeholder : Char) (used : Nat) : List Step → Bool
  | [] => true
  | step :: rest =>
    step.templateFits placeholder used &&
      templateFitsInAll placeholder (used + step.templateBytes placeholder) rest

/-- Whether the first branch fits into a template of its own. -/
def templateFitsInFirst (placeholder : Char) : List (List Step) → Bool
  | [] => true
  | branch :: _ => templateFitsInAll placeholder 0 branch

end

/-- Whether a layout fits into a template. -/
def Layout.templateFits (placeholder : Char) (layout : Layout) : Bool :=
  templateFitsInAll placeholder 0 layout

mutual

theorem Step.template_sized (placeholder : Char) (used : Nat) : ∀ step : Step,
    Sized Text.bytes (step.template placeholder used) (step.templateFits placeholder used)
      (step.templateBytes placeholder)
  | .slots n => .of_ite (Text.bytes_replicate n placeholder)
  | .fixed text => Text.behind_sized used text
  | .either branches => by
    rw [Step.template, Step.templateFits, Step.templateBytes]
    refine (templateOfFirst_sized placeholder branches).bind fun text htext => ?_
    rw [← htext]
    exact Text.behind_sized used text

theorem templateOfAll_sized (placeholder : Char) : ∀ (steps : List Step) (used : Nat),
    Sized Text.bytes (templateOfAll placeholder used steps)
      (templateFitsInAll placeholder used steps) (templateBytesOfAll placeholder steps)
  | [], _ => .of_ok rfl
  | step :: rest, used => by
    rw [templateOfAll, templateFitsInAll, templateBytesOfAll]
    apply (step.template_sized placeholder used).bind
    intro text htext
    rw [← htext]
    apply (templateOfAll_sized placeholder rest (used + text.bytes)).bind_ok
    intro others hothers
    rw [Text.bytes_append, hothers]

theorem templateOfFirst_sized (placeholder : Char) : ∀ branches : List (List Step),
    Sized Text.bytes (templateOfFirst placeholder branches)
      (templateFitsInFirst placeholder branches) (templateBytesOfFirst placeholder branches)
  | [] => .of_ok rfl
  | branch :: _ => templateOfAll_sized placeholder branch 0

end

/-- **There is a template exactly if the layout fits into it.** -/
theorem Layout.exists_template_iff (placeholder : Char) (layout : Layout) :
    (∃ text, layout.template placeholder = .ok text) ↔ layout.templateFits placeholder = true :=
  (templateOfAll_sized placeholder layout 0).exists_iff

end InputMask
