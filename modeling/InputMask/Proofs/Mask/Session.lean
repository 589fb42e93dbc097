import Mathlib
import InputMask.Mask.Session

/-!
# Sessions answer as if nothing was remembered

What a session remembers follows from the mask and the engine alone, whatever was asked before and
whichever calls failed. So it makes no difference to an answer whether what it needs is found in
the memory or worked out again. That holds with any engine.

* `Memory.Holds` — every place of a memory is empty or holds what follows from the mask.
* `Session.Yields` — a part of a session gives a certain value from every such memory and
  leaves one behind, with one lemma for each way in which sessions are put together:
  `Yields.bind`, `Yields.once`.
* `Session.answer_yields` — every call gives the answer that `Mask.answer` works out afresh.
* `Mask.answers_as_fresh` — the same for any number of calls in any order.
* `Mask.answers_as_fresh_after_failure` — a call that fails with part of its work done.
-/

namespace InputMask

/-- What a call is answered with when nothing has been worked out before. -/
def Mask.answer (engine : Engine) (m : Mask) : Call → Except TextError Answer
  | .pattern => return .text m.pattern
  | .settings => return .settings m.settings
  | .reading => return .reading m.reading
  | .analysis => return .analysis (← m.analysis)
  | .longest => return .extent (← m.analysis).longest
  | .shortest => return .count (← m.analysis).shortest
  | .isEndless => return .flag (← m.analysis).isEndless
  | .literals => return .literals (← m.analysis).literals
  | .occurrences => return .occurrences (← m.analysis).occurrences
  | .placesOf text => return .places ((← m.analysis).placesOf text)
  | .opening => return .text m.opening
  | .layout => return .layout (← m.layout)
  | .template => return .text (← m.template)
  | .display raw => return .display (← m.display raw)
  | .accepts text => return .flag (← m.accepts engine text)

/-- Every place of a memory is empty or holds what follows from the mask and the engine alone. -/
structure Memory.Holds (engine : Engine) (m : Mask) (memory : Memory) : Prop where
  reading : ∀ r, memory.reading = some r → m.reading = r
  analysis : ∀ a, memory.analysis = some a → m.analysis = .ok a
  opening : ∀ t, memory.opening = some t → m.opening = t
  layout : ∀ l, memory.layout = some l → m.layout = .ok l
  matcher : ∀ e, memory.matcher = some e → m.matcher? engine = .ok e

/-- At first nothing is remembered. -/
theorem Memory.holds_empty (engine : Engine) (m : Mask) : Memory.Holds engine m {} where
  reading _ h := nomatch h
  analysis _ h := nomatch h
  opening _ h := nomatch h
  layout _ h := nomatch h
  matcher _ h := nomatch h

namespace Session

variable {engine : Engine} {m : Mask} {α β : Type}

/-- From every memory that holds what follows from the mask and the engine, the session ends with
the given value or failure and leaves such a memory behind. -/
def Yields (engine : Engine) (m : Mask) (x : Session α) (value : Except TextError α) : Prop :=
  ∀ memory : Memory, memory.Holds engine m →
    ∃ next : Memory, StateT.run (ExceptT.run x) memory = (value, next) ∧ next.Holds engine m

theorem yields_pure (a : α) : Yields engine m (pure a) (pure a) :=
  fun memory h => ⟨memory, rfl, h⟩

theorem yields_ofExcept (value : Except TextError α) : Yields engine m (ofExcept value) value :=
  fun memory h => ⟨memory, rfl, h⟩

/-- A session in two parts stops after the first part if that fails. What this part has put into
the memory stays there. -/
theorem Yields.bind {x : Session α} {f : α → Session β} {value : Except TextError α}
    {g : α → Except TextError β} (hx : Yields engine m x value)
    (hf : ∀ a, Yields engine m (f a) (g a)) :
    Yields engine m (x >>= f) (value >>= g) := by
  intro memory h
  obtain ⟨mid, hrun, hmid⟩ := hx memory h
  rw [ExceptT.run_bind, StateT.run_bind, hrun]
  cases value with
  | error e => exact ⟨mid, rfl, hmid⟩
  | ok a => exact hf a mid hmid

/-- What `once` does to a memory: a value that is there is taken, a value that is worked out is
put there, and a failure leaves the place empty. -/
theorem run_once (look : Memory → Option α) (keep : α → Memory → Memory) (work : Session α)
    (memory : Memory) :
    StateT.run (ExceptT.run (once look keep work)) memory =
      match look memory with
      | some a => (.ok a, memory)
      | none =>
        match StateT.run (ExceptT.run work) memory with
        | (.ok a, next) => (.ok a, keep a next)
        | (.error e, next) => (.error e, next) := by
  show StateT.run (ExceptT.run (match look memory with
      | some value => pure value
      | none => do
        let value ← work
        modify (keep value)
        return value)) memory = _
  split
  · rfl
  · rw [ExceptT.run_bind, StateT.run_bind]
    rcases StateT.run (ExceptT.run work) memory with ⟨_ | a, next⟩ <;> rfl

/-- A kept value is the one that would be worked out, provided that nothing else is ever found in
its place. -/
theorem Yields.once {look : Memory → Option α} {keep : α → Memory → Memory} {work : Session α}
    {value : Except TextError α} (hwork : Yields engine m work value)
    (hlook : ∀ memory a, memory.Holds engine m → look memory = some a → value = .ok a)
    (hkeep : ∀ memory a, memory.Holds engine m → value = .ok a → (keep a memory).Holds engine m) :
    Yields engine m (once look keep work) value := by
  intro memory h
  rw [run_once]
  cases hfound : look memory with
  | some a =>
    refine ⟨memory, ?_, h⟩
    rw [hlook memory a h hfound]
  | none =>
    obtain ⟨mid, hrun, hmid⟩ := hwork memory h
    rw [hrun]
    cases value with
    | error e => exact ⟨mid, rfl, hmid⟩
    | ok a => exact ⟨keep a mid, rfl, hkeep mid a hmid rfl⟩

/-! ## The five places -/

theorem reading_yields (engine : Engine) (m : Mask) :
    Yields engine m (reading m) (pure m.reading) := by
  apply Yields.once (yields_pure m.reading)
  · intro memory r h hr
    rw [← h.reading r hr]
    rfl
  · intro memory r h hr
    obtain rfl : m.reading = r := Except.ok.inj hr
    refine { h with reading := ?_ }
    intro q hq
    exact Option.some.inj hq

theorem analysis_yields (engine : Engine) (m : Mask) : Yields engine m (analysis m) m.analysis := by
  apply Yields.once ((reading_yields engine m).bind fun r => yields_ofExcept (Mask.analysisOf r))
  · intro memory a h ha
    exact h.analysis a ha
  · intro memory a h ha
    refine { h with analysis := ?_ }
    intro b hb
    obtain rfl : a = b := Option.some.inj hb
    exact ha

theorem opening_yields (engine : Engine) (m : Mask) :
    Yields engine m (opening m) (pure m.opening) := by
  apply Yields.once ((reading_yields engine m).bind fun r => yields_pure (Mask.openingOf r))
  · intro memory t h ht
    exact congrArg Except.ok (h.opening t ht)
  · intro memory t h ht
    obtain rfl : m.opening = t := Except.ok.inj ht
    refine { h with opening := ?_ }
    intro u hu
    exact Option.some.inj hu

theorem layout_yields (engine : Engine) (m : Mask) : Yields engine m (layout m) m.layout := by
  apply Yields.once ((reading_yields engine m).bind fun r => yields_ofExcept (m.layoutOf r))
  · intro memory l h hl
    exact h.layout l hl
  · intro memory l h hl
    refine { h with layout := ?_ }
    intro k hk
    obtain rfl : l = k := Option.some.inj hk
    exact hl

theorem matcher_yields (engine : Engine) (m : Mask) :
    Yields engine m (matcher engine m) (m.matcher? engine) := by
  apply Yields.once (yields_ofExcept (m.matcher? engine))
  · intro memory e h he
    exact h.matcher e he
  · intro memory e h he
    refine { h with matcher := ?_ }
    intro f hf
    obtain rfl : e = f := Option.some.inj hf
    exact he

/-! ## Calls -/

/-- A display needs three of the places, and the pattern may be refused. -/
theorem display_yields (engine : Engine) (m : Mask) (raw : Text) :
    Yields engine m (display m raw) (m.display raw) := by
  intro memory h
  obtain ⟨mid, hrun, hmid⟩ := reading_yields engine m memory h
  rw [display, ExceptT.run_bind, StateT.run_bind, hrun, Mask.display]
  cases m.reading with
  | error e => exact ⟨mid, rfl, hmid⟩
  | ok s =>
    have hrest := (layout_yields engine m).bind fun l =>
      (analysis_yields engine m).bind fun a =>
        yields_ofExcept (l.present a.longest (m.typed raw))
    exact hrest mid hmid

/-- **Every call gives the answer that is worked out afresh**, from every memory that holds what
follows from the mask, and leaves such a memory behind whether or not it fails. -/
theorem answer_yields (engine : Engine) (m : Mask) (call : Call) :
    Yields engine m (answer engine m call) (m.answer engine call) := by
  cases call with
  | pattern => exact yields_pure _
  | settings => exact yields_pure _
  | reading => exact (reading_yields engine m).bind fun _ => yields_pure _
  | analysis | longest | shortest | isEndless | literals | occurrences | placesOf =>
    exact (analysis_yields engine m).bind fun _ => yields_pure _
  | opening => exact (opening_yields engine m).bind fun _ => yields_pure _
  | layout => exact (layout_yields engine m).bind fun _ => yields_pure _
  | template =>
    rw [Mask.answer, Mask.template, bind_assoc]
    apply (layout_yields engine m).bind
    intro l
    exact (yields_ofExcept _).bind fun _ => yields_pure _
  | display raw => exact (display_yields engine m raw).bind fun _ => yields_pure _
  | accepts text =>
    rw [Mask.answer, Mask.accepts, bind_assoc]
    exact (matcher_yields engine m).bind fun _ => yields_pure _

theorem answerFrom_of_holds {memory : Memory} (h : memory.Holds engine m) (call : Call) :
    (answerFrom engine m memory call).1 = m.answer engine call ∧
      (answerFrom engine m memory call).2.Holds engine m := by
  obtain ⟨next, hrun, hnext⟩ := answer_yields engine m call memory h
  rw [answerFrom, hrun]
  exact ⟨rfl, hnext⟩

/-- Any number of calls, from any memory that holds what follows from the mask. -/
theorem answerAll_of_holds {memory : Memory} (h : memory.Holds engine m) (calls : List Call) :
    (answerAll engine m memory calls).1 = calls.map (m.answer engine) ∧
      (answerAll engine m memory calls).2.Holds engine m := by
  induction calls generalizing memory with
  | nil => exact ⟨rfl, h⟩
  | cons call calls ih =>
    obtain ⟨hanswer, hnext⟩ := answerFrom_of_holds h call
    obtain ⟨hanswers, hlast⟩ := ih hnext
    rw [answerAll, List.map_cons, ← hanswer, ← hanswers]
    exact ⟨rfl, hlast⟩

end Session

namespace Mask

/-- Calls are answered from the mask and the engine alone. -/
theorem answers_eq_map (engine : Engine) (m : Mask) (calls : List Call) :
    m.answers engine calls = calls.map (m.answer engine) :=
  (Session.answerAll_of_holds (Memory.holds_empty engine m) calls).1

/-- **Nothing that was asked before makes a difference.**  After any calls in any order, failed
ones among them, every place of the memory is empty or holds what follows from the mask and the
engine alone. Each call is answered with what follows from these two, and so as if it was the
first one. -/
theorem answers_as_fresh (engine : Engine) (m : Mask) (calls : List Call) :
    (∀ front, front <+: calls → (Session.answerAll engine m {} front).2.Holds engine m) ∧
    m.answers engine calls = calls.map (m.answer engine) ∧
    m.answers engine calls =
      calls.map fun call => (Session.answerFrom engine m {} call).1 := by
  have hempty : Memory.Holds engine m {} := Memory.holds_empty engine m
  refine ⟨fun front _ => (Session.answerAll_of_holds hempty front).2, answers_eq_map engine m calls,
    ?_⟩
  rw [answers_eq_map]
  apply List.map_congr_left
  intro call _
  exact (Session.answerFrom_of_holds hempty call).1.symm

/-- A display that fails when the pattern has been read and its layout cannot be held: the tree is
remembered and nothing else. The calls behind it are answered, a display again with a failure. -/
theorem answers_as_fresh_after_failure :
    let m : Mask := ⟨"ab{9223372036854775808}".toList, {}⟩
    let engine : Engine := ⟨fun _ => none⟩
    let read : Memory := { reading := some (.ok [⟨.plain ['a'], none⟩,
      ⟨.plain ['b'], some ⟨9223372036854775808, .upTo 9223372036854775808⟩⟩]) }
    Session.answerFrom engine m {} (.display []) = (.error .tooLong, read) ∧
      read.Holds engine m ∧
      m.answers engine [.display [], .opening, .accepts ['a'], .display ['a']] =
        [.error .tooLong, .ok (.text ['a']), .ok (.flag false), .error .tooLong] := by
  intro m engine read
  have hfirst : Session.answerFrom engine m {} (.display []) = (.error .tooLong, read) := by cbv
  obtain ⟨hholds, hanswers, -⟩ :=
    answers_as_fresh engine m [.display [], .opening, .accepts ['a'], .display ['a']]
  have hafter : (Session.answerAll engine m {} [.display []]).2 = read :=
    congrArg Prod.snd hfirst
  refine ⟨hfirst, hafter ▸ hholds [.display []] ⟨_, rfl⟩, hanswers.trans ?_⟩
  clear hholds hanswers
  cbv

end Mask

end InputMask
