import Mathlib
import InputMask.CommandLine.Report
import InputMask.Proofs.CommandLine.Options

/-!
# Inputs and lines

The program takes its inputs from the arguments or else from the lines of the standard input. Both
ways lead to the same list, so it makes no difference which one is taken, as long as the inputs can
be written as lines at all. That holds with every engine and with every splitter that reads options
as they are meant.

* `Report.IsLine`, `Report.linesOf_textOf` — lines that are read back as they were written.
* `Report.ofArguments_eq_of_lines` — inputs as arguments and as lines.
* `Mask.misses` — an input whose form does not match.
* `Report.ending_ofArguments` — how a run ends in which every line can be made.
* `Report.inputs_as_lines` — both together, for all options.
-/

namespace InputMask

namespace Report

/-! ## Lines -/

/-- What can stand on a line: there is no line feed in it, and no carriage return at its end, where
it would belong to the end of the line. -/
structure IsLine (line : Text) : Prop where
  no_feed : '\n' ∉ line
  no_return : line.getLast? ≠ some '\r'

/-- Lines, each with a line feed after it. -/
def textOf (lines : List Text) : Text := lines.flatMap (· ++ ['\n'])

theorem IsLine.tail {c : Char} {rest : Text} (h : IsLine (c :: rest)) : IsLine rest where
  no_feed hfeed := h.no_feed (List.mem_cons_of_mem _ hfeed)
  no_return hreturn := h.no_return (by rw [List.getLast?_cons, hreturn]; rfl)

/-- A line is read up to its line feed. -/
theorem linesOf_append {line : Text} (h : IsLine line) (rest : Text) :
    linesOf (line ++ '\n' :: rest) = line :: linesOf rest := by
  induction line with
  | nil => rfl
  | cons c line ih =>
    have hfeed : c ≠ '\n' := fun hc => h.no_feed (hc ▸ List.mem_cons_self ..)
    -- a carriage return in the line is not the last of it, so no line feed comes after it
    have hreturn : ∀ after, c = '\r' → line ++ '\n' :: rest ≠ '\n' :: after := by
      rintro after rfl heq
      cases line with
      | nil => exact h.no_return rfl
      | cons d line =>
        obtain rfl : d = '\n' := (List.cons.inj heq).1
        exact h.no_feed (List.mem_cons_of_mem _ (List.mem_cons_self ..))
    rw [List.cons_append, linesOf, ih h.tail]
    · exact hfeed
    · exact fun after hc => hreturn after hc

/-- **Lines are read back.** -/
theorem linesOf_textOf {lines : List Text} (h : ∀ line ∈ lines, IsLine line) :
    linesOf (textOf lines) = lines := by
  induction lines with
  | nil => rfl
  | cons line rest ih =>
    have hline := h line (List.mem_cons_self ..)
    have hrest := ih fun other hother => h other (List.mem_cons_of_mem _ hother)
    have htext : textOf (line :: rest) = line ++ '\n' :: textOf rest :=
      List.append_assoc line ['\n'] (textOf rest)
    rw [htext, linesOf_append hline, hrest]

/-- Inputs that are arguments are handled as those that are read from the standard input. -/
theorem ofArguments_eq_of_lines (engine : Engine) {args : Arguments} (hne : args.inputs ≠ [])
    (h : ∀ input ∈ args.inputs, IsLine input) (standardInput : Option Text) :
    ofArguments engine args standardInput =
      ofArguments engine { args with inputs := [] } (some (textOf args.inputs)) := by
  have hempty : args.inputs.isEmpty = false := by simpa using hne
  unfold ofArguments
  simp [hempty, linesOf_textOf h, Arguments.mask, Arguments.settings]

end Report

/-! ## How a run ends -/

/-- Whether an input takes a form that does not match. -/
def Mask.misses (engine : Engine) (m : Mask) (input : Text) : Bool :=
  match Report.result engine m input with
  | .ok r => !r.valid
  | .error _ => false

/-- What is seen of an ending that is a failure only where inputs do not match. -/
theorem Ending.of_unmatched_or_success {fails : Prop} [Decidable fails] {ending : Ending}
    {n : Nat} (h : ending = if fails then .unmatched n else .success) :
    (ending.code = 1 ↔ fails) ∧
    (ending.code = 1 → ending.message = "Error: ".toList ++ Count.numeral n ++
      (if n = 1 then " input" else " inputs").toList ++ " did not match the pattern\n".toList) ∧
    (ending.code ≠ 1 → ending.code = 0 ∧ ending.message = []) := by
  by_cases hfails : fails
  · rw [if_pos hfails] at h
    subst h
    exact ⟨iff_of_true rfl hfails, fun _ => rfl, fun hcode => absurd rfl hcode⟩
  · rw [if_neg hfails] at h
    subst h
    exact ⟨iff_of_false (by decide) hfails, fun hcode => absurd hcode (by decide),
      fun _ => ⟨rfl, rfl⟩⟩

namespace Report

variable (engine : Engine) {args : Arguments}

/-- Printing does not end early exactly if every line can be made. -/
theorem failure_printUpTo_eq_none {lines : List (Except TextError Text)} :
    (printUpTo lines).2 = none ↔ ∀ line ∈ lines, ∃ text, line = .ok text := by
  induction lines with
  | nil => exact iff_of_true rfl (List.forall_mem_nil _)
  | cons line rest ih =>
    rw [List.forall_mem_cons, ← ih]
    cases line with
    | error e => exact iff_of_false nofun fun h => nomatch h.1
    | ok text => exact (and_iff_right ⟨text, rfl⟩).symm

/-- The line for an input can be made exactly if its result can. -/
theorem exists_line_iff {m : Mask} {inputs : List Text} :
    (∀ line ∈ (inputs.map (result engine m)).map fun r => r.map Result.line,
      ∃ text, line = .ok text) ↔ ∀ input ∈ inputs, ∃ r, result engine m input = .ok r := by
  rw [List.map_map, List.forall_mem_map]
  refine forall₂_congr fun input _ => ?_
  rw [Function.comp_apply]
  cases result engine m input with
  | error e => exact iff_of_false nofun nofun
  | ok r => exact iff_of_true ⟨_, rfl⟩ ⟨r, rfl⟩

/-- Of the results, those that are not valid are those of the inputs that miss. -/
theorem countP_results {m : Mask} {inputs : List Text}
    (h : ∀ input ∈ inputs, ∃ r, result engine m input = .ok r) :
    ((inputs.map (result engine m)).filterMap Except.toOption).countP (!·.valid) =
      inputs.countP (m.misses engine) := by
  induction inputs with
  | nil => rfl
  | cons input rest ih =>
    obtain ⟨r, hr⟩ := h input (List.mem_cons_self ..)
    have hrest := ih fun other hother => h other (List.mem_cons_of_mem _ hother)
    have hmisses : m.misses engine input = !r.valid := by rw [Mask.misses, hr]
    rw [List.map_cons, hr, List.countP_cons, ← hrest, hmisses]
    exact List.countP_cons ..

/-- A run that finds inputs in its arguments fails exactly if there is a line that cannot be
made. -/
theorem not_failed_iff (hne : args.inputs ≠ []) (standardInput : Option Text) :
    (∀ e, (ofArguments engine args standardInput).ending ≠ .failed e) ↔
      (∀ line ∈ summary args.mask, ∃ text, line = .ok text) ∧
        ∀ input ∈ args.inputs, ∃ r, result engine args.mask input = .ok r := by
  have hempty : args.inputs.isEmpty = false := by simpa using hne
  rw [← exists_line_iff, ← failure_printUpTo_eq_none, ← failure_printUpTo_eq_none]
  cases hhead : (printUpTo (summary args.mask)).2 with
  | some e =>
    refine iff_of_false (fun h => h e ?_) fun h => nomatch h.1
    simp only [ofArguments, hhead]
  | none =>
    cases hbody : (printUpTo ((args.inputs.map (result engine args.mask)).map
        fun r => r.map Result.line)).2 with
    | some e =>
      refine iff_of_false (fun h => h e ?_) fun h => nomatch h.2
      simp only [ofArguments, hhead, hbody, hempty, Bool.false_eq_true, if_false]
    | none =>
      refine iff_of_true (fun e => ?_) ⟨rfl, rfl⟩
      simp only [ofArguments, hhead, hbody, hempty, Bool.false_eq_true, if_false, endingOf]
      split <;> exact nofun

/-- It ends well otherwise, unless the check is asked for and some input misses. -/
theorem ending_ofArguments (hne : args.inputs ≠ []) (standardInput : Option Text)
    (hmade : ∀ e, (ofArguments engine args standardInput).ending ≠ .failed e) :
    (ofArguments engine args standardInput).ending =
      if args.check = true ∧ args.inputs.countP (args.mask.misses engine) ≠ 0
      then .unmatched (args.inputs.countP (args.mask.misses engine)) else .success := by
  obtain ⟨hsummary, hresults⟩ := (not_failed_iff engine hne standardInput).1 hmade
  have hempty : args.inputs.isEmpty = false := by simpa using hne
  have hhead := failure_printUpTo_eq_none.2 hsummary
  have hbody := failure_printUpTo_eq_none.2 ((exists_line_iff engine).2 hresults)
  have hending : (ofArguments engine args standardInput).ending =
      endingOf args.check
        ((args.inputs.map (result engine args.mask)).filterMap Except.toOption) := by
    simp only [ofArguments, hhead, hbody, hempty, Bool.false_eq_true, if_false]
  rw [hending, endingOf, countP_results engine hresults]
  simp

theorem run_asked {split : Splitter} (hsplit : split.Documented) {requests : List Request}
    {words : List Text} (hwords : Request.Spellings requests words) (pattern : Text)
    (inputs : List Text) (standardInput : Option Text) :
    run engine split (words ++ ['-', '-'] :: pattern :: inputs) standardInput =
      ofArguments engine (Arguments.asked requests pattern inputs) standardInput := by
  rw [run, hsplit requests words pattern inputs hwords]

/-- **It makes no difference how the inputs are given.**  Behind options, the mark and a pattern,
inputs that can be lines lead to the same run, printed text and ending alike, as the same inputs on
the standard input. If no text is needed that cannot be held, the exit code is 1 exactly if the
check is asked for and the form of some input does not match, and then the message counts those
inputs; otherwise it is 0, and there is no message. -/
theorem inputs_as_lines {split : Splitter} (hsplit : split.Documented) {requests : List Request}
    {words : List Text} (hwords : Request.Spellings requests words) (pattern : Text)
    {inputs : List Text} (hne : inputs ≠ []) (hlines : ∀ input ∈ inputs, IsLine input)
    (standardInput : Option Text) :
    let outcome := run engine split (words ++ ['-', '-'] :: pattern :: inputs) standardInput
    let m := (Arguments.asked requests pattern inputs).mask
    let n := inputs.countP (m.misses engine)
    outcome = run engine split (words ++ [['-', '-'], pattern]) (some (textOf inputs)) ∧
    ((∀ e, outcome.ending ≠ .failed e) →
      (outcome.ending.code = 1 ↔
        .check ∈ requests ∧ ∃ input ∈ inputs, m.misses engine input = true) ∧
      (outcome.ending.code = 1 → outcome.ending.message = "Error: ".toList ++ Count.numeral n ++
        (if n = 1 then " input" else " inputs").toList ++ " did not match the pattern\n".toList) ∧
      (outcome.ending.code ≠ 1 → outcome.ending.code = 0 ∧ outcome.ending.message = [])) := by
  intro outcome m n
  have hinputs := Arguments.inputs_asked requests pattern inputs
  have hrun : outcome = ofArguments engine (Arguments.asked requests pattern inputs)
      standardInput := run_asked engine hsplit hwords pattern inputs standardInput
  constructor
  · rw [hrun, ofArguments_eq_of_lines engine (by rwa [hinputs]) (by rwa [hinputs]), hinputs,
      Arguments.asked_with_inputs]
    exact (run_asked engine hsplit hwords pattern [] _).symm
  · intro hmade
    have hending := ending_ofArguments engine (by rwa [hinputs]) standardInput (hrun ▸ hmade)
    rw [← hrun, hinputs] at hending
    obtain ⟨hcode, hmessage, hwell⟩ := Ending.of_unmatched_or_success hending
    have hmisses : n ≠ 0 ↔ ∃ input ∈ inputs, m.misses engine input = true := by
      rw [← Nat.pos_iff_ne_zero, List.countP_pos_iff]
    exact ⟨hcode.trans (and_congr (Arguments.check_asked ..) hmisses), hmessage, hwell⟩

/-- With the check and one digit asked for: a carriage return inside a line is passed over, and
the empty line is the one input that misses. -/
theorem inputs_as_lines_checked :
    let engine : Engine := ⟨fun expression =>
      if expression = "^(?:[0-9])$".toList then
        some fun text => some (text.length == 1 && text.all Char.isDigit)
      else none⟩
    let outcome := run engine Arguments.split
      [['-', 'c'], ['-', '-'], "[0-9]".toList, "\r7".toList, []] none
    outcome = run engine Arguments.split [['-', 'c'], ['-', '-'], "[0-9]".toList]
        (some "\r7\n\n".toList) ∧
      outcome.ending.code = 1 ∧
      outcome.ending.message = "Error: 1 input did not match the pattern\n".toList := by
  intro engine outcome
  have hwords : Request.Spellings [.check] [['-', 'c']] :=
    .cons .checkLettered (List.forall_mem_nil _) .nil
  have hlines : ∀ input ∈ ["\r7".toList, []], IsLine input := by
    intro input hinput
    simp only [List.mem_cons, List.not_mem_nil, or_false] at hinput
    rcases hinput with rfl | rfl
    all_goals exact ⟨by decide, by decide⟩
  have hseven : result engine ⟨"[0-9]".toList, {}⟩ "\r7".toList =
      .ok ⟨"\r7".toList, ⟨['7'], 1⟩, true⟩ := by
    clear hwords hlines outcome
    cbv
  have hnothing : result engine ⟨"[0-9]".toList, {}⟩ [] = .ok ⟨[], ⟨[], 0⟩, false⟩ := by
    clear hwords hlines hseven outcome
    cbv
  have hanalysis : Mask.analysis ⟨"[0-9]".toList, {}⟩ = .ok ⟨.upTo 1, 1, []⟩ := by
    clear hwords hlines hseven hnothing outcome
    cbv
  have htemplate : Mask.template ⟨"[0-9]".toList, {}⟩ = .ok ['#'] := by
    clear hwords hlines hseven hnothing hanalysis outcome
    cbv
  have hmade : ∀ e, outcome.ending ≠ .failed e := by
    have hrun : outcome = _ := run_asked engine Arguments.split_documented hwords "[0-9]".toList
      ["\r7".toList, []] none
    rw [hrun, not_failed_iff engine (List.cons_ne_nil _ _)]
    constructor
    · show ∀ line ∈ summary ⟨"[0-9]".toList, {}⟩, _
      rw [summary, hanalysis, htemplate]
      intro line hline
      simp only [List.mem_cons, List.not_mem_nil, or_false] at hline
      rcases hline with rfl | rfl | rfl | rfl | rfl
      all_goals exact ⟨_, rfl⟩
    · show ∀ input ∈ ["\r7".toList, []], ∃ r, result engine ⟨"[0-9]".toList, {}⟩ input = _
      exact List.forall_mem_cons.2 ⟨⟨_, hseven⟩, List.forall_mem_singleton.2 ⟨_, hnothing⟩⟩
  obtain ⟨hsame, hending⟩ := inputs_as_lines engine Arguments.split_documented hwords
    "[0-9]".toList (List.cons_ne_nil _ _) hlines none
  obtain ⟨hcode, hmessage, -⟩ := hending hmade
  have hmisses : Mask.misses engine ⟨"[0-9]".toList, {}⟩ [] = true := by
    rw [Mask.misses, hnothing]
    rfl
  have hfits : Mask.misses engine ⟨"[0-9]".toList, {}⟩ "\r7".toList = false := by
    rw [Mask.misses, hseven]
    rfl
  have hcount : ["\r7".toList, []].countP (Mask.misses engine ⟨"[0-9]".toList, {}⟩) = 1 := by
    rw [List.countP_cons_of_neg (by rw [hfits]; decide), List.countP_cons_of_pos hmisses,
      List.countP_nil]
  have hone := hcode.2 ⟨List.mem_singleton_self _, [],
    List.mem_cons_of_mem _ (List.mem_singleton_self _), hmisses⟩
  refine ⟨hsame, hone, (hmessage hone).trans ?_⟩
  show _ ++ Count.numeral (["\r7".toList, []].countP (Mask.misses engine ⟨"[0-9]".toList, {}⟩)) ++
    (if ["\r7".toList, []].countP (Mask.misses engine ⟨"[0-9]".toList, {}⟩) = 1
      then " input" else " inputs").toList ++ _ = _
  rw [hcount]
  decide

end Report

end InputMask
