import InputMask.CommandLine.Splitting
import InputMask.Proofs.Pattern.Forms

/-!
# Options in front of operands

How options are written in front of a pattern and inputs, and what a splitter has to make of
that. An option with a value is written by name or by letter, with the value in the same word or
in the next one. The order of the options is free, and each is given at most once. Behind the mark
`--` everything is a pattern or an input.

* `Request` — an option with its value. `Request.Spelling`: the words that it can be written in.
* `Arguments.asked` — what options, a pattern and inputs ask for.
* `Splitter.Documented` — a splitter that reads all of this as it is meant. Nothing is said of what
  it does with any other words.
* `Arguments.split_documented` — the splitter of the executable is one.
-/

namespace InputMask

/-- What an option asks for. -/
inductive Request where
  /-- Other characters count than letters and numerals alone. -/
  | allow (chars : Text)
  /-- A part without an upper bound is laid out for so many characters. -/
  | limit (n : Nat)
  /-- Something else stands for a character still to be typed. -/
  | placeholder (c : Char)
  /-- An input that does not match is a failure. -/
  | check
deriving DecidableEq, Repr

namespace Request

/-- The option that asks for it. -/
def switch : Request → Switch
  | allow _ => .allow
  | limit _ => .limit
  | placeholder _ => .placeholder
  | check => .check

/-- The values of the option that ask for this: a limit is a numeral of a count. -/
inductive Value : Request → Text → Prop
  | allow (chars : Text) : Value (.allow chars) chars
  | limit {digits : Text} {n : Nat} (hdigits : Count.Numeral digits n) (hn : n ≤ Count.ceiling) :
    Value (.limit n) digits
  | placeholder (c : Char) : Value (.placeholder c) [c]

/-- The words in which an option is given. A value in a word of its own does not begin like an
option, and one behind a letter does not begin with the sign that can stand there as well. -/
inductive Spelling : Request → List Text → Prop
  | named {r : Request} {value : Text} (h : r.Value value) :
    Spelling r ['-' :: '-' :: r.switch.name ++ '=' :: value]
  | namedApart {r : Request} {value : Text} (h : r.Value value) (hvalue : value.head? ≠ some '-') :
    Spelling r ['-' :: '-' :: r.switch.name, value]
  | lettered {r : Request} {value : Text} (h : r.Value value) (hne : value ≠ [])
    (hvalue : value.head? ≠ some '=') : Spelling r ['-' :: r.switch.letter :: value]
  | letteredApart {r : Request} {value : Text} (h : r.Value value)
    (hvalue : value.head? ≠ some '-') : Spelling r [['-', r.switch.letter], value]
  | checkNamed : Spelling check ['-' :: '-' :: Switch.check.name]
  | checkLettered : Spelling check [['-', Switch.check.letter]]

/-- Options one after another, each of them given once. -/
inductive Spellings : List Request → List Text → Prop
  | nil : Spellings [] []
  | cons {r : Request} {requests : List Request} {front back : List Text} (hr : r.Spelling front)
    (honce : ∀ other ∈ requests, other.switch ≠ r.switch) (hrest : Spellings requests back) :
    Spellings (r :: requests) (front ++ back)

/-- Arguments with what an option asks for. -/
def applyTo (args : Arguments) : Request → Arguments
  | allow chars => { args with allow := chars }
  | limit n => { args with limit := n }
  | placeholder c => { args with placeholder := c }
  | check => { args with check := true }

end Request

/-- What options ask for, together with a pattern and inputs. -/
def Arguments.asked (requests : List Request) (pattern : Text) (inputs : List Text) : Arguments :=
  requests.foldl Request.applyTo { pattern, inputs }

/-- Options, the mark, a pattern and inputs are split into what they ask for. -/
def Splitter.Documented (split : Splitter) : Prop :=
  ∀ requests words pattern inputs, Request.Spellings requests words →
    split (words ++ ['-', '-'] :: pattern :: inputs) =
      .given (Arguments.asked requests pattern inputs)

/-! ## What is asked for -/

namespace Arguments

variable (requests : List Request) (pattern : Text) (inputs : List Text)

/-- Options leave the inputs alone. -/
theorem foldl_applyTo_inputs (args : Arguments) :
    requests.foldl Request.applyTo { args with inputs } =
      { requests.foldl Request.applyTo args with inputs } := by
  induction requests generalizing args with
  | nil => rfl
  | cons r rest ih =>
    rw [List.foldl_cons, List.foldl_cons, ← ih]
    cases r <;> rfl

theorem asked_with_inputs (others : List Text) :
    { asked requests pattern inputs with inputs := others } = asked requests pattern others :=
  (foldl_applyTo_inputs requests others { pattern, inputs }).symm

theorem inputs_asked : (asked requests pattern inputs).inputs = inputs :=
  (congrArg Arguments.inputs (asked_with_inputs requests pattern inputs inputs)).symm

theorem foldl_applyTo_check (args : Arguments) :
    (requests.foldl Request.applyTo args).check = true ↔
      args.check = true ∨ .check ∈ requests := by
  induction requests generalizing args with
  | nil => simp
  | cons r rest ih =>
    rw [List.foldl_cons, ih, List.mem_cons]
    cases r <;> simp [Request.applyTo]

/-- The check is asked for exactly if its option is given. -/
theorem check_asked : (asked requests pattern inputs).check = true ↔ .check ∈ requests := by
  rw [asked, foldl_applyTo_check]
  simp

end Arguments

/-! ## The splitter of the executable -/

namespace Switch

theorem name_ne_nil (s : Switch) : s.name ≠ [] := by
  cases s <;> decide

theorem notMem_name (s : Switch) : '=' ∉ s.name := by
  cases s <;> decide

theorem letter_ne (s : Switch) : s.letter ≠ '-' := by
  cases s <;> decide

end Switch

theorem Request.Value.switch_ne {r : Request} {value : Text} (h : r.Value value) :
    r.switch ≠ .check := by
  cases h <;> simp [switch]

namespace Arguments

theorem switchOfName?_name (s : Switch) : switchOfName? s.name = some s := by
  cases s <;> decide

theorem switchOfLetter?_letter (s : Switch) : switchOfLetter? s.letter = some s := by
  cases s <;> decide

namespace Given

/-- An option that has not been given yet. -/
def Lacks (g : Given) : Request → Prop
  | .allow _ => g.allow = none
  | .limit _ => g.limit = none
  | .placeholder _ => g.placeholder = none
  | .check => g.check = false

/-- What has been given with one option more. -/
def set (g : Given) : Request → Given
  | .allow chars => { g with allow := some chars }
  | .limit n => { g with limit := some n }
  | .placeholder c => { g with placeholder := some c }
  | .check => { g with check := true }

variable {g : Given} {r : Request} {value : Text}

/-- No other option is given with it. -/
theorem Lacks.set {other : Request} (h : g.Lacks other) (hother : other.switch ≠ r.switch) :
    (g.set r).Lacks other := by
  cases r <;> cases other <;> first | exact h | exact absurd rfl hother

theorem arguments_set (g : Given) (r : Request) (pattern : Text) (inputs : List Text) :
    (g.set r).arguments pattern inputs = r.applyTo (g.arguments pattern inputs) := by
  cases r <;> rfl

/-! ### One option -/

/-- A value is taken as it is meant. -/
theorem setValue?_of_value (h : r.Value value) (hl : g.Lacks r) :
    g.setValue? value r.switch = some (g.set r) := by
  cases h with
  | allow chars =>
    have hl : g.allow = none := hl
    simp [Request.switch, setValue?, hl, set]
  | limit hdigits hn =>
    have hl : g.limit = none := hl
    have hread : readCount? value = Count.read? value := by
      unfold readCount?
      split
      · exact absurd (List.mem_cons_self ..) (hdigits.notMem (by decide))
      · rfl
    simp [Request.switch, setValue?, hl, set, hread, Count.read?_eq_some_iff.2 ⟨hdigits, hn⟩]
  | placeholder c =>
    have hl : g.placeholder = none := hl
    simp [Request.switch, setValue?, hl, set, readChar?]

theorem not_looksLikeOption (h : value.head? ≠ some '-') : ¬ looksLikeOption value = true := by
  unfold looksLikeOption
  split
  · exact absurd rfl h
  · simp

/-- A value in a word of its own is taken by the option that waits for it. -/
theorem readAll?_value (h : r.Value value) (hl : g.Lacks r) (hvalue : value.head? ≠ some '-')
    (rest : List Text) :
    g.readAll? (some r.switch) (value :: rest) = (g.set r).readAll? none rest := by
  rw [readAll?, if_neg (not_looksLikeOption hvalue), setValue?_of_value h hl]

theorem readName?_value (h : r.Value value) (hl : g.Lacks r) :
    g.readName? (r.switch.name ++ '=' :: value) = some (g.set r, none) := by
  rw [readName?, Text.splitAt?_append r.switch.notMem_name]
  simp [switchOfName?_name, setValue?_of_value h hl]

theorem readName?_waiting {s : Switch} (hs : s ≠ .check) :
    g.readName? s.name = some (g, some s) := by
  rw [readName?, Text.splitAt?_eq_none s.notMem_name]
  simp [switchOfName?_name, hs]

theorem readName?_check (hl : g.Lacks .check) :
    g.readName? Switch.check.name = some (g.set .check, none) := by
  have hl : g.check = false := hl
  rw [readName?, Text.splitAt?_eq_none Switch.check.notMem_name]
  simp [switchOfName?_name, setCheck?, hl, set]

theorem readLetters?_value (h : r.Value value) (hl : g.Lacks r) (hne : value ≠ [])
    (hvalue : value.head? ≠ some '=') :
    g.readLetters? (r.switch.letter :: value) = some (g.set r, none) := by
  have hset := setValue?_of_value h hl
  obtain ⟨c, rest, rfl⟩ := List.exists_cons_of_ne_nil hne
  have hc : c ≠ '=' := fun hc => hvalue (congrArg some hc)
  rw [readLetters?, switchOfLetter?_letter]
  cases h <;> simp_all [Request.switch]

theorem readLetters?_waiting {s : Switch} (hs : s ≠ .check) :
    g.readLetters? [s.letter] = some (g, some s) := by
  rw [readLetters?, switchOfLetter?_letter]
  cases s <;> first | rfl | exact absurd rfl hs

theorem readLetters?_check (hl : g.Lacks .check) :
    g.readLetters? [Switch.check.letter] = some (g.set .check, none) := by
  have hl : g.check = false := hl
  rw [readLetters?, switchOfLetter?_letter]
  simp [setCheck?, hl, set, readLetters?]

/-- A word in front of the mark hands on what it is read as. -/
theorem readAll?_word {word : Text} {next : Given} {waiting : Option Switch}
    (hmark : word ≠ ['-', '-']) (h : g.readOne? word = some (next, waiting))
    (rest : List Text) : g.readAll? none (word :: rest) = next.readAll? waiting rest := by
  rw [readAll?, if_neg hmark, h]

theorem readAll?_name {text : Text} {next : Given} {waiting : Option Switch} (hne : text ≠ [])
    (h : g.readName? text = some (next, waiting)) (rest : List Text) :
    g.readAll? none (('-' :: '-' :: text) :: rest) = next.readAll? waiting rest := by
  refine readAll?_word (by simpa using hne) ?_ rest
  exact h

theorem readAll?_letters {c : Char} {text : Text} {next : Given} {waiting : Option Switch}
    (hc : c ≠ '-') (h : g.readLetters? (c :: text) = some (next, waiting)) (rest : List Text) :
    g.readAll? none (('-' :: c :: text) :: rest) = next.readAll? waiting rest := by
  refine readAll?_word (by simp [hc]) ?_ rest
  rw [readOne?]
  · exact h
  · exact hc

/-- **One option is read as it is meant**, whatever comes after it. -/
theorem readAll?_spelling {words : List Text} (h : r.Spelling words) (hl : g.Lacks r)
    (rest : List Text) : g.readAll? none (words ++ rest) = (g.set r).readAll? none rest := by
  cases h with
  | named h => exact readAll?_name (by simp) (readName?_value h hl) rest
  | namedApart h hvalue =>
    exact (readAll?_name r.switch.name_ne_nil (readName?_waiting h.switch_ne) _).trans
      (readAll?_value h hl hvalue rest)
  | lettered h hne hvalue =>
    exact readAll?_letters r.switch.letter_ne (readLetters?_value h hl hne hvalue) rest
  | letteredApart h hvalue =>
    exact (readAll?_letters r.switch.letter_ne (readLetters?_waiting h.switch_ne) _).trans
      (readAll?_value h hl hvalue rest)
  | checkNamed => exact readAll?_name Switch.check.name_ne_nil (readName?_check hl) rest
  | checkLettered => exact readAll?_letters Switch.check.letter_ne (readLetters?_check hl) rest

/-- Options in front of the mark are read as they are meant. -/
theorem readAll?_spellings {requests : List Request} {words : List Text}
    (h : Request.Spellings requests words) {g : Given} (hl : ∀ r ∈ requests, g.Lacks r)
    (operands : List Text) :
    g.readAll? none (words ++ ['-', '-'] :: operands) =
      some ((requests.foldl set g).add operands) := by
  induction h generalizing g with
  | nil => rfl
  | @cons r requests front back hr honce _ ih =>
    rw [List.append_assoc, readAll?_spelling hr (hl r (List.mem_cons_self ..)), List.foldl_cons]
    exact ih fun other hother =>
      (hl other (List.mem_cons_of_mem _ hother)).set (honce other hother)

theorem operands_foldl_set (requests : List Request) (g : Given) :
    (requests.foldl set g).operands = g.operands := by
  induction requests generalizing g with
  | nil => rfl
  | cons r rest ih =>
    rw [List.foldl_cons, ih]
    cases r <;> rfl

theorem arguments_foldl_set (requests : List Request) (g : Given) (pattern : Text)
    (inputs : List Text) :
    (requests.foldl set g).arguments pattern inputs =
      requests.foldl Request.applyTo (g.arguments pattern inputs) := by
  induction requests generalizing g with
  | nil => rfl
  | cons r rest ih => rw [List.foldl_cons, List.foldl_cons, ih, arguments_set]

end Given

/-- **The splitter of the executable reads options as they are meant.** -/
theorem split_documented : Splitter.Documented split := by
  intro requests words pattern inputs h
  have hl : ∀ r ∈ requests, Given.Lacks {} r := by
    intro r _
    cases r <;> rfl
  have hoperands : ((requests.foldl Given.set {}).add (pattern :: inputs)).operands =
      pattern :: inputs :=
    congrArg (· ++ pattern :: inputs) (Given.operands_foldl_set requests {})
  have hread : read? (words ++ ['-', '-'] :: pattern :: inputs) =
      some (asked requests pattern inputs) := by
    rw [read?, Given.readAll?_spellings h hl, Option.bind_eq_bind, Option.bind_some, hoperands]
    exact congrArg some (Given.arguments_foldl_set requests {} pattern inputs)
  rw [split, hread]

end Arguments

end InputMask
