import InputMask.Extent

/-!
# Repetitions

How often the item before it occurs: `*`, `+`, `?`, `{n}`, `{n,}` or `{n,m}`.

* `Repetition.spelling` — the shortest of these forms that says the same.
* `Repetition.read?` — the repetition that stands at the start of a text. Braces
  that are not of these forms are no repetition and are left to be read as text.
-/

namespace InputMask

/-- At least `least` and at most `most` occurrences. -/
structure Repetition where
  least : Nat
  most : Extent
deriving DecidableEq, Repr

namespace Repetition

/-- The number of occurrences, when it is always the same. -/
def fixedCount? (r : Repetition) : Option Nat :=
  if r.most = .upTo r.least then some r.least else none

/-- Whether the item occurs exactly once, as one without a repetition does. -/
def isOnce (r : Option Repetition) : Bool :=
  r.all (·.fixedCount? = some 1)

/-- Whether the item occurs at most once by its upper bound. -/
def isAtMostOnce (r : Option Repetition) : Bool :=
  r.all (·.most = .upTo 1)

/-- The repetition as it is written. -/
def spelling (r : Repetition) : Text :=
  match r.least, r.most with
  | 0, .endless => ['*']
  | 1, .endless => ['+']
  | 0, .upTo 1 => ['?']
  | n, .endless => '{' :: Count.numeral n ++ [',', '}']
  | n, .upTo m =>
    if n = m then '{' :: Count.numeral n ++ ['}']
    else '{' :: Count.numeral n ++ ',' :: Count.numeral m ++ ['}']

/-- Reads what stands between braces. -/
def ofBraced? (body : Text) : Option Repetition :=
  match Text.splitAt? ',' body with
  | none => (Count.read? body).map fun n => ⟨n, .upTo n⟩
  | some (least, []) => (Count.read? least).map fun n => ⟨n, .endless⟩
  | some (least, most) => do
    let n ← Count.read? least
    let m ← Count.read? most
    if n ≤ m then some ⟨n, .upTo m⟩ else none

/-- The repetition at the start of a text, with the text after it. -/
def read? : Text → Option (Repetition × Text)
  | '*' :: rest => some (⟨0, .endless⟩, rest)
  | '+' :: rest => some (⟨1, .endless⟩, rest)
  | '?' :: rest => some (⟨0, .upTo 1⟩, rest)
  | '{' :: rest => do
    let (body, after) ← Text.splitAt? '}' rest
    let r ← ofBraced? body
    some (r, after)
  | _ => none

/-- A repetition takes up at least one character. -/
theorem length_lt_of_read? {text rest : Text} {r : Repetition}
    (h : read? text = some (r, rest)) : rest.length < text.length := by
  unfold read? at h
  split at h
  · simp_all
  · simp_all
  · simp_all
  · obtain ⟨⟨body, after⟩, hb, h⟩ := Option.bind_eq_some_iff.1 h
    obtain ⟨q, -, h⟩ := Option.bind_eq_some_iff.1 h
    have := Text.eq_of_splitAt? hb
    simp_all; omega
  · simp at h

end Repetition

end InputMask
