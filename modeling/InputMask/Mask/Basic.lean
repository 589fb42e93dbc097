import InputMask.Analysis.Basic
import InputMask.Engine
import InputMask.Layout.Filling
import InputMask.Layout.OfPattern
import InputMask.Layout.Template
import InputMask.Settings

/-!
# Masks

A mask is a pattern with settings. Everything that can be asked of it follows from
these two: what the pattern is made of, how long its matches are, how typed text is
laid out, and whether a text matches.

A pattern that cannot be read gives an empty layout, and typed text is then passed
on as it is, less what does not count. Whether a text matches is decided by an engine
for regular expressions; a pattern that it cannot compile matches nothing, and neither
does a pattern match a text on which the engine gives up.

Everything fails that needs a text which cannot be held. What is measured are the texts
that are made from a pattern and from typed text, and the lists of characters of fixed
text. The pattern and the typed text are lists of characters themselves, and what is read
off them piece by piece is no longer than they are.
-/

namespace InputMask

/-- A pattern with settings. -/
structure Mask where
  pattern : Text
  settings : Settings := {}
deriving DecidableEq, Repr

namespace Mask

/-- What the pattern is made of. -/
def reading (m : Mask) : Except Refusal Sequence :=
  Sequence.read m.pattern m.settings.depth

/-- What is known of a pattern as it was read. -/
def analysisOf : Except Refusal Sequence → Except TextError Analysis
  | .ok s => Analysis.ofSequence s
  | .error _ => .ok .unknown

/-- What is known of the pattern. -/
def analysis (m : Mask) : Except TextError Analysis := analysisOf m.reading

/-- The opening text of a pattern as it was read. -/
def openingOf : Except Refusal Sequence → Text
  | .ok s => s.opening.text
  | .error _ => []

/-- The text with which every match begins. -/
def opening (m : Mask) : Text := openingOf m.reading

/-- The layout of a pattern as it was read. -/
def layoutOf (m : Mask) : Except Refusal Sequence → Except TextError Layout
  | .ok s => s.layout m.settings.limit
  | .error _ => .ok []

/-- The layout of the pattern. -/
def layout (m : Mask) : Except TextError Layout := m.layoutOf m.reading

/-- The layout with placeholders for what is still to be typed. -/
def template (m : Mask) : Except TextError Text := do
  (← m.layout).template m.settings.placeholder

/-- The typed text as the layout takes it. -/
def typed (m : Mask) (raw : Text) : Typed := ⟨raw, m.settings.counts⟩

/-- Typed text of which nothing is known but what counts. -/
def passedOn (m : Mask) (raw : Text) : Display :=
  let text := m.settings.countedOf raw
  ⟨text, text.length⟩

/-- Typed text in the form that the pattern asks for. -/
def display (m : Mask) (raw : Text) : Except TextError Display := do
  match m.reading with
  | .ok _ =>
    let layout ← m.layout
    let analysis ← m.analysis
    layout.present analysis.longest (m.typed raw)
  | .error _ => return m.passedOn raw

/-- The pattern as a regular expression for the whole of a text. -/
def expression (m : Mask) : Text := "^(?:".toList ++ m.pattern ++ ")$".toList

/-- The matcher for the pattern, if the engine can compile it. -/
def matcher? (engine : Engine) (m : Mask) : Except TextError (Option Matcher) := do
  return engine.compile? (← m.expression.behind 0)

/-- Whether a text matches what was compiled. -/
def acceptedBy (matcher : Option Matcher) (text : Text) : Bool :=
  matcher.any fun decide => (decide text).getD false

/-- Whether a text matches the pattern. -/
def accepts (engine : Engine) (m : Mask) (text : Text) : Except TextError Bool := do
  return acceptedBy (← m.matcher? engine) text

end Mask

end InputMask
