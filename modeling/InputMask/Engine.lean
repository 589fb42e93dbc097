import InputMask.Text.Basic

/-!
# Engines

Whether a text matches a pattern is not decided here but by an engine for regular
expressions, which comes from outside. Nothing is known of it but its two answers: whether
it can compile an expression, and then, for each text, whether there is a match in it.
-/

namespace InputMask

/-- A compiled expression: whether it matches in a text, or nothing if the engine gives up. -/
abbrev Matcher := Text → Option Bool

/-- An engine for regular expressions. -/
structure Engine where
  /-- Compiles an expression, if it is one for this engine. -/
  compile? : Text → Option Matcher

end InputMask
