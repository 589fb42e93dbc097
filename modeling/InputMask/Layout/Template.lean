import InputMask.Layout.Basic

/-!
# Templates

A layout shown before anything is typed, with a placeholder in every slot: a mask
for dates may show `##/##/####`. Of several branches the first is shown.
-/

namespace InputMask

mutual

/-- One step with placeholders, after `used` bytes of the same template. -/
def Step.template (placeholder : Char) (used : Nat) : Step → Except TextError Text
  | .slots n =>
    if used + n * placeholder.utf8Size ≤ Text.capacity then .ok (List.replicate n placeholder)
    else .error .tooLong
  | .fixed text => text.behind used
  | .either branches => do (← templateOfFirst placeholder branches).behind used

/-- Steps with placeholders, after `used` bytes of the same template. -/
def templateOfAll (placeholder : Char) (used : Nat) : List Step → Except TextError Text
  | [] => .ok []
  | step :: rest => do
    let text ← step.template placeholder used
    let others ← templateOfAll placeholder (used + text.bytes) rest
    return text ++ others

/-- The first branch with placeholders, as a template of its own. -/
def templateOfFirst (placeholder : Char) : List (List Step) → Except TextError Text
  | [] => .ok []
  | branch :: _ => templateOfAll placeholder 0 branch

end

/-- A layout with placeholders in its slots, refused when it cannot be held. -/
def Layout.template (placeholder : Char) (layout : Layout) : Except TextError Text :=
  templateOfAll placeholder 0 layout

end InputMask
