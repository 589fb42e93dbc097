import InputMask.Analysis.Inventory
import InputMask.Analysis.Opening
import InputMask.Analysis.StatedLength

/-!
# Analysis

What can be said of a pattern without looking at any text: how long its matches are,
and which literals they hold at which places.
-/

namespace InputMask

/-- What is known of a pattern. -/
structure Analysis where
  longest : Extent
  shortest : Nat
  literals : List PlacedText
deriving DecidableEq, Repr

namespace Analysis

/-- What is known of a pattern that cannot be read. -/
def unknown : Analysis := ⟨.endless, 0, []⟩

/-- Whether there is no end to the length. -/
def isEndless (a : Analysis) : Bool := a.longest.isEndless

/-- The places at which a literal stands, in order. -/
def placesOf (a : Analysis) (text : Text) : List Nat :=
  (a.literals.filter (·.text == text)).map (·.position)

/-- Every literal once, in the order of code points, with all its places. -/
def occurrences (a : Analysis) : List (Text × List Nat) :=
  let texts := (a.literals.map (·.text)).eraseDups.mergeSort Text.notAfter
  texts.map fun text => (text, a.placesOf text)

/-- The analysis of a pattern. Lengths that the pattern states itself take the place of those
that follow from its structure. -/
def ofSequence (s : Sequence) : Except TextError Analysis := do
  let literals ← s.inventory
  let stated := s.statedLength?
  return {
    longest := ((stated.bind (·.most)).map Extent.upTo).getD s.longest
    shortest := (stated.bind (·.least)).getD s.shortest
    literals }

end Analysis

end InputMask
