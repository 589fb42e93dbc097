import InputMask.Pattern.Brackets

/-!
# Balanced texts

The scan for the end of a group steps over a text in which every bracket is closed: escaped
characters, whole classes and whole groups. So the bracket that closes a group is the one
written right after its body, whatever classes and groups the body holds.

* `Balanced` — the texts of which the scan takes nothing for the end of a group around them.
* `Balanced.splitGroup?_append` — the scan over such a text.
* `Balanced.splitGroup?_closed` — the end of a group is found right after a balanced body.
-/

namespace InputMask.Brackets

/-- The characters that the scan for the end of a group heeds. -/
def scanMarks : List Char := ['\\', '[', '(', ')']

/-- A text that is scanned from end to end without closing a group around it. -/
inductive Balanced : Text → Prop
  | nil : Balanced []
  | append {text rest : Text} : Balanced text → Balanced rest → Balanced (text ++ rest)
  | char {c : Char} (h : c ∉ scanMarks) : Balanced [c]
  | escaped (c : Char) : Balanced ['\\', c]
  | charClass {text members : Text} (h : splitClass? text = some (members, [])) :
      Balanced ('[' :: text)
  | group {body : Text} : Balanced body → Balanced ('(' :: body ++ [')'])

theorem Balanced.of_forall {text : Text} (h : ∀ c ∈ text, c ∉ scanMarks) : Balanced text := by
  induction text with
  | nil => exact .nil
  | cons c rest ih =>
    obtain ⟨hc, hrest⟩ := List.forall_mem_cons.1 h
    exact .append (.char hc) (ih hrest)

/-! ## What follows a class does not move its end -/

theorem splitMembers?_cons {c : Char} (hescape : c ≠ '\\') (hclose : c ≠ ']') (rest : Text) :
    splitMembers? (c :: rest) = (splitMembers? rest).map (onto [c]) := by
  rw [splitMembers?]
  · exact fun _ _ h => absurd h hescape
  · exact hclose

theorem splitMembers?_append {text members after : Text}
    (h : splitMembers? text = some (members, after)) (rest : Text) :
    splitMembers? (text ++ rest) = some (members, after ++ rest) := by
  fun_induction splitMembers? text generalizing members with
  | case1 c text ih =>
    obtain ⟨inner, hi, rfl⟩ := map_onto_eq_some.1 h
    exact map_onto_eq_some.2 ⟨inner, ih hi, rfl⟩
  | case2 text =>
    cases h
    rfl
  | case3 c text hescape hclose ih =>
    obtain ⟨inner, hi, rfl⟩ := map_onto_eq_some.1 h
    -- a backslash that nothing follows leaves no text in which a class could end
    have hc : c ≠ '\\' := by
      rintro rfl
      cases text with
      | nil => cases hi
      | cons d text => exact hescape d text rfl rfl
    rw [List.cons_append, splitMembers?_cons hc hclose]
    exact map_onto_eq_some.2 ⟨inner, ih hi, rfl⟩
  | case4 => cases h

theorem splitHead_append {text members after : Text}
    (h : splitMembers? (splitHead text).2 = some (members, after)) (rest : Text) :
    splitHead (text ++ rest) = ((splitHead text).1, (splitHead text).2 ++ rest) := by
  fun_cases splitHead text with
  | case1 text => rfl
  | case2 text hclose =>
    cases text with
    | nil => cases h
    | cons c text =>
      have hc : c ≠ ']' := fun hc => hclose text (by rw [hc])
      simp [splitHead, hc]
  | case3 text => rfl
  | case4 _ _ hmark hclose =>
    cases text with
    | nil => cases h
    | cons c text =>
      have hc : c ≠ '^' ∧ c ≠ ']' :=
        ⟨fun hc => hmark text (by rw [hc]), fun hc => hclose text (by rw [hc])⟩
      simp [splitHead, hc]

theorem splitClass?_append {text members after : Text}
    (h : splitClass? text = some (members, after)) (rest : Text) :
    splitClass? (text ++ rest) = some (members, after ++ rest) := by
  obtain ⟨inner, hi, rfl⟩ := map_onto_eq_some.1 h
  rw [splitClass?, splitHead_append hi rest]
  exact map_onto_eq_some.2 ⟨inner, splitMembers?_append hi rest, rfl⟩

/-! ## The scan over a balanced text -/

theorem splitGroup?_cons {c : Char} (h : c ∉ scanMarks) (opened : Nat) (rest : Text) :
    splitGroup? opened (c :: rest) = (splitGroup? opened rest).map (onto [c]) := by
  simp only [scanMarks, List.mem_cons, List.not_mem_nil, or_false, not_or] at h
  obtain ⟨hescape, hclass, hopen, hclose⟩ := h
  rw [splitGroup?.eq_def]
  split <;> simp_all

theorem splitGroup?_class {text members : Text} (h : splitClass? text = some (members, []))
    (opened : Nat) (rest : Text) :
    splitGroup? opened ('[' :: text ++ rest) =
      (splitGroup? opened rest).map (onto ('[' :: text)) := by
  have htext : text = members ++ [']'] := splitClass?_eq h
  have hclass : splitClass? (text ++ rest) = some (members, rest) := splitClass?_append h rest
  rw [List.cons_append, splitGroup?]
  split
  · rename_i found after hfound
    obtain ⟨rfl, rfl⟩ := Prod.mk.inj (Option.some.inj (hfound.symm.trans hclass))
    rw [htext, List.cons_append]
  · rename_i hnone
    cases hnone.symm.trans hclass

theorem map_onto_map_onto (front next : Text) (parts : Option (Text × Text)) :
    (parts.map (onto next)).map (onto front) = parts.map (onto (front ++ next)) := by
  cases parts <;> simp [onto]

/-- **The scan for the end of a group passes over a balanced text**, at any number of groups that
are still open. -/
theorem Balanced.splitGroup?_append {text : Text} (h : Balanced text) (opened : Nat)
    (rest : Text) :
    splitGroup? opened (text ++ rest) = (splitGroup? opened rest).map (onto text) := by
  induction h generalizing opened rest with
  | nil => cases h : splitGroup? opened rest <;> simp [onto, h]
  | append _ _ ihText ihRest =>
    rw [List.append_assoc, ihText, ihRest, map_onto_map_onto]
  | char h => exact splitGroup?_cons h opened rest
  | escaped c => rw [List.cons_append, List.cons_append, List.nil_append, splitGroup?]
  | charClass h => exact splitGroup?_class h opened rest
  | @group body _ ih =>
    calc splitGroup? opened ('(' :: body ++ [')'] ++ rest)
        = splitGroup? opened ('(' :: (body ++ ')' :: rest)) := by simp
      _ = ((splitGroup? (opened + 1) (')' :: rest)).map (onto body)).map (onto ['(']) := by
        rw [splitGroup?, ih]
      _ = (((splitGroup? opened rest).map (onto [')'])).map (onto body)).map (onto ['(']) := by
        rw [splitGroup?]
      _ = (splitGroup? opened rest).map (onto ('(' :: body ++ [')'])) := by
        rw [map_onto_map_onto, map_onto_map_onto]
        rfl

/-- A group with a balanced body ends right after it. -/
theorem Balanced.splitGroup?_closed {body : Text} (h : Balanced body) (rest : Text) :
    splitGroup? 0 (body ++ ')' :: rest) = some (body, rest) := by
  rw [h.splitGroup?_append, splitGroup?]
  simp [onto]

end InputMask.Brackets
