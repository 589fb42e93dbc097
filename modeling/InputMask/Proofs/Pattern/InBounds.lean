import Mathlib
import InputMask.Proofs.Pattern.Forms
import InputMask.Proofs.Pattern.Levels
import InputMask.Proofs.Pattern.Positions

/-!
# Positions stay within the text

Reading by positions comes to the same as taking the text apart, so none of its checks ever fails:
whatever the text, each position that is looked up lies in it, each part that is cut out lies in
it, the count of open groups stays above zero, and each step brings the reader further on.

* `Positions.classEnd_eq`, `Positions.groupEnd_eq` — closing brackets stand where the scans that
  take the text apart find them. An escape may step over the end, and then nothing is found.
* `Positions.Uses` — what the element at the start of a text uses of it. `headElement_eq`,
  `timesAt_eq`: an element and its repetition are those of the lexeme that is read there.
* `Positions.branchesFrom_eq` — so the branches from a position on are those of what is left there.
* `Positions.reads_in_bounds` — reading ends with what `Sequence.read` gives.
-/

namespace InputMask

theorem Halt.ok_bind {α β : Type} (a : α) (f : α → Except Halt β) :
    (Except.ok a >>= f) = f a := rfl

namespace Positions

/-! ## What is left of a text at a position -/

section

variable {text rest : Text} {c : Char} {i : Nat}

theorem drop_append (front : Text) (h : text.drop i = front ++ rest) :
    text.drop (i + front.length) = rest := by
  rw [← List.drop_drop, h, List.drop_left]

theorem drop_succ (h : text.drop i = c :: rest) : text.drop (i + 1) = rest :=
  drop_append [c] h

theorem drop_two (h : text.drop i = [c]) : text.drop (i + 2) = [] := by
  rw [← List.drop_drop, h]
  rfl

theorem lt_length (h : text.drop i = c :: rest) : i < text.length := by
  by_contra hle
  rw [List.drop_eq_nil_of_le (Nat.not_lt.1 hle)] at h
  cases h

theorem getElem?_eq (h : text.drop i = c :: rest) : text[i]? = some c := by
  rw [← List.head?_drop, h, List.head?_cons]

theorem charAt_eq (h : text.drop i = c :: rest) : charAt text i = .ok c := by
  rw [charAt, getElem?_eq h]

theorem partFrom_eq (h : i ≤ text.length) : partFrom text i = .ok (text.drop i) := by
  rw [partFrom, part, if_pos ⟨h, Nat.le_refl _⟩, List.take_length]

/-- A part in the middle of a text. -/
theorem part_append (front middle back : Text) :
    part (front ++ middle ++ back) front.length (front.length + middle.length) = .ok middle := by
  have hstop : front.length + middle.length ≤ (front ++ middle ++ back).length := by simp
  have htake : (front ++ middle ++ back).take (front.length + middle.length) = front ++ middle := by
    rw [← List.length_append, List.take_left]
  rw [part, if_pos ⟨Nat.le_add_right _ _, hstop⟩, htake, List.drop_left]

/-- The first mark stands where a text is split at it. -/
theorem findIdx?_eq (mark : Char) (text : Text) :
    text.findIdx? (· == mark) = (Text.splitAt? mark text).map (·.1.length) := by
  induction text with
  | nil => rfl
  | cons c rest ih =>
    rw [List.findIdx?_cons, Text.splitAt?, ih]
    by_cases hc : c = mark
    · simp [hc]
    · simp [hc, Function.comp_def]

end

/-! ## Closing brackets -/

/-- The position of a closing bracket, by the parts of the text that starts at a position. -/
def closing (i : Nat) (parts : Option (Text × Text)) : Option Nat :=
  parts.map (i + ·.1.length)

theorem closing_onto (i : Nat) (front : Text) (parts : Option (Text × Text)) :
    closing i (parts.map (Brackets.onto front)) = closing (i + front.length) parts := by
  cases parts with
  | none => rfl
  | some parts => simp [closing, Brackets.onto, Nat.add_assoc]

section

variable {text rest : Text} {c : Char} {i : Nat}

theorem classEndFrom_nil (h : text.drop i = []) : classEndFrom text i = .ok none := by
  rw [classEndFrom, if_neg (Nat.not_lt.2 (List.drop_eq_nil_iff.1 h))]
  rfl

theorem classEndFrom_cons : text.drop i = c :: rest → classEndFrom text i =
    match c with
    | '\\' => classEndFrom text (i + 2)
    | ']' => .ok (some i)
    | _ => classEndFrom text (i + 1) := by
  intro h
  rw [classEndFrom, if_pos (lt_length h), charAt_eq h]
  rfl

/-- The first `]` that is not escaped stands behind the members of the class. -/
theorem classEndFrom_eq (h : text.drop i = rest) :
    classEndFrom text i = .ok (closing i (Brackets.splitMembers? rest)) := by
  fun_induction Brackets.splitMembers? rest generalizing i with
  | case1 c rest ih =>
    rw [classEndFrom_cons h, closing_onto]
    exact ih (drop_append ['\\', c] h)
  | case2 rest =>
    rw [classEndFrom_cons h]
    rfl
  | case3 c rest hescape hclose ih =>
    rw [classEndFrom_cons h, closing_onto]
    split
    · -- the text ends behind the backslash
      obtain rfl : rest = [] := by
        cases rest with
        | nil => rfl
        | cons c rest => exact absurd rfl (hescape c rest rfl)
      exact classEndFrom_nil (drop_two h)
    · exact absurd rfl hclose
    · exact ih (drop_succ h)
  | case4 => exact classEndFrom_nil h

/-- Behind the `[` the mark of a negated class and a `]` that is a member are skipped. -/
theorem skip_skip (rest : Text) :
    skip ']' ('[' :: rest) (skip '^' ('[' :: rest) 1) =
      1 + (Brackets.splitHead rest).1.length := by
  fun_cases Brackets.splitHead rest with
  | case1 rest => simp [skip]
  | case2 rest hmember =>
    cases rest with
    | nil => simp [skip]
    | cons c rest =>
      have hc : c ≠ ']' := fun hc => hmember rest (by rw [hc])
      simp [skip, hc]
  | case3 rest => simp [skip]
  | case4 rest hmarked hnegated hmember =>
    cases rest with
    | nil => simp [skip]
    | cons c rest =>
      have hcaret : c ≠ '^' := fun hc => hnegated rest (by rw [hc])
      have hclose : c ≠ ']' := fun hc => hmember rest (by rw [hc])
      simp [skip, hcaret, hclose]

/-- A class closes where its members end. -/
theorem classEnd_eq (rest : Text) :
    classEnd ('[' :: rest) = .ok (closing 1 (Brackets.splitClass? rest)) := by
  have hdrop : ('[' :: rest).drop 1 =
      (Brackets.splitHead rest).1 ++ (Brackets.splitHead rest).2 :=
    (Brackets.splitHead_eq rest).symm
  rw [classEnd, skip_skip, Brackets.splitClass?, closing_onto]
  exact classEndFrom_eq (drop_append _ hdrop)

theorem groupEndFrom_nil {opened : Nat} (h : text.drop i = []) :
    groupEndFrom text opened i = .ok none := by
  rw [groupEndFrom, if_neg (Nat.not_lt.2 (List.drop_eq_nil_iff.1 h))]
  rfl

/-- What is done with one character, while the group itself is open. -/
theorem groupEndFrom_cons {opened : Nat} : text.drop i = c :: rest →
    groupEndFrom text (opened + 1) i =
      match c with
      | '\\' => groupEndFrom text (opened + 1) (i + 2)
      | '[' =>
        match closing 1 (Brackets.splitClass? rest) with
        | some stop => groupEndFrom text (opened + 1) (i + stop + 1)
        | none => groupEndFrom text (opened + 1) (i + 1)
      | '(' => groupEndFrom text (opened + 2) (i + 1)
      | ')' => if opened = 0 then .ok (some i) else groupEndFrom text opened (i + 1)
      | _ => groupEndFrom text (opened + 1) (i + 1) := by
  intro h
  rw [groupEndFrom, if_pos (lt_length h), charAt_eq h, Halt.ok_bind]
  split
  · rfl
  · rw [partFrom_eq (Nat.le_of_lt (lt_length h)), h, Halt.ok_bind, classEnd_eq]
    rfl
  · rfl
  · rfl
  · simp

/-- The `)` that closes a group stands behind its content, wherever in the text the group has been
opened. The count is never below one, as the group itself is open. -/
theorem groupEndFrom_eq {opened : Nat} (h : text.drop i = rest) :
    groupEndFrom text (opened + 1) i = .ok (closing i (Brackets.splitGroup? opened rest)) := by
  fun_induction Brackets.splitGroup? opened rest generalizing i with
  | case1 opened c rest ih =>
    rw [groupEndFrom_cons h, closing_onto]
    exact ih (drop_append ['\\', c] h)
  | case2 opened rest members after hclass ih =>
    have hnext : i + (1 + members.length) + 1 = i + ('[' :: members ++ [']']).length := by
      simp only [List.cons_append, List.length_cons, List.length_append, List.length_nil]
      omega
    have hafter : text.drop (i + ('[' :: members ++ [']']).length) = after :=
      drop_append _ (by simpa [Brackets.splitClass?_eq hclass] using h)
    rw [groupEndFrom_cons h, hclass, closing_onto]
    change groupEndFrom text (opened + 1) (i + (1 + members.length) + 1) = _
    rw [hnext]
    exact ih hafter
  | case3 opened rest hclass ih =>
    rw [groupEndFrom_cons h, hclass, closing_onto]
    exact ih (drop_succ h)
  | case4 opened rest ih =>
    rw [groupEndFrom_cons h, closing_onto]
    exact ih (drop_succ h)
  | case5 rest =>
    rw [groupEndFrom_cons h]
    rfl
  | case6 rest opened ih =>
    rw [groupEndFrom_cons h, closing_onto]
    exact ih (drop_succ h)
  | case7 opened c rest hescape hclass hopen hclose ih =>
    rw [groupEndFrom_cons h, closing_onto]
    split
    · -- the text ends behind the backslash
      obtain rfl : rest = [] := by
        cases rest with
        | nil => rfl
        | cons c rest => exact absurd rfl (hescape c rest rfl)
      rw [Brackets.splitGroup?]
      exact groupEndFrom_nil (drop_two h)
    · exact absurd rfl hclass
    · exact absurd rfl hopen
    · exact absurd rfl hclose
    · exact ih (drop_succ h)
  | case8 opened => exact groupEndFrom_nil h

/-- A group closes where its content ends. -/
theorem groupEnd_eq (rest : Text) :
    groupEnd ('(' :: rest) = .ok (closing 1 (Brackets.splitGroup? 0 rest)) := by
  have h : ('(' :: rest).drop 0 = '(' :: rest := rfl
  rw [groupEnd, groupEndFrom, if_pos (lt_length h), charAt_eq h]
  exact groupEndFrom_eq (drop_succ h)

/-- Without the `(` of the group the count would fall below zero. -/
example : groupEnd [')'] = .error .belowZero := by cbv

end

/-! ## Repetitions and conditions -/

theorem length_sub_tail (c : Char) (rest : Text) : (c :: rest).length - rest.length = 1 :=
  Nat.add_sub_cancel_left ..

/-- Braces are a repetition as they are when the text is split at the one that closes them. -/
theorem headRepetition_braced (rest : Text) : headRepetition ('{' :: rest) =
    .ok ((Repetition.read? ('{' :: rest)).map fun found =>
      (found.1, ('{' :: rest).length - found.2.length)) := by
  rw [headRepetition, List.head?_cons, findIdx?_eq, Text.splitAt?, if_neg (by decide),
    Repetition.read?]
  cases hsplit : Text.splitAt? '}' rest with
  | none => rfl
  | some parts =>
    obtain ⟨before, after⟩ := parts
    obtain rfl := Text.eq_of_splitAt? hsplit
    have hpart : part ('{' :: (before ++ '}' :: after)) 1 (before.length + 1) = .ok before := by
      simpa [Nat.add_comm] using part_append ['{'] before ('}' :: after)
    have hused : ('{' :: (before ++ '}' :: after)).length - after.length =
        before.length + 1 + 1 := by
      simp only [List.length_cons, List.length_append]
      omega
    change (part _ 1 (before.length + 1) >>= fun inner => .ok _) = _
    rw [hpart, Halt.ok_bind]
    cases hbraced : Repetition.ofBraced? before with
    | none => simp [hbraced]
    | some r => simp [hbraced, ← hused]

/-- A repetition uses what is not left behind it. -/
theorem headRepetition_eq (text : Text) : headRepetition text =
    .ok ((Repetition.read? text).map fun found => (found.1, text.length - found.2.length)) := by
  fun_cases Repetition.read? text with
  | case1 rest | case2 rest | case3 rest =>
    rw [Option.map_some, length_sub_tail]
    rfl
  | case4 rest => exact headRepetition_braced rest
  | case5 text hstar hplus hoption hbrace =>
    cases text with
    | nil => rfl
    | cons c rest =>
      have hne : ∀ mark : Char, (∀ rest', c :: rest = mark :: rest' → False) → some c ≠ some mark :=
        fun mark h heq => h rest (congrArg (· :: rest) (Option.some.inj heq))
      rw [headRepetition, List.head?_cons]
      split
      case h_1 heq => exact absurd heq (hne '*' hstar)
      case h_2 heq => exact absurd heq (hne '+' hplus)
      case h_3 heq => exact absurd heq (hne '?' hoption)
      case h_4 heq => exact absurd heq (hne '{' hbrace)
      case h_5 => rfl

theorem statedBounds?_eq_some_iff {content bounds : Text} :
    statedBounds? content = some bounds ↔ content = '^' :: '.' :: bounds ++ ['$'] := by
  constructor
  · intro h
    unfold statedBounds? at h
    split at h
    · split at h
      · rename_i rest hlast
        obtain ⟨front, rfl⟩ := List.getLast?_eq_some_iff.1 hlast
        cases h
        simp
      · cases h
    · cases h
  · rintro rfl
    simp [statedBounds?]

/-- A condition bounds the whole length if nothing but a repetition in braces stands between its
marks. -/
theorem wholeLength?_eq_some_iff {content : Text} {r : Repetition} :
    Element.wholeLength? content = some r ↔ ∃ bounds, statedBounds? content = some bounds ∧
      bounds.head? = some '{' ∧ Repetition.read? bounds = some (r, []) := by
  simp only [statedBounds?_eq_some_iff]
  constructor
  · intro h
    unfold Element.wholeLength? at h
    split at h
    · split at h
      · rename_i rest _ hread
        cases h
        obtain ⟨form, hform, heq⟩ := Repetition.read?_eq_some_iff.1 hread
        refine ⟨form, by rw [heq]; rfl, ?_, Repetition.read?_eq_some_iff.2 ⟨form, hform, by simp⟩⟩
        cases form with
        | nil => cases heq
        | cons c form => rw [List.head?_cons, (List.cons.inj heq).1]
      · cases h
    · cases h
  · rintro ⟨bounds, rfl, hhead, hread⟩
    obtain ⟨form, hform, heq⟩ := Repetition.read?_eq_some_iff.1 hread
    obtain ⟨rest, rfl⟩ := List.head?_eq_some_iff.1 hhead
    have hdollar : Repetition.read? ('{' :: (rest ++ ['$'])) = some (r, ['$']) :=
      Repetition.read?_eq_some_iff.2 ⟨form, hform, by simpa using congrArg (· ++ ['$']) heq⟩
    simp [Element.wholeLength?, hdollar]

/-- What a condition says of the whole length is read in the same way. -/
theorem wholeLength?_eq (content : Text) :
    wholeLength? content = .ok (Element.wholeLength? content) := by
  have hnone : (∀ r bounds, statedBounds? content = some bounds → bounds.head? = some '{' →
      Repetition.read? bounds ≠ some (r, [])) → Element.wholeLength? content = none := by
    intro h
    rw [Option.eq_none_iff_forall_ne_some]
    intro r hr
    obtain ⟨bounds, hbounds, hhead, hread⟩ := wholeLength?_eq_some_iff.1 hr
    exact h r bounds hbounds hhead hread
  unfold wholeLength?
  cases hbounds : statedBounds? content with
  | none =>
    rw [hnone (by simp [hbounds])]
    rfl
  | some bounds =>
    by_cases hhead : bounds.head? = some '{'
    · simp only [if_pos hhead, headRepetition_eq, Halt.ok_bind]
      cases hread : Repetition.read? bounds with
      | none =>
        rw [hnone (by simp [hbounds, hread])]
        rfl
      | some found =>
        obtain ⟨r, rest⟩ := found
        cases rest with
        | nil =>
          rw [wholeLength?_eq_some_iff.2 ⟨bounds, hbounds, hhead, hread⟩]
          exact congrArg Except.ok (if_pos rfl)
        | cons c rest =>
          have hlt := Repetition.length_lt_of_read? hread
          have hused : bounds.length - (c :: rest).length ≠ bounds.length := by
            rw [List.length_cons] at hlt ⊢
            omega
          rw [hnone (by simp [hbounds, hread])]
          exact congrArg Except.ok (if_neg hused)
    · rw [hnone (by simp [hbounds, hhead])]
      exact if_neg hhead

theorem ahead_eq (content : Text) : ahead content = .ok (Element.ahead content) := by
  rw [ahead, wholeLength?_eq, Halt.ok_bind, Element.ahead]
  cases Element.wholeLength? content <;> rfl

/-! ## Elements -/

/-- Where there is a mark, what stands behind it can be cut out. -/
theorem partFrom_append (front rest : Text) : partFrom (front ++ rest) front.length = .ok rest := by
  rw [partFrom_eq (by simp), List.drop_left]

/-- What stands behind the name of a group can be cut out, if the name ends. -/
theorem withoutName_eq (mark : Text) (hmark : '>' ∉ mark) (name : Text) :
    (match (mark ++ name).findIdx? (· == '>') with
      | some close => partFrom (mark ++ name) (close + 1)
      | none => return mark ++ name) = .ok (Element.withoutName (mark ++ name) name) := by
  have hfind : mark.findIdx? (· == '>') = none := by
    rw [List.findIdx?_eq_none_iff]
    rintro c hc
    simpa using fun heq : c = '>' => hmark (heq ▸ hc)
  rw [List.findIdx?_append, hfind, Option.none_or, findIdx?_eq, Element.withoutName]
  cases hsplit : Text.splitAt? '>' name with
  | none => rfl
  | some parts =>
    obtain ⟨before, after⟩ := parts
    obtain rfl := Text.eq_of_splitAt? hsplit
    simpa [Nat.add_comm, Nat.add_assoc, Nat.add_left_comm] using
      partFrom_append (mark ++ before ++ ['>']) after

/-- The body of a group is what stands behind its mark or name. -/
theorem body_eq (content : Text) : body content = .ok (Element.bodyOf content) := by
  fun_cases Element.bodyOf content with
  | case1 rest => exact partFrom_append ['?', ':'] rest
  | case2 name =>
    rw [body, if_neg (by simp), if_pos (by simp)]
    exact withoutName_eq ['?', '<'] (by decide) name
  | case3 name =>
    rw [body, if_neg (by simp), if_pos (by simp)]
    exact withoutName_eq ['?', 'P', '<'] (by decide) name
  | case4 content hplain hname hnamed =>
    rw [body, if_neg, if_neg]
    · rfl
    · rw [Bool.or_eq_true, List.isPrefixOf_iff_prefix, List.isPrefixOf_iff_prefix]
      rintro (⟨name, rfl⟩ | ⟨name, rfl⟩)
      · exact hname name rfl
      · exact hnamed name rfl
    · rw [List.isPrefixOf_iff_prefix]
      rintro ⟨rest, rfl⟩
      exact hplain rest rfl

theorem ofContent_of_mark (mark : Text) {inner : Text} {negated : Bool}
    (h : conditionMarks.find? (·.1.isPrefixOf (mark ++ inner)) = some (mark, negated)) :
    ofContent (mark ++ inner) = .ok (.atom (.lookaround
      (if mark = ['?', '='] then Element.ahead inner else ⟨negated, inner, none, none⟩))) := by
  rw [ofContent, h]
  dsimp only
  rw [partFrom_append, Halt.ok_bind]
  split
  · rw [ahead_eq]
    rfl
  · rfl

/-- What a group is follows from the mark that its content starts with. -/
theorem ofContent_eq (content : Text) : ofContent content = .ok (Element.ofContent content) := by
  unfold Element.ofContent
  fun_cases Element.condition? content with
  | case1 inner => exact ofContent_of_mark ['?', '='] rfl
  | case2 inner => exact ofContent_of_mark ['?', '!'] rfl
  | case3 inner => exact ofContent_of_mark ['?', '<', '='] rfl
  | case4 inner => exact ofContent_of_mark ['?', '<', '!'] rfl
  | case5 content hahead hnot hbehind hnotBehind =>
    have hnone : conditionMarks.find? (·.1.isPrefixOf content) = none := by
      simp only [conditionMarks, List.find?_eq_none, List.forall_mem_cons,
        List.isPrefixOf_iff_prefix]
      refine ⟨?_, ?_, ?_, ?_, List.forall_mem_nil _⟩ <;> rintro ⟨inner, rfl⟩
      · exact hahead inner rfl
      · exact hnot inner rfl
      · exact hbehind inner rfl
      · exact hnotBehind inner rfl
    rw [ofContent, hnone]
    dsimp only
    rw [body_eq]
    rfl

/-- What a part of a text uses, and what is left behind it. -/
structure Uses (text : Text) (used : Nat) (rest : Text) : Prop where
  pos : 0 < used
  le_length : used ≤ text.length
  drop_eq : text.drop used = rest

theorem Uses.of_eq_append {text rest : Text} (front : Text) (heq : text = front ++ rest)
    (hne : front ≠ []) : Uses text front.length rest := by
  subst heq
  exact ⟨List.length_pos_iff.2 hne, by simp, List.drop_left⟩

/-- A group or condition uses its content and the brackets around it. -/
theorem headGroup_eq (rest : Text) : ∃ used,
    headGroup ('(' :: rest) = .ok ((Element.read '(' rest).1, used) ∧
      Uses ('(' :: rest) used (Element.read '(' rest).2 := by
  rw [headGroup, groupEnd_eq, Halt.ok_bind, Element.read]
  cases hsplit : Brackets.splitGroup? 0 rest with
  | none =>
    refine ⟨_, ?_, .of_eq_append _ (List.append_nil _).symm (List.cons_ne_nil '(' rest)⟩
    have hpart : partFrom ('(' :: rest) 1 = .ok rest := partFrom_append ['('] rest
    change (partFrom ('(' :: rest) 1 >>= fun content => ofContent content >>= _) = _
    rw [hpart, Halt.ok_bind, ofContent_eq]
    rfl
  | some parts =>
    obtain ⟨content, after⟩ := parts
    obtain rfl := Brackets.splitGroup?_eq hsplit
    refine ⟨_, ?_, .of_eq_append ('(' :: content ++ [')']) (by simp) (by simp)⟩
    have hpart : part ('(' :: (content ++ ')' :: after)) 1 (1 + content.length) = .ok content := by
      simpa using part_append ['('] content (')' :: after)
    have hused : 1 + content.length + 1 = ('(' :: content ++ [')']).length := by
      simp [Nat.add_comm]
    change (part _ 1 (1 + content.length) >>= fun content => ofContent content >>= _) = _
    rw [hpart, Halt.ok_bind, ofContent_eq, ← hused]
    rfl

/-- The element at the start of a text is the one that is read there, and it uses what is not left
behind it. -/
theorem headElement_eq (c : Char) (rest : Text) : ∃ used,
    headElement (c :: rest) = .ok ((Element.read c rest).1, used) ∧
      Uses (c :: rest) used (Element.read c rest).2 := by
  have hdrop : (c :: rest).drop 0 = c :: rest := rfl
  rw [headElement, charAt_eq hdrop, Halt.ok_bind]
  split
  · -- a backslash at the end of the text stands for itself
    cases rest with
    | nil => exact ⟨1, rfl, .of_eq_append ['\\'] rfl (by simp)⟩
    | cons e after => exact ⟨2, rfl, .of_eq_append ['\\', e] rfl (by simp)⟩
  · -- a class that never closes is fixed text up to the end
    rw [classEnd_eq, Halt.ok_bind, Element.read]
    cases hsplit : Brackets.splitClass? rest with
    | none => exact ⟨_, rfl, .of_eq_append _ (List.append_nil _).symm (List.cons_ne_nil '[' rest)⟩
    | some parts =>
      obtain ⟨members, after⟩ := parts
      obtain rfl := Brackets.splitClass?_eq hsplit
      refine ⟨_, ?_, .of_eq_append ('[' :: members ++ [']']) (by simp) (by simp)⟩
      have hpart : part ('[' :: (members ++ ']' :: after)) 0 (1 + members.length + 1) =
          .ok ('[' :: members ++ [']']) := by
        simpa [Nat.add_comm] using part_append [] ('[' :: members ++ [']']) after
      have hused : 1 + members.length + 1 = ('[' :: members ++ [']']).length := by
        simp [Nat.add_comm]
      change (part _ 0 (1 + members.length + 1) >>= _) = _
      rw [hpart, ← hused]
      rfl
  · exact headGroup_eq rest
  · exact ⟨1, rfl, .of_eq_append ['.'] rfl (by simp)⟩
  · exact ⟨1, rfl, .of_eq_append ['^'] rfl (by simp)⟩
  · exact ⟨1, rfl, .of_eq_append ['$'] rfl (by simp)⟩
  · have hread : Element.read c rest = (.atom (.plain [c]), rest) := by simp [Element.read]
    rw [hread]
    exact ⟨1, rfl, .of_eq_append [c] rfl (by simp)⟩

section

variable {text rest : Text} {c : Char} {pos : Nat}

/-- At a position the element is read that the rest of the text starts with. -/
theorem elementAt_eq (h : text.drop pos = c :: rest) : ∃ used,
    elementAt text pos = .ok ((Element.read c rest).1, used) ∧
      Uses (c :: rest) used (Element.read c rest).2 := by
  rw [elementAt, partFrom_eq (Nat.le_of_lt (lt_length h)), h, Halt.ok_bind]
  exact headElement_eq c rest

/-- Behind a position that mark is skipped that the rest of the text starts with. -/
theorem drop_skip (h : text.drop pos = rest) :
    text.drop (skip '?' text pos) = Lexeme.withoutLazyMark rest := by
  fun_cases Lexeme.withoutLazyMark rest with
  | case1 rest =>
    rw [skip, if_pos (getElem?_eq h)]
    exact drop_succ h
  | case2 rest hmark =>
    rw [skip, if_neg, h]
    intro hc
    obtain ⟨rest, hrest⟩ := List.head?_eq_some_iff.1 ((List.head?_drop).trans hc)
    exact hmark rest (h.symm.trans hrest)

theorem le_skip (mark : Char) (text : Text) (pos : Nat) : pos ≤ skip mark text pos := by
  unfold skip
  split
  · exact Nat.le_succ pos
  · exact Nat.le_refl pos

/-- Behind an element the repetition is read that the lexeme has, and what the lexeme leaves over
stands at a position further on. -/
theorem timesAt_eq {used : Nat} (h : text.drop pos = c :: rest)
    (huses : Uses (c :: rest) used (Element.read c rest).2) : ∃ next, pos < next ∧
      timesAt text (c ∉ Lexeme.repetitionMarks && (Element.read c rest).1.isRepeatable)
        (pos + used) = .ok ((Lexeme.read c rest).times, next) ∧
      text.drop next = (Lexeme.read c rest).rest := by
  have hpos : pos < pos + used := Nat.lt_add_of_pos_right huses.pos
  have hdrop : text.drop (pos + used) = (Element.read c rest).2 := by
    rw [← List.drop_drop, h, huses.drop_eq]
  have hle : pos + used ≤ text.length := by
    have hlength := congrArg List.length h
    have := huses.le_length
    rw [List.length_drop] at hlength
    omega
  have hrepeatable : (decide (c ∉ Lexeme.repetitionMarks) && (Element.read c rest).1.isRepeatable) =
      !decide (c ∈ Lexeme.repetitionMarks ∨ (!(Element.read c rest).1.isRepeatable) = true) := by
    simp
  simp only [Lexeme.read, hrepeatable]
  split
  · rename_i hplain
    rw [decide_eq_true hplain]
    exact ⟨_, hpos, rfl, hdrop⟩
  · rename_i hplain
    rw [decide_eq_false hplain, timesAt, Bool.not_false, if_pos rfl, partFrom_eq hle, hdrop,
      Halt.ok_bind, headRepetition_eq, Halt.ok_bind]
    cases hread : Repetition.read? (Element.read c rest).2 with
    | none => exact ⟨_, hpos, rfl, hdrop⟩
    | some found =>
      obtain ⟨r, after⟩ := found
      obtain ⟨form, -, heq⟩ := Repetition.read?_eq_some_iff.1 hread
      have hlength : (Element.read c rest).2.length - after.length = form.length := by simp [heq]
      have hafter : text.drop (pos + used + ((Element.read c rest).2.length - after.length)) =
          after := by
        rw [hlength]
        exact drop_append _ (hdrop.trans heq)
      refine ⟨_, ?_, rfl, drop_skip hafter⟩
      exact Nat.lt_of_lt_of_le (Nat.lt_add_right _ hpos) (le_skip ..)

end

/-! ## Sequences -/

section

variable (limit depth : Nat) {pos : Nat} {text rest left body : Text} {c : Char} {a : Atom}
  {times : Option Repetition}

theorem onward_eq {next : Nat} (h : pos < next) : onward pos next = .ok ⟨next, h⟩ := dif_pos h

theorem inside_eq (h : body.length < text.length) : inside body text = .ok ⟨body, h⟩ := dif_pos h

theorem branchesFrom_nil (h : text.drop pos = []) :
    branchesFrom limit depth text pos = .ok [[]] := by
  rw [branchesFrom, if_neg (Nat.not_lt.2 (List.drop_eq_nil_iff.1 h))]
  rfl

theorem branchesFrom_bar (h : text.drop pos = '|' :: rest) :
    branchesFrom limit depth text pos = do
      return [] :: (← branchesFrom limit depth text (pos + 1)) := by
  rw [branchesFrom, if_pos (lt_length h), charAt_eq h, Halt.ok_bind, if_pos rfl]

/-- Where an atom stands, it is put in front of the branches behind it. -/
theorem branchesFrom_atom (h : text.drop pos = c :: rest) (hc : c ≠ '|')
    (hlexeme : Lexeme.read c rest = ⟨.atom a, times, left⟩) :
    ∃ next, pos < next ∧ text.drop next = left ∧ branchesFrom limit depth text pos = do
      return Sequence.prepend ⟨a, times⟩ (← branchesFrom limit depth text next) := by
  obtain ⟨used, helement, huses⟩ := elementAt_eq h
  obtain ⟨next, hnext, htimes, hleft⟩ := timesAt_eq h huses
  have hread : (Element.read c rest).1 = .atom a := by rw [← Lexeme.element_read, hlexeme]
  rw [hlexeme] at htimes hleft
  rw [hread] at helement htimes
  refine ⟨next, hnext, hleft, ?_⟩
  rw [branchesFrom, if_pos (lt_length h), charAt_eq h, Halt.ok_bind, if_neg hc, helement]
  change (timesAt text (_ && (Element.atom a).isRepeatable) (pos + used) >>= _) = _
  rw [htimes, Halt.ok_bind]
  dsimp only
  rw [onward_eq hnext]
  rfl

/-- Where a group stands, its body is read first, as a text of its own. -/
theorem branchesFrom_group (h : text.drop pos = c :: rest) (hc : c ≠ '|')
    (hlexeme : Lexeme.read c rest = ⟨.group body, times, left⟩) :
    ∃ next, pos < next ∧ text.drop next = left ∧ body.length < text.length ∧
      branchesFrom limit depth text pos = do
        let inner ← sequenceAt limit (depth + 1) body
        return Sequence.prepend ⟨.group inner, times⟩ (← branchesFrom limit depth text next) := by
  obtain ⟨used, helement, huses⟩ := elementAt_eq h
  obtain ⟨next, hnext, htimes, hleft⟩ := timesAt_eq h huses
  have hread : (Element.read c rest).1 = .group body := by rw [← Lexeme.element_read, hlexeme]
  have hbody : body.length < text.length := by
    have hlength := congrArg List.length h
    have := Element.length_of_read_group hread
    rw [List.length_drop, List.length_cons] at hlength
    omega
  rw [hlexeme] at htimes hleft
  rw [hread] at helement htimes
  refine ⟨next, hnext, hleft, hbody, ?_⟩
  rw [branchesFrom, if_pos (lt_length h), charAt_eq h, Halt.ok_bind, if_neg hc, helement,
    Halt.ok_bind]
  dsimp only
  rw [inside_eq hbody, Halt.ok_bind]
  cases sequenceAt limit (depth + 1) body with
  | error halt => rfl
  | ok inner =>
    change (timesAt text (_ && (Element.group body).isRepeatable) (pos + used) >>= _) = _
    rw [htimes, Halt.ok_bind]
    dsimp only
    rw [onward_eq hnext]
    rfl

end

/-- What is read, or the refusal of a pattern that nests too deep. -/
def orRefused {α : Type} (limit : Nat) : Option α → Except Halt α
  | some a => .ok a
  | none => .error (.refused (.tooDeep limit))

theorem orRefused_cases {α : Type} (limit : Nat) (found : Option α) :
    (∃ a, orRefused limit found = .ok a) ∨
      orRefused limit found = .error (.refused (.tooDeep limit)) := by
  cases found with
  | some a => exact .inl ⟨a, rfl⟩
  | none => exact .inr rfl

mutual

/-- A text is read as the branches of it are, if the depth at which it stands is within the
limit. -/
theorem sequenceAt_eq (limit depth : Nat) (text : Text) : sequenceAt limit depth text =
    orRefused limit (if limit < depth then none
      else (Sequence.readBranches? (limit - depth) text).map Sequence.ofBranches) := by
  rw [sequenceAt]
  split
  · rfl
  · rw [branchesFrom_eq limit depth text 0, List.drop_zero]
    cases Sequence.readBranches? (limit - depth) text <;> rfl
termination_by (text.length, text.length + 1)

/-- **Reading from a position is reading what is left there.**  The recursion is that of the
reader itself: on the body of a group, which is shorter, and on a position further on. -/
theorem branchesFrom_eq (limit depth : Nat) (text : Text) (pos : Nat) :
    branchesFrom limit depth text pos =
      orRefused limit (Sequence.readBranches? (limit - depth) (text.drop pos)) := by
  match hdrop : text.drop pos with
  | [] =>
    rw [branchesFrom_nil limit depth hdrop, Sequence.readBranches?]
    rfl
  | c :: rest =>
    have hpos : pos < text.length := lt_length hdrop
    by_cases hc : c = '|'
    · subst hc
      rw [branchesFrom_bar limit depth hdrop, branchesFrom_eq limit depth text (pos + 1),
        drop_succ hdrop, Sequence.readBranches?]
      cases Sequence.readBranches? (limit - depth) rest <;> rfl
    · match hlexeme : Lexeme.read c rest with
      | ⟨.atom a, times, left⟩ =>
        obtain ⟨next, hnext, hleft, heq⟩ := branchesFrom_atom limit depth hdrop hc hlexeme
        rw [heq, branchesFrom_eq limit depth text next, hleft,
          Sequence.readBranches?_atom hc hlexeme]
        cases Sequence.readBranches? (limit - depth) left <;> rfl
      | ⟨.group body, times, left⟩ =>
        obtain ⟨next, hnext, hleft, hbody, heq⟩ := branchesFrom_group limit depth
          hdrop hc hlexeme
        rw [heq, branchesFrom_eq limit depth text next, hleft, sequenceAt_eq limit (depth + 1) body]
        cases hlevels : limit - depth with
        | zero =>
          rw [if_pos (by omega), Sequence.readBranches?_group_zero hc hlexeme]
          rfl
        | succ levels =>
          rw [if_neg (by omega), Sequence.readBranches?_group_succ hc hlexeme,
            show limit - (depth + 1) = levels by omega]
          cases Sequence.readBranches? levels body with
          | none => rfl
          | some inner => cases Sequence.readBranches? (levels + 1) left <;> rfl
termination_by (text.length, text.length - pos)

end

/-- **Reading stays within the text and comes to an end.**  Whatever the text, the limit, the depth
and the position: the element at a position within the text is one that a lexeme there has, uses
at least one character and no more than are left, and if it is a group, its body is shorter than
what is left. Reading from the position on, and reading the text as one that stands at the depth,
gives a tree or refuses the pattern as nested too deep, and never halts for a character, a part or
a count that is not there, nor for a step that leads nowhere. It gives the tree that is read by
taking the text apart. -/
theorem reads_in_bounds (text : Text) (limit depth pos : Nat) :
    (∀ hpos : pos < text.length, ∃ element used, elementAt text pos = .ok (element, used) ∧
      Element.read text[pos] (text.drop (pos + 1)) = (element, text.drop (pos + used)) ∧
      1 ≤ used ∧ used ≤ text.length - pos ∧
      ∀ body, element = .group body → body.length < text.length - pos) ∧
    ((∃ branches, branchesFrom limit depth text pos = .ok branches) ∨
      branchesFrom limit depth text pos = .error (.refused (.tooDeep limit))) ∧
    ((∃ s, sequenceAt limit depth text = .ok s) ∨
      sequenceAt limit depth text = .error (.refused (.tooDeep limit))) ∧
    read text limit = (Sequence.read text limit).mapError .refused := by
  refine ⟨fun hpos => ?element, ?branches, ?sequence, ?tree⟩
  case element =>
    have hdrop : text.drop pos = text[pos] :: text.drop (pos + 1) := List.drop_eq_getElem_cons hpos
    have hlength : (text.drop (pos + 1)).length + 1 = text.length - pos := by
      rw [List.length_drop]
      omega
    obtain ⟨used, helement, huses⟩ := elementAt_eq hdrop
    have hleft : (Element.read text[pos] (text.drop (pos + 1))).2 = text.drop (pos + used) :=
      calc (Element.read text[pos] (text.drop (pos + 1))).2
          = (text[pos] :: text.drop (pos + 1)).drop used := huses.drop_eq.symm
        _ = (text.drop pos).drop used := congrArg (List.drop used) hdrop.symm
        _ = text.drop (pos + used) := List.drop_drop
    refine ⟨_, used, helement, Prod.ext rfl hleft, huses.pos, hlength ▸ huses.le_length, ?_⟩
    intro body hbody
    have := Element.length_of_read_group hbody
    omega
  case branches =>
    rw [branchesFrom_eq]
    exact orRefused_cases limit _
  case sequence =>
    rw [sequenceAt_eq]
    exact orRefused_cases limit _
  case tree =>
    rw [read, sequenceAt_eq, if_neg (Nat.not_lt_zero limit), Nat.sub_zero, Sequence.read]
    cases Sequence.readBranches? limit text <;> rfl

/-- A named group that never closes, with a `)` in a class and another group in it, up to a
backslash that escapes nothing. -/
theorem reads_in_bounds_malformed :
    elementAt "x(?<n>[)]|(b\\".toList 1 = .ok (.group "[)]|(b\\".toList, 12) ∧
      read "x(?<n>[)]|(b\\".toList 1 = .error (.refused (.tooDeep 1)) := by
  obtain ⟨helement, -, -, htree⟩ := reads_in_bounds "x(?<n>[)]|(b\\".toList 1 0 1
  obtain ⟨element, used, hat, hread, -, hle, -⟩ := helement (by decide)
  have hgroup : Element.read '(' "?<n>[)]|(b\\".toList = (.group "[)]|(b\\".toList, []) := by cbv
  obtain ⟨rfl, hdrop⟩ := Prod.mk.inj (hgroup.symm.trans hread)
  have hused : used = 12 := by
    have hend := List.drop_eq_nil_iff.1 hdrop.symm
    have hlength : "x(?<n>[)]|(b\\".toList.length = 13 := by decide
    omega
  exact ⟨hused ▸ hat, htree.trans (by cbv)⟩

end Positions

end InputMask
