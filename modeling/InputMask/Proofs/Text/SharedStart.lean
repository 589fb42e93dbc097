import InputMask.Text.SharedStart

/-!
# The shared start, character by character

The bound that is narrowed down to what several texts share is a number of bytes, but it is at
all times the size of a text: of what the first text and the others so far begin with.

* `Text.commonStart` — the longest text with which two texts begin.
* `Text.narrow_eq` — narrowing a bound by one more text.
* `Text.sharedStart_cons` — the shared start of several texts, one text after another.
* `Text.sharedStart_prefix` — all of the texts begin with it.
* `Text.prefix_sharedStart` — so does it with every other text of which this is true.
* `Text.sharedStart_longest` — both together, and where the bound lies on the way.
-/

namespace InputMask.Text

/-- The longest text with which two texts begin. -/
def commonStart : Text → Text → Text
  | a :: as, b :: bs => if a = b then a :: commonStart as bs else []
  | _, _ => []

theorem commonStart_prefix_left : ∀ a b : Text, commonStart a b <+: a
  | [], _ => List.prefix_rfl
  | _ :: _, [] => List.nil_prefix
  | a :: as, b :: bs => by
    rw [commonStart]
    by_cases hab : a = b
    · rw [if_pos hab]
      exact List.cons_prefix_cons.2 ⟨rfl, commonStart_prefix_left as bs⟩
    · rw [if_neg hab]
      exact List.nil_prefix

theorem commonStart_prefix_right : ∀ a b : Text, commonStart a b <+: b
  | [], _ => List.nil_prefix
  | _ :: _, [] => List.prefix_rfl
  | a :: as, b :: bs => by
    rw [commonStart]
    by_cases hab : a = b
    · rw [if_pos hab, hab]
      exact List.cons_prefix_cons.2 ⟨rfl, commonStart_prefix_right as bs⟩
    · rw [if_neg hab]
      exact List.nil_prefix

/-- What both texts begin with, their common start begins with. -/
theorem prefix_commonStart : ∀ {start a b : Text}, start <+: a → start <+: b →
    start <+: commonStart a b
  | [], _, _, _, _ => List.nil_prefix
  | _ :: _, [], _, ha, _ => nomatch List.prefix_nil.1 ha
  | _ :: _, _ :: _, [], _, hb => nomatch List.prefix_nil.1 hb
  | c :: start, a :: as, b :: bs, ha, hb => by
    obtain ⟨hca, has⟩ := List.cons_prefix_cons.1 ha
    obtain ⟨hcb, hbs⟩ := List.cons_prefix_cons.1 hb
    rw [commonStart, if_pos (hca.symm.trans hcb), ← hca]
    exact List.cons_prefix_cons.2 ⟨rfl, prefix_commonStart has hbs⟩

/-! ## Bytes -/

/-- The bytes of a text are those of the string of its characters. -/
theorem utf8ByteSize_ofList (text : Text) : (String.ofList text).utf8ByteSize = text.bytes := by
  induction text with
  | nil => rfl
  | cons c rest ih =>
    rw [String.ofList_cons, String.utf8ByteSize_append, String.utf8ByteSize_singleton, ih,
      bytes_cons]

/-- The size of what a text begins with is a character boundary in it. -/
theorem isValid_bytes {start text : Text} (h : start <+: text) :
    String.Pos.Raw.IsValid (String.ofList text) ⟨start.bytes⟩ := by
  obtain ⟨rest, rfl⟩ := h
  rw [String.Pos.Raw.isValid_iff_exists_append]
  refine ⟨String.ofList start, String.ofList rest, String.ofList_append, ?_⟩
  rw [String.Pos.Raw.ext_iff, String.byteIdx_rawEndPos, utf8ByteSize_ofList]

/-- As many bytes as a text takes are the text itself, where it stands in front. -/
theorem takeBytes_append (text rest : Text) : takeBytes text.bytes (text ++ rest) = text := by
  induction text with
  | nil =>
    cases rest with
    | nil => rfl
    | cons c rest =>
      have hpos : 0 < c.utf8Size := c.utf8Size_pos
      rw [bytes_nil, List.nil_append, takeBytes, if_neg (by omega)]
  | cons c text ih =>
    rw [bytes_cons, List.cons_append, takeBytes, if_pos (Nat.le_add_right _ _),
      Nat.add_sub_cancel_left, ih]

/-- Where two texts differ first, or where the shorter one ends, their common start ends. -/
theorem mismatch?_getD : ∀ a b : Text,
    (mismatch? a b).getD (min a.bytes b.bytes) = (commonStart a b).bytes
  | [], _ => Nat.zero_min _
  | _ :: _, [] => Nat.min_zero _
  | a :: as, b :: bs => by
    rw [mismatch?, commonStart]
    by_cases hab : a = b
    · rw [if_pos hab, if_pos hab, ← hab, bytes_cons, bytes_cons, bytes_cons, ← mismatch?_getD as bs]
      cases mismatch? as bs with
      | none => exact Nat.add_min_add_left ..
      | some i => rfl
    · rw [if_neg hab, if_neg hab]
      rfl

/-- Narrowing a bound that is the size of a start of the first text gives again such a bound. -/
theorem narrow_eq {first start : Text} (h : start <+: first) (other : Text) :
    narrow first start.bytes other = (commonStart start other).bytes := by
  obtain ⟨rest, rfl⟩ := h
  rw [narrow, takeBytes_append, mismatch?_getD]

/-! ## Several texts -/

theorem foldl_commonStart_prefix (first : Text) (others : List Text) :
    ∀ text ∈ first :: others, others.foldl commonStart first <+: text := by
  induction others generalizing first with
  | nil =>
    intro text htext
    rw [List.mem_singleton.1 htext]
    exact List.prefix_rfl
  | cons other others ih =>
    intro text htext
    have hboth := ih (commonStart first other) _ (List.mem_cons_self ..)
    rcases List.mem_cons.1 htext with rfl | htext
    · exact hboth.trans (commonStart_prefix_left text other)
    · rcases List.mem_cons.1 htext with rfl | htext
      · exact hboth.trans (commonStart_prefix_right first text)
      · exact ih (commonStart first other) text (List.mem_cons_of_mem _ htext)

theorem foldl_narrow {first start : Text} (h : start <+: first) (others : List Text) :
    others.foldl (narrow first) start.bytes = (others.foldl commonStart start).bytes := by
  induction others generalizing start with
  | nil => rfl
  | cons other others ih =>
    rw [List.foldl_cons, List.foldl_cons, narrow_eq h]
    exact ih ((commonStart_prefix_left start other).trans h)

theorem prefix_foldl_commonStart {start first : Text} {others : List Text}
    (h : ∀ text ∈ first :: others, start <+: text) : start <+: others.foldl commonStart first := by
  induction others generalizing first with
  | nil => exact h first (List.mem_cons_self ..)
  | cons other others ih =>
    have hfirst := h first (List.mem_cons_self ..)
    have hother := h other (List.mem_cons_of_mem _ (List.mem_cons_self ..))
    refine ih fun text htext => ?_
    rcases List.mem_cons.1 htext with rfl | htext
    · exact prefix_commonStart hfirst hother
    · exact h text (List.mem_cons_of_mem _ (List.mem_cons_of_mem _ htext))

/-- The bound after some of the texts is the size of what they share with the first one. -/
theorem sharedBytes_eq (first : Text) (others : List Text) :
    sharedBytes first others = (others.foldl commonStart first).bytes :=
  foldl_narrow List.prefix_rfl others

theorem takeBytes_sharedBytes (first : Text) (others : List Text) :
    takeBytes (sharedBytes first others) first = others.foldl commonStart first := by
  obtain ⟨rest, hrest⟩ := foldl_commonStart_prefix first others first (List.mem_cons_self ..)
  have htake := takeBytes_append (others.foldl commonStart first) rest
  rw [hrest] at htake
  rw [sharedBytes_eq, htake]

/-- The shared start is found one text after another. -/
theorem sharedStart_cons (first : Text) (others : List Text) :
    sharedStart (first :: others) = others.foldl commonStart first :=
  takeBytes_sharedBytes first others

/-- **All of the texts begin with the shared start.** -/
theorem sharedStart_prefix {texts : List Text} {text : Text} (h : text ∈ texts) :
    sharedStart texts <+: text := by
  cases texts with
  | nil => cases h
  | cons first others =>
    rw [sharedStart_cons]
    exact foldl_commonStart_prefix first others text h

/-- What all of the texts begin with, the shared start begins with. -/
theorem prefix_sharedStart {texts : List Text} {start : Text} (hne : texts ≠ [])
    (h : ∀ text ∈ texts, start <+: text) : start <+: sharedStart texts := by
  cases texts with
  | nil => exact absurd rfl hne
  | cons first others =>
    rw [sharedStart_cons]
    exact prefix_foldl_commonStart h

/-- **The shared start is the longest text with which all of the texts begin.**  After any number
of them the bound lies on a character boundary of the first text, so what is taken up to there
takes exactly that many bytes. Where no text is given, the shared start is empty. -/
theorem sharedStart_longest (texts : List Text) :
    (∀ first done rest, texts = first :: (done ++ rest) →
      String.Pos.Raw.IsValid (String.ofList first) ⟨sharedBytes first done⟩ ∧
      (takeBytes (sharedBytes first done) first).bytes = sharedBytes first done) ∧
    (∀ text ∈ texts, sharedStart texts <+: text) ∧
    (texts ≠ [] → ∀ start, (∀ text ∈ texts, start <+: text) → start <+: sharedStart texts) ∧
    (texts = [] → sharedStart texts = []) := by
  refine ⟨?_, fun _ => sharedStart_prefix, fun hne _ => prefix_sharedStart hne, ?_⟩
  · intro first done _ _
    have hstart := foldl_commonStart_prefix first done first (List.mem_cons_self ..)
    rw [takeBytes_sharedBytes, sharedBytes_eq]
    exact ⟨isValid_bytes hstart, rfl⟩
  · rintro rfl
    rfl

/-- Texts whose characters take one to four bytes: the second text ends within the first, and the
third differs from it inside a run of characters that take more than one byte. -/
theorem sharedStart_longest_multibyte :
    sharedStart ["€é😀ro".toList, "€é😀r".toList, "€é€".toList] = "€é".toList ∧
    sharedBytes "€é😀ro".toList ["€é😀r".toList] = 10 ∧
    String.Pos.Raw.IsValid "€é😀ro" ⟨10⟩ ∧ ¬ String.Pos.Raw.IsValid "€é😀ro" ⟨8⟩ ∧
    "€".toList <+: sharedStart ["€é😀ro".toList, "€é😀r".toList, "€é€".toList] := by
  have h := sharedStart_longest ["€é😀ro".toList, "€é😀r".toList, "€é€".toList]
  refine ⟨by decide, by decide, ?_, by decide, ?_⟩
  · exact (h.1 _ ["€é😀r".toList] ["€é€".toList] rfl).1
  · exact h.2.2.1 (by decide) _ (by decide)

end InputMask.Text
