import MachineDebugger.Text.Lines
/-
  The lines of a text that is written in UTF-8.

  The code of the newline stands in the bytes of no other character
  (`Text.newlineByte_not_mem_encodeChar`). So bytes fall into lines where their text does
  (`Text.lines_encode`, by induction on the characters), and a line of bytes that can be decoded can
  be decoded by itself (`Text.decode?_eq_some_iff`, `Text.decode?_encode`).

  Lines that are complete are not affected by what follows them (`Text.Complete.lines_append`), and
  bytes with complete lines in front are a text only if these lines are one, and the rest is one
  (`Text.exists_split_of_encode_eq`).
-/

namespace MachineDebugger.Text

/-- The bytes of a text in UTF-8. -/
def encode (text : List Char) : List UInt8 := text.flatMap String.utf8EncodeChar

theorem encode_cons (c : Char) (text : List Char) :
    encode (c :: text) = String.utf8EncodeChar c ++ encode text := rfl

theorem toByteArray_eq_iff (text : String) (bytes : List UInt8) :
    text.toByteArray = ⟨bytes.toArray⟩ ↔ encode text.toList = bytes := by
  have encoded : text.toByteArray = (encode text.toList).toByteArray :=
    String.utf8Encode_toList.symm
  have list : text.toByteArray.data.toList = encode text.toList := by
    rw [encoded, List.toList_data_toByteArray]
  constructor
  · intro same
    rw [← list, same]
  · intro same
    rw [← same, ← list]

/-- The bytes that are decoded are those of texts. -/
theorem decode?_eq_some_iff (bytes : List UInt8) (text : String) :
    decode? bytes = some text ↔ encode text.toList = bytes := by
  rw [← toByteArray_eq_iff]
  unfold decode? String.fromUTF8?
  constructor
  · intro decoded
    split at decoded
    case isTrue valid =>
      cases decoded
      rfl
    case isFalse => cases decoded
  · intro same
    have valid : ByteArray.IsValidUTF8 ⟨bytes.toArray⟩ := same ▸ text.isValidUTF8
    rw [dif_pos valid]
    exact congrArg some (String.toByteArray_inj.mp same.symm)

theorem decode?_encode (text : List Char) : decode? (encode text) = some (String.ofList text) := by
  rw [decode?_eq_some_iff, String.toList_ofList]

/-! ## Lines -/

section Complete

variable {α : Type} {newline : α}

/-- There is nothing behind the last newline. -/
def Complete (newline : α) (text : List α) : Prop := ∀ last ∈ text.getLast?, last = newline

theorem complete_nil : Complete newline [] := fun _ none => by cases none

theorem Complete.of_append {text : List α} (front : List α) (h : Complete newline (front ++ text)) :
    Complete newline text := by
  intro last hlast
  refine h last ?_
  rw [List.getLast?_append, hlast]
  rfl

theorem Complete.eq_of_singleton {c : α} (h : Complete newline [c]) : c = newline := h c rfl

theorem Complete.mem {text : List α} (h : Complete newline text) (nonempty : text ≠ []) :
    newline ∈ text := by
  rw [← h _ (List.getLast?_eq_some_getLast nonempty)]
  exact List.getLast_mem nonempty

/-- Complete lines may follow anything that ends with a newline if it is all there is. -/
theorem Complete.cons {c : α} {text : List α} (h : Complete newline text)
    (last : text = [] → c = newline) : Complete newline (c :: text) := by
  intro d hd
  by_cases empty : text = []
  · rw [empty] at hd
    cases hd
    exact last empty
  · refine h d ?_
    rwa [List.getLast?_cons_of_ne_nil empty] at hd

end Complete

section Lines

variable {α : Type} [DecidableEq α] {newline : α}

theorem lines_cons_newline (text : List α) :
    lines newline (newline :: text) = [] :: lines newline text :=
  if_pos rfl

theorem lines_cons_of_ne {c : α} (other : c ≠ newline) (text : List α) :
    lines newline (c :: text) =
      (c :: (lines newline text).headD []) :: (lines newline text).tail := by
  refine (if_neg other).trans ?_
  rw [← lines]
  cases lines newline text <;> rfl

/-- What stands before the first newline belongs to the first line. -/
theorem lines_append_of_not_mem {front : List α} (absent : newline ∉ front) (nonempty : front ≠ [])
    (text : List α) :
    lines newline (front ++ text) =
      (front ++ (lines newline text).headD []) :: (lines newline text).tail := by
  induction front with
  | nil => exact absurd rfl nonempty
  | cons c rest ih =>
    rw [List.mem_cons, not_or] at absent
    rw [List.cons_append, lines_cons_of_ne (Ne.symm absent.1)]
    by_cases last : rest = []
    · rw [last]
      rfl
    · rw [ih absent.2 last]
      rfl

theorem lines_ne_nil {text : List α} (h : text ≠ []) : lines newline text ≠ [] := by
  obtain ⟨c, rest, rfl⟩ := List.exists_cons_of_ne_nil h
  by_cases here : c = newline
  · rw [here, lines_cons_newline]
    exact List.cons_ne_nil _ _
  · rw [lines_cons_of_ne here]
    exact List.cons_ne_nil _ _

/-- Complete lines stay as they are, whatever follows. -/
theorem Complete.lines_append {front : List α} (h : Complete newline front) (text : List α) :
    lines newline (front ++ text) = lines newline front ++ lines newline text := by
  induction front with
  | nil => rfl
  | cons c rest ih =>
    have later : Complete newline rest := h.of_append [c]
    by_cases here : c = newline
    · rw [here, List.cons_append, lines_cons_newline, lines_cons_newline, ih later,
        List.cons_append]
    · have more : rest ≠ [] := by
        rintro rfl
        exact here h.eq_of_singleton
      obtain ⟨line, others, split⟩ := List.exists_cons_of_ne_nil (lines_ne_nil more)
      rw [List.cons_append, lines_cons_of_ne here, lines_cons_of_ne here, ih later, split]
      rfl

/-- There are as many complete lines as newlines. -/
theorem Complete.length_lines {text : List α} (h : Complete newline text) :
    (lines newline text).length = text.count newline := by
  induction text with
  | nil => rfl
  | cons c rest ih =>
    have later : Complete newline rest := h.of_append [c]
    by_cases here : c = newline
    · rw [here, lines_cons_newline, List.length_cons, ih later, List.count_cons_self]
    · have more : rest ≠ [] := by
        rintro rfl
        exact here h.eq_of_singleton
      obtain ⟨line, others, split⟩ := List.exists_cons_of_ne_nil (lines_ne_nil more)
      rw [lines_cons_of_ne here, List.count_cons_of_ne here, ← ih later, split]
      rfl

end Lines

/-- A byte of a character is its code, if that is all there is, or else at least 128. -/
theorem toNat_of_mem_encodeChar {c : Char} {byte : UInt8} (mem : byte ∈ String.utf8EncodeChar c) :
    byte.toNat = c.val.toNat ∨ 128 ≤ byte.toNat := by
  unfold String.utf8EncodeChar at mem
  dsimp only at mem
  -- One, two, three or four bytes.
  split at mem
  · rw [List.mem_singleton.mp mem, UInt8.toNat_ofNat']
    omega
  · split at mem
    · simp only [List.mem_cons, List.not_mem_nil, or_false] at mem
      rcases mem with rfl | rfl <;> rw [UInt8.toNat_ofNat'] <;> omega
    · split at mem
      · simp only [List.mem_cons, List.not_mem_nil, or_false] at mem
        rcases mem with rfl | rfl | rfl <;> rw [UInt8.toNat_ofNat'] <;> omega
      · simp only [List.mem_cons, List.not_mem_nil, or_false] at mem
        rcases mem with rfl | rfl | rfl | rfl <;> rw [UInt8.toNat_ofNat'] <;> omega

theorem newlineByte_not_mem_encodeChar {c : Char} (other : c ≠ '\n') :
    newlineByte ∉ String.utf8EncodeChar c := by
  intro mem
  have code : c.val.toNat ≠ 10 := fun same => other (Char.ext (UInt32.toNat_inj.mp same))
  have ten : newlineByte.toNat = 10 := rfl
  have := toNat_of_mem_encodeChar mem
  omega

/-- The lines of the bytes of a text are the bytes of its lines. -/
theorem lines_encode (text : List Char) :
    lines newlineByte (encode text) = (lines '\n' text).map encode := by
  induction text with
  | nil => rfl
  | cons c rest ih =>
    rw [encode_cons]
    by_cases newline : c = '\n'
    · rw [newline, lines_cons_newline]
      show lines newlineByte (newlineByte :: encode rest) = _
      rw [lines_cons_newline, ih]
      rfl
    · rw [lines_append_of_not_mem (newlineByte_not_mem_encodeChar newline)
        String.utf8EncodeChar_ne_nil, lines_cons_of_ne newline, ih]
      cases lines '\n' rest <;> rfl

/-- A text whose bytes start with complete lines is cut behind these lines. -/
theorem exists_split_of_encode_eq {text : List Char} {a b : List UInt8} (h : encode text = a ++ b)
    (complete : Complete newlineByte a) :
    ∃ front back, text = front ++ back ∧ encode front = a ∧ encode back = b ∧
      Complete '\n' front := by
  induction text generalizing a with
  | nil =>
    obtain ⟨rfl, rfl⟩ := List.append_eq_nil_iff.mp h.symm
    exact ⟨[], [], rfl, rfl, rfl, complete_nil⟩
  | cons c rest ih =>
    by_cases empty : a = []
    · subst empty
      exact ⟨[], c :: rest, rfl, rfl, h, complete_nil⟩
    · have newline := complete.mem empty
      -- The newline is behind the first character or is that character.
      obtain ⟨later, rfl, split⟩ :
          ∃ later, a = String.utf8EncodeChar c ++ later ∧ encode rest = later ++ b := by
        rw [encode_cons] at h
        by_cases here : c = '\n'
        · subst here
          obtain ⟨first, later, rfl⟩ := List.exists_cons_of_ne_nil empty
          obtain ⟨rfl, split⟩ := List.cons.inj h
          exact ⟨later, rfl, split⟩
        · rcases List.append_eq_append_iff.mp h with ⟨later, whole, split⟩ | ⟨cut, first, -⟩
          · exact ⟨later, whole, split⟩
          · have inside := List.mem_append_left cut newline
            rw [← first] at inside
            exact absurd inside (newlineByte_not_mem_encodeChar here)
      obtain ⟨front, back, rfl, rfl, hback, hfront⟩ := ih split (complete.of_append _)
      refine ⟨c :: front, back, rfl, rfl, hback, hfront.cons ?_⟩
      rintro rfl
      by_cases here : c = '\n'
      · exact here
      · rw [show encode [] = [] from rfl, List.append_nil] at newline
        exact absurd newline (newlineByte_not_mem_encodeChar here)

end MachineDebugger.Text
