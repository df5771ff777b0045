import MachineDebugger.Text.Blank
/-
  The first word of a line, and texts that consist of pieces set apart by blanks.

  A line is blank, or it starts with a word, perhaps after blanks, and goes on with a blank if it
  goes on at all (`Text.Cut`, `Text.blank_or_cut`). In a trimmed line that word is found, with the
  trimmed rest of the line (`Text.Cut.splitWord_trim`).

  `Text.Apart` says that a text consists of some pieces with blanks between any two of them. A piece
  that stands alone is what trimming leaves (`Text.Apart.trim_single`), and if the first piece is a
  word, the line is cut behind it (`Text.Apart.cut`).
-/

namespace MachineDebugger.Text

/-- There is nothing but blanks, or nothing at all. -/
def AllBlank (text : List Char) : Prop := ∀ c ∈ text, isBlank c = true

instance : DecidablePred AllBlank := fun _ => decidable_of_iff _ List.all_eq_true

/-- There are characters, and no blank among them. -/
structure IsWord (text : List Char) : Prop where
  ne_nil : text ≠ []
  unbroken : ∀ c ∈ text, isBlank c = false

theorem isWord_iff (text : List Char) :
    IsWord text ↔ text ≠ [] ∧ text.all (!isBlank ·) = true := by
  rw [List.all_eq_true]
  simp only [Bool.not_eq_true']
  exact ⟨fun h => ⟨h.ne_nil, h.unbroken⟩, fun h => ⟨h.1, h.2⟩⟩

instance : DecidablePred IsWord := fun text => decidable_of_iff' _ (isWord_iff text)

/-- There are characters, and no blanks to trim at the ends. -/
structure IsTrimmed (text : List Char) : Prop where
  ne_nil : text ≠ []
  trim_eq : trim text = text

/-- The line starts with this word, perhaps after blanks, and goes on with a blank or ends. -/
structure Cut (line word rest : List Char) : Prop where
  isWord : IsWord word
  apart : ∀ c ∈ rest.head?, isBlank c = true
  exists_gap : ∃ gap, AllBlank gap ∧ line = gap ++ (word ++ rest)

/-- The text consists of these pieces, with blanks between any two of them, and with blanks or
    nothing around them: what stands behind a piece starts with a blank, if there is anything. -/
inductive Apart : List (List Char) → List Char → Prop
  | nil {gap : List Char} (blank : AllBlank gap) : Apart [] gap
  | cons {gap piece text : List Char} {pieces : List (List Char)} (blank : AllBlank gap)
      (apart : ∀ c ∈ text.head?, isBlank c = true) (more : Apart pieces text) :
      Apart (piece :: pieces) (gap ++ (piece ++ text))

/-! ## Trimming -/

theorem allBlank_nil : AllBlank [] := fun _ h => absurd h List.not_mem_nil

theorem trimLeft_append {gap : List Char} (blank : AllBlank gap) (text : List Char) :
    trimLeft (gap ++ text) = trimLeft text :=
  List.dropWhile_append_of_pos blank

theorem trimRight_append {gap : List Char} (blank : AllBlank gap) (text : List Char) :
    trimRight (text ++ gap) = trimRight text := by
  have reversed : ∀ c ∈ gap.reverse, isBlank c = true := fun c hc =>
    blank c (List.mem_reverse.mp hc)
  rw [trimRight, List.reverse_append, List.dropWhile_append_of_pos reversed, trimRight]

theorem exists_eq_append_trimLeft (text : List Char) :
    ∃ gap, AllBlank gap ∧ text = gap ++ trimLeft text :=
  ⟨text.takeWhile isBlank, List.all_eq_true.mp List.all_takeWhile,
    List.takeWhile_append_dropWhile.symm⟩

theorem exists_eq_trimRight_append (text : List Char) :
    ∃ gap, AllBlank gap ∧ text = trimRight text ++ gap := by
  obtain ⟨gap, blank, whole⟩ := exists_eq_append_trimLeft text.reverse
  refine ⟨gap.reverse, fun c hc => blank c (List.mem_reverse.mp hc), ?_⟩
  have back := congrArg List.reverse whole
  rwa [List.reverse_reverse, List.reverse_append] at back

/-- Only blanks are trimmed away. -/
theorem exists_eq_append_trim (text : List Char) :
    ∃ front back, AllBlank front ∧ AllBlank back ∧ text = front ++ (trim text ++ back) := by
  obtain ⟨front, hfront, left⟩ := exists_eq_append_trimLeft text
  obtain ⟨back, hback, right⟩ := exists_eq_trimRight_append (trimLeft text)
  refine ⟨front, back, hfront, hback, ?_⟩
  rw [trim, ← right]
  exact left

/-- All blanks at the ends are trimmed away. -/
theorem trim_append {front back : List Char} (hfront : AllBlank front) (hback : AllBlank back)
    (text : List Char) : trim (front ++ (text ++ back)) = trim text := by
  rw [trim, trimLeft_append hfront, trim]
  by_cases empty : trimLeft text = []
  · have blank : AllBlank text := by
      obtain ⟨gap, blank, whole⟩ := exists_eq_append_trimLeft text
      rwa [whole, empty, List.append_nil]
    have nothing : trimLeft back = [] := by
      have := trimLeft_append hback []
      rwa [List.append_nil] at this
    rw [trimLeft_append blank, nothing, empty]
  · have inside : trimLeft (text ++ back) = trimLeft text ++ back := by
      have kept : ¬ (text.dropWhile isBlank).isEmpty = true := by
        rwa [List.isEmpty_iff]
      rw [trimLeft, List.dropWhile_append, if_neg kept, trimLeft]
    rw [inside, trimRight_append hback]

theorem trim_trim (text : List Char) : trim (trim text) = trim text := by
  obtain ⟨front, back, hfront, hback, whole⟩ := exists_eq_append_trim text
  have := trim_append hfront hback (trim text)
  rw [← whole] at this
  exact this.symm

theorem AllBlank.trim_eq_nil {text : List Char} (blank : AllBlank text) : trim text = [] := by
  have := trim_append blank allBlank_nil []
  rwa [List.append_nil, List.append_nil] at this

theorem trimLeft_of_word {word : List Char} (h : IsWord word) (text : List Char) :
    trimLeft (word ++ text) = word ++ text := by
  obtain ⟨c, more, rfl⟩ := List.exists_cons_of_ne_nil h.ne_nil
  have plain := h.unbroken c List.mem_cons_self
  exact List.dropWhile_cons_of_neg (by simp [plain])

/-- Behind a word the blanks at the end are trimmed away, and no character of the word. -/
theorem trimRight_word_append {word : List Char} (h : IsWord word) (text : List Char) :
    trimRight (word ++ text) = word ++ trimRight text := by
  have reversed : IsWord word.reverse :=
    ⟨by simpa using h.ne_nil, fun c hc => h.unbroken c (List.mem_reverse.mp hc)⟩
  have stays : word.reverse.dropWhile isBlank = word.reverse := by
    have := trimLeft_of_word reversed []
    rwa [List.append_nil] at this
  rw [trimRight, List.reverse_append, List.dropWhile_append, stays, trimRight]
  split
  · next empty =>
    rw [List.isEmpty_iff.mp empty]
    simp
  · simp

theorem IsWord.isTrimmed {word : List Char} (h : IsWord word) : IsTrimmed word where
  ne_nil := h.ne_nil
  trim_eq := by
    have left := trimLeft_of_word h []
    have right := trimRight_word_append h []
    rw [List.append_nil] at left right
    rw [trim, left, right]
    exact List.append_nil word

/-! ## The first word of a line -/

theorem takeWhile_word_append {word rest : List Char} (h : IsWord word)
    (apart : ∀ c ∈ rest.head?, isBlank c = true) :
    (word ++ rest).takeWhile (!isBlank ·) = word := by
  have plain : ∀ c ∈ word, (!isBlank c) = true := fun c hc => by simp [h.unbroken c hc]
  rw [List.takeWhile_append_of_pos plain]
  cases rest with
  | nil => exact List.append_nil word
  | cons c more => simp [apart c rfl]

theorem dropWhile_word_append {word rest : List Char} (h : IsWord word)
    (apart : ∀ c ∈ rest.head?, isBlank c = true) :
    (word ++ rest).dropWhile (!isBlank ·) = rest := by
  have plain : ∀ c ∈ word, (!isBlank c) = true := fun c hc => by simp [h.unbroken c hc]
  rw [List.dropWhile_append_of_pos plain]
  cases rest with
  | nil => rfl
  | cons c more => simp [apart c rfl]

/-- The first word of a trimmed line, and the rest of the line. -/
theorem Cut.splitWord_trim {line word rest : List Char} (h : Cut line word rest) :
    splitWord (trim line) = (word, trim rest) := by
  obtain ⟨gap, blank, rfl⟩ := h.exists_gap
  obtain ⟨back, hback, whole⟩ := exists_eq_trimRight_append rest
  have apart : ∀ c ∈ (trimRight rest).head?, isBlank c = true := by
    intro c hc
    refine h.apart c ?_
    rw [whole, List.head?_append, hc]
    rfl
  have trimmed : trim (trimRight rest) = trim rest := by
    have := trim_append allBlank_nil hback (trimRight rest)
    rw [← whole] at this
    exact this.symm
  rw [trim, trimLeft_append blank, trimLeft_of_word h.isWord, trimRight_word_append h.isWord,
    splitWord, takeWhile_word_append h.isWord apart, dropWhile_word_append h.isWord apart, trimmed]

theorem isWord_takeWhile {c : Char} (plain : isBlank c = false) (text : List Char) :
    IsWord (c :: text.takeWhile (!isBlank ·)) := by
  refine ⟨List.cons_ne_nil _ _, fun d hd => ?_⟩
  rcases List.mem_cons.mp hd with rfl | later
  · exact plain
  · simpa using List.all_eq_true.mp List.all_takeWhile d later

theorem isBlank_of_trimLeft {text rest : List Char} {c : Char} (h : trimLeft text = c :: rest) :
    isBlank c = false := by
  have first := List.head?_dropWhile_not isBlank text
  rw [← trimLeft, h] at first
  exact first

/-- A line is blank or has a first word. -/
theorem blank_or_cut (line : List Char) : AllBlank line ∨ ∃ word rest, Cut line word rest := by
  obtain ⟨gap, blank, whole⟩ := exists_eq_append_trimLeft line
  cases start : trimLeft line with
  | nil =>
    rw [start, List.append_nil] at whole
    exact Or.inl (whole ▸ blank)
  | cons c text =>
    have plain := isBlank_of_trimLeft start
    refine Or.inr ⟨c :: text.takeWhile (!isBlank ·), text.dropWhile (!isBlank ·),
      isWord_takeWhile plain text, fun d hd => ?_, gap, blank, ?_⟩
    · have stop := List.head?_dropWhile_not (!isBlank ·) text
      rw [hd] at stop
      simpa using stop
    · rw [List.cons_append, List.takeWhile_append_dropWhile, ← start]
      exact whole

theorem Cut.not_blank {line word rest : List Char} (h : Cut line word rest) : ¬ AllBlank line := by
  intro blank
  obtain ⟨gap, -, rfl⟩ := h.exists_gap
  obtain ⟨c, more, rfl⟩ := List.exists_cons_of_ne_nil h.isWord.ne_nil
  have here := blank c (by simp)
  rw [h.isWord.unbroken c List.mem_cons_self] at here
  cases here

/-- The rest of a line stands at its end, up to blanks. -/
theorem Cut.exists_eq_append_trim {line word rest : List Char} (h : Cut line word rest) :
    ∃ front back, AllBlank back ∧ line = front ++ (trim rest ++ back) := by
  obtain ⟨gap, -, whole⟩ := h.exists_gap
  obtain ⟨front, back, -, hback, rest_eq⟩ := Text.exists_eq_append_trim rest
  refine ⟨gap ++ (word ++ front), back, hback, ?_⟩
  rw [whole]
  conv => lhs; rw [rest_eq]
  simp only [List.append_assoc]

/-! ## Words -/

theorem words_of_trimLeft_eq_nil {text : List Char} (h : trimLeft text = []) : words text = [] := by
  rw [words]
  split
  · rfl
  · next c rest start => cases start.symm.trans h

theorem words_of_trimLeft_eq_cons {text rest : List Char} {c : Char}
    (h : trimLeft text = c :: rest) :
    words text = (c :: rest.takeWhile (!isBlank ·)) :: words (rest.dropWhile (!isBlank ·)) := by
  rw [words]
  split
  · next empty => cases empty.symm.trans h
  · next c' rest' start =>
    cases start.symm.trans h
    rfl

/-- A word by itself is all that is found in it. -/
theorem words_of_isWord {word : List Char} (h : IsWord word) : words word = [word] := by
  have start := trimLeft_of_word h []
  have apart : ∀ c ∈ ([] : List Char).head?, isBlank c = true := fun _ hc => by cases hc
  have taken := takeWhile_word_append h apart
  have left := dropWhile_word_append h apart
  obtain ⟨c, more, rfl⟩ := List.exists_cons_of_ne_nil h.ne_nil
  have plain : isBlank c = false := h.unbroken c List.mem_cons_self
  simp only [List.append_nil, List.takeWhile_cons, List.dropWhile_cons, plain, Bool.not_false,
    if_true] at start taken left
  rw [words_of_trimLeft_eq_cons start, taken, left, words_of_trimLeft_eq_nil rfl]

theorem isWord_of_head?_words {text word : List Char} (h : word ∈ (words text).head?) :
    IsWord word := by
  cases start : trimLeft text with
  | nil =>
    rw [words_of_trimLeft_eq_nil start] at h
    cases h
  | cons c rest =>
    rw [words_of_trimLeft_eq_cons start] at h
    cases h
    exact isWord_takeWhile (isBlank_of_trimLeft start) rest

/-! ## Pieces set apart -/

theorem Apart.trim_nil {text : List Char} (h : Apart [] text) : trim text = [] := by
  cases h with
  | nil blank => exact blank.trim_eq_nil

theorem Apart.trim_single {piece text : List Char} (h : Apart [piece] text)
    (trimmed : IsTrimmed piece) : trim text = piece := by
  cases h with
  | cons blank apart more =>
    cases more with
    | nil back => rw [trim_append blank back, trimmed.trim_eq]

theorem Apart.cut {word text : List Char} {pieces : List (List Char)}
    (h : Apart (word :: pieces) text) (isWord : IsWord word) :
    ∃ rest, Cut text word rest ∧ Apart pieces rest := by
  cases h with
  | @cons gap _ rest _ blank apart more => exact ⟨rest, ⟨isWord, apart, gap, blank, rfl⟩, more⟩

end MachineDebugger.Text
