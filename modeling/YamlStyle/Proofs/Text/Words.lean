import YamlStyle.Text.WhiteSpace

/-!
# Words and the white space between them

A text is read as words from its left end: some white space that may be missing, a word, and what is
behind it, which is nothing or begins with white space (`Apart`). Two facts carry everything that is
said about words. A text that is written in this way has the word as its first
(`words_gap_append`, `words_word_append`), and a text that has a first word is written in this way
(`exists_of_words_eq_cons`).

`words` is a recursion of this library. That its result is nothing of its own making says
`words_eq_filter_splitOnP`: split at every character of white space and throw away the empty pieces.
-/

set_option autoImplicit false

namespace YamlStyle

variable {text word rest gap : Text}

/-- A word in front of the text is over: the text is empty, or begins with white space. -/
def Apart (text : Text) : Prop := ∀ c ∈ text.head?, isWhiteSpace c = true

/-- The text does not begin with white space. -/
def Flush (text : Text) : Prop := ∀ c ∈ text.head?, isWhiteSpace c = false

/-- A text without white space that is not empty. -/
def IsWord (text : Text) : Prop := text ≠ [] ∧ ∀ c ∈ text, isWhiteSpace c = false

theorem apart_gap_append (hne : gap ≠ []) (hgap : ∀ c ∈ gap, isWhiteSpace c = true) (rest : Text) :
    Apart (gap ++ rest) := by
  cases gap with
  | nil => exact absurd rfl hne
  | cons c gap =>
    intro d hd
    obtain rfl := Option.some.inj hd
    exact hgap _ List.mem_cons_self

theorem isWord_of_all (hne : word ≠ []) (h : word.all (!isWhiteSpace ·) = true) : IsWord word := by
  refine ⟨hne, ?_⟩
  intro c hc
  simpa using List.all_eq_true.mp h c hc

theorem IsWord.flush_append (h : IsWord word) (rest : Text) : Flush (word ++ rest) := by
  obtain ⟨hne, hword⟩ := h
  cases word with
  | nil => exact absurd rfl hne
  | cons c word =>
    intro d hd
    obtain rfl := Option.some.inj hd
    exact hword _ List.mem_cons_self

/-! ## Skipping and taking -/

theorem skipWhiteSpace_gap_append (hgap : ∀ c ∈ gap, isWhiteSpace c = true) (hrest : Flush rest) :
    skipWhiteSpace (gap ++ rest) = rest := by
  rw [skipWhiteSpace, List.dropWhile_append_of_pos hgap]
  cases rest with
  | nil => rfl
  | cons c rest => simp [hrest c rfl]

theorem exists_of_skipWhiteSpace (h : skipWhiteSpace text = rest) :
    ∃ gap, text = gap ++ rest ∧ (∀ c ∈ gap, isWhiteSpace c = true) ∧ Flush rest := by
  refine ⟨text.takeWhile isWhiteSpace, ?_, ?_, ?_⟩
  · rw [← h, skipWhiteSpace, List.takeWhile_append_dropWhile]
  · intro c hc
    exact List.all_eq_true.mp List.all_takeWhile c hc
  · intro c hc
    have hhead := List.head?_dropWhile_not isWhiteSpace text
    rw [← skipWhiteSpace, h, Option.mem_def.mp hc] at hhead
    simpa using hhead

theorem takeWord_append (hword : ∀ c ∈ word, isWhiteSpace c = false) (hrest : Apart rest) :
    takeWord (word ++ rest) = (word, rest) := by
  have hall : ∀ c ∈ word, (!isWhiteSpace c) = true := by
    intro c hc
    simp [hword c hc]
  rw [takeWord, List.takeWhile_append_of_pos hall, List.dropWhile_append_of_pos hall]
  cases rest with
  | nil => simp
  | cons c rest => simp [hrest c rfl]

theorem of_takeWord (h : takeWord text = (word, rest)) :
    text = word ++ rest ∧ (∀ c ∈ word, isWhiteSpace c = false) ∧ Apart rest := by
  obtain ⟨hword, hrest⟩ := Prod.mk.inj h
  refine ⟨?_, ?_, ?_⟩
  · rw [← hword, ← hrest, List.takeWhile_append_dropWhile]
  · intro c hc
    rw [← hword] at hc
    have hnot := List.all_eq_true.mp List.all_takeWhile c hc
    simpa using hnot
  · intro c hc
    have hhead := List.head?_dropWhile_not (fun c => !isWhiteSpace c) text
    rw [hrest, Option.mem_def.mp hc] at hhead
    simpa using hhead

/-! ## The first word -/

theorem words_nil : words [] = [] := by
  rw [words.eq_def]

theorem words_cons_of_isWhiteSpace {c : Char} (h : isWhiteSpace c = true) (rest : Text) :
    words (c :: rest) = words rest := by
  rw [words.eq_def]
  exact if_pos h

theorem words_cons {c : Char} (h : isWhiteSpace c = false) (rest : Text) :
    words (c :: rest) = (c :: (takeWord rest).1) :: words (takeWord rest).2 := by
  rw [words.eq_def]
  exact if_neg (by simp [h])

theorem words_gap_append (hgap : ∀ c ∈ gap, isWhiteSpace c = true) (rest : Text) :
    words (gap ++ rest) = words rest := by
  induction gap with
  | nil => rfl
  | cons c gap ih =>
    rw [List.cons_append, words_cons_of_isWhiteSpace (hgap c List.mem_cons_self)]
    apply ih
    intro d hd
    exact hgap d (List.mem_cons_of_mem _ hd)

theorem words_word_append (hword : IsWord word) (hrest : Apart rest) :
    words (word ++ rest) = word :: words rest := by
  obtain ⟨hne, hword⟩ := hword
  cases word with
  | nil => exact absurd rfl hne
  | cons c word =>
    have hc := hword c List.mem_cons_self
    have htail : ∀ d ∈ word, isWhiteSpace d = false := by
      intro d hd
      exact hword d (List.mem_cons_of_mem _ hd)
    rw [List.cons_append, words_cons hc, takeWord_append htail hrest]

theorem exists_of_words_eq_cons {more : List Text} (h : words text = word :: more) :
    ∃ gap rest, text = gap ++ (word ++ rest) ∧ (∀ c ∈ gap, isWhiteSpace c = true) ∧ IsWord word ∧
      Apart rest ∧ words rest = more := by
  induction text with
  | nil =>
    rw [words_nil] at h
    exact absurd h (by simp)
  | cons c text ih =>
    cases hc : isWhiteSpace c with
    | true =>
      rw [words_cons_of_isWhiteSpace hc] at h
      obtain ⟨gap, rest, rfl, hgap, hfirst⟩ := ih h
      refine ⟨c :: gap, rest, rfl, ?_, hfirst⟩
      intro d hd
      rcases List.mem_cons.mp hd with rfl | hd
      · exact hc
      · exact hgap d hd
    | false =>
      rw [words_cons hc] at h
      cases hsplit : takeWord text with
      | mk tail rest =>
        rw [hsplit] at h
        obtain ⟨rfl, hmore⟩ := List.cons.inj h
        obtain ⟨rfl, htail, hrest⟩ := of_takeWord hsplit
        refine ⟨[], rest, rfl, by simp, ⟨by simp, ?_⟩, hrest, hmore⟩
        intro d hd
        rcases List.mem_cons.mp hd with rfl | hd
        · exact hc
        · exact htail d hd

theorem words_eq_nil_iff : words text = [] ↔ ∀ c ∈ text, isWhiteSpace c = true := by
  induction text with
  | nil => simp [words_nil]
  | cons c text ih =>
    cases hc : isWhiteSpace c with
    | true =>
      rw [words_cons_of_isWhiteSpace hc, ih]
      simp [hc]
    | false => simp [words_cons hc, hc]

theorem apart_of_words_eq_nil (h : words text = []) : Apart text := by
  intro c hc
  exact words_eq_nil_iff.mp h c (List.mem_of_mem_head? hc)

/-! ## Splitting -/

/-- **The words of a text are the pieces between its white space**, the empty ones left out. -/
theorem words_eq_filter_splitOnP (text : Text) :
    words text = (text.splitOnP isWhiteSpace).filter (!·.isEmpty) := by
  fun_induction words text with
  | case1 => simp [List.splitOnP_nil]
  | case2 c text hc ih =>
    rw [ih, List.splitOnP_cons_eq_if_modifyHead, if_pos hc]
    rfl
  | case3 c text hc ih =>
    cases hsplit : takeWord text with
    | mk tail rest =>
      obtain ⟨rfl, htail, hrest⟩ := of_takeWord hsplit
      have hpiece : ∀ d ∈ c :: tail, isWhiteSpace d = false := by
        intro d hd
        rcases List.mem_cons.mp hd with rfl | hd
        · simpa using hc
        · exact htail d hd
      rw [hsplit] at ih
      rw [ih, ← List.cons_append]
      cases rest with
      | nil => simp [List.splitOnP_eq_singleton hpiece, List.splitOnP_nil]
      | cons d rest =>
        have hd : isWhiteSpace d = true := hrest d rfl
        rw [List.splitOnP_append_cons _ _ hd, List.splitOnP_eq_singleton hpiece,
          List.splitOnP_cons_eq_if_modifyHead, if_pos hd]
        rfl

end YamlStyle
