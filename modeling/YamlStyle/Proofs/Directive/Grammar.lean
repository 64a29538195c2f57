import Mathlib.Data.String.Basic
import YamlStyle.Directive
import YamlStyle.Proofs.Text.Words

/-!
# Directives are read off words

`Directive.parse?` reads a comment from left to right. It tries verbs that are beginnings of one another,
takes names as far as they go, and has to come out at the end of the text. `parse?_iff_words` says that
none of this shows: a comment is a directive exactly if what is behind its `#`, split at white space, is
the marker, a verb and clauses, with no clause behind the verb that silences a file.

Every step of the reader leaves a text that is `Apart`, so it has come to the end of a word, or one that is
`Flush`, so it is about to read one. That is what makes its choices unique. Two verbs can both stand at the
head of a text, but what is behind them can be `Apart` for one of them only (`request?_eq_some_iff`).
-/

set_option autoImplicit false

namespace YamlStyle

/-! ## Names in order -/

theorem mem_insertName {name rule : String} {names : List String} :
    rule ∈ insertName name names ↔ rule = name ∨ rule ∈ names := by
  induction names with
  | nil => simp [insertName]
  | cons k names ih =>
    rw [insertName]
    split_ifs with hlt heq
    · simp
    · simp [heq]
    · simp only [List.mem_cons, ih]
      exact or_left_comm

theorem pairwise_insertName {names : List String} (h : names.Pairwise (· < ·)) (name : String) :
    (insertName name names).Pairwise (· < ·) := by
  induction names with
  | nil => exact List.pairwise_singleton _ _
  | cons k names ih =>
    obtain ⟨hbehind, hnames⟩ := List.pairwise_cons.mp h
    rw [insertName]
    split_ifs with hlt heq
    · refine List.pairwise_cons.mpr ⟨?_, h⟩
      intro other hother
      rcases List.mem_cons.mp hother with rfl | hother
      · exact hlt
      · exact lt_trans hlt (hbehind other hother)
    · exact h
    · refine List.pairwise_cons.mpr ⟨?_, ih hnames⟩
      intro other hother
      rcases mem_insertName.mp hother with rfl | hother
      · exact lt_of_le_of_ne (not_lt.mp hlt) (fun hq => heq hq.symm)
      · exact hbehind other hother

/-- The rules are named in order, once each, and they are those of `names`. -/
def NamesRules (rules : List String) (names : List Text) : Prop :=
  rules.Pairwise (· < ·) ∧ ∀ rule, rule ∈ rules ↔ rule.toList ∈ names

theorem foldl_insertName (names : List Text) {acc : List String} (h : acc.Pairwise (· < ·)) :
    (names.foldl (fun acc n => insertName (String.ofList n) acc) acc).Pairwise (· < ·) ∧
      ∀ rule, rule ∈ names.foldl (fun acc n => insertName (String.ofList n) acc) acc ↔
        rule ∈ acc ∨ rule.toList ∈ names := by
  induction names generalizing acc with
  | nil => exact ⟨h, by simp⟩
  | cons name names ih =>
    obtain ⟨hordered, hmem⟩ := ih (pairwise_insertName h (String.ofList name))
    refine ⟨hordered, ?_⟩
    intro rule
    have hname : rule = String.ofList name ↔ rule.toList = name := by
      constructor
      · rintro rfl
        exact String.toList_ofList
      · rintro rfl
        exact String.ofList_toList.symm
    rw [List.foldl_cons, hmem, mem_insertName, hname, List.mem_cons]
    tauto

theorem namesRules_foldl (names : List Text) :
    NamesRules (names.foldl (fun acc n => insertName (String.ofList n) acc) []) names := by
  obtain ⟨hordered, hmem⟩ := foldl_insertName names List.Pairwise.nil
  exact ⟨hordered, by simpa using hmem⟩

theorem NamesRules.unique {rules rules' : List String} {names : List Text}
    (h : NamesRules rules names) (h' : NamesRules rules' names) : rules = rules' := by
  have hnodup := h.1.imp fun hlt => ne_of_lt hlt
  have hnodup' := h'.1.imp fun hlt => ne_of_lt hlt
  have hperm : rules.Perm rules' := by
    apply (List.perm_ext_iff_of_nodup hnodup hnodup').mpr
    intro rule
    rw [h.2, h'.2]
  apply hperm.eq_of_pairwise _ h.1 h'.1
  intro a b _ _ hab hba
  exact absurd hba (lt_asymm hab)

/-! ## What directives are made of -/

/-- How a verb is spelt. -/
def Verb.name : Verb → String
  | .disable => "disable"
  | .enable => "enable"
  | .disableLine => "disable-line"
  | .disableFile => "disable-file"

def Verb.word (verb : Verb) : Text := verb.name.toList

/-- A clause that names a rule. -/
def clauseOf (name : Text) : Text := "rule:".toList ++ name

theorem Verb.word_injective {v v' : Verb} (h : v.word = v'.word) : v = v' := by
  have hname : v.name = v'.name := String.toList_inj.mp h
  cases v <;> cases v' <;> first | rfl | exact absurd hname (by decide)

theorem Verb.mem_spellings_iff {word : Text} {verb : Verb} :
    (word, verb) ∈ Verb.spellings ↔ word = verb.word := by
  cases verb <;> simp [Verb.spellings, Verb.word, Verb.name]

theorem Verb.isWord_word (verb : Verb) : IsWord verb.word := by
  cases verb <;> exact isWord_of_all (by decide) (by decide)

theorem isWord_marker : IsWord marker := isWord_of_all (by decide) (by decide)

theorem clauseOf_append (name rest : Text) :
    clauseOf name ++ rest = "rule:".toList ++ (name ++ rest) :=
  List.append_assoc "rule:".toList name rest

theorem isWord_clauseOf_iff {name : Text} :
    IsWord (clauseOf name) ↔ ∀ c ∈ name, isWhiteSpace c = false := by
  have hrule : IsWord "rule:".toList := isWord_of_all (by decide) (by decide)
  constructor
  · intro h c hc
    exact h.2 c (List.mem_append_right _ hc)
  · intro h
    refine ⟨List.append_ne_nil_of_left_ne_nil hrule.1 name, ?_⟩
    intro c hc
    rcases List.mem_append.mp hc with hc | hc
    · exact hrule.2 c hc
    · exact h c hc

namespace Directive

variable {text rest word name : Text}

/-! ## Steps of the reader -/

theorem literal?_eq_some_iff : literal? word text = some rest ↔ text = word ++ rest := by
  rw [literal?]
  constructor
  · intro h
    split at h
    · rename_i hprefix
      obtain ⟨tail, rfl⟩ := List.isPrefixOf_iff_prefix.mp hprefix
      rw [← Option.some.inj h, List.drop_left]
    · exact absurd h (by simp)
  · rintro rfl
    rw [if_pos (by simp), List.drop_left]

theorem space?_eq_some_iff :
    space? text = some rest ↔ ∃ gap, gap ≠ [] ∧ (∀ c ∈ gap, isWhiteSpace c = true) ∧
      text = gap ++ rest ∧ Flush rest := by
  cases text with
  | nil => simp [space?]
  | cons c text =>
    rw [space?]
    constructor
    · intro h
      split at h
      · rename_i hc
        obtain ⟨gap, rfl, hgap, hflush⟩ := exists_of_skipWhiteSpace (Option.some.inj h)
        refine ⟨c :: gap, by simp, ?_, rfl, hflush⟩
        intro d hd
        rcases List.mem_cons.mp hd with rfl | hd
        · exact hc
        · exact hgap d hd
      · exact absurd h (by simp)
    · rintro ⟨gap, hne, hgap, htext, hflush⟩
      cases gap with
      | nil => exact absurd rfl hne
      | cons d gap =>
        have htail : ∀ e ∈ gap, isWhiteSpace e = true := by
          intro e he
          exact hgap e (List.mem_cons_of_mem _ he)
        obtain ⟨rfl, rfl⟩ : c = d ∧ text = gap ++ rest := List.cons.inj htext
        rw [if_pos (hgap c List.mem_cons_self), skipWhiteSpace_gap_append htail hflush]

theorem clause?_eq_some_iff :
    clause? text = some (name, rest) ↔ name ≠ [] ∧ ∃ gap, gap ≠ [] ∧
      (∀ c ∈ gap, isWhiteSpace c = true) ∧ text = gap ++ (clauseOf name ++ rest) ∧
      IsWord (clauseOf name) ∧ Apart rest := by
  simp only [clause?, Option.bind_eq_bind, Option.bind_eq_some_iff, space?_eq_some_iff,
    literal?_eq_some_iff]
  constructor
  · rintro ⟨_, ⟨gap, hne, hgap, rfl, -⟩, behind, rfl, h⟩
    cases hsplit : takeWord behind with
    | mk word tail =>
      rw [hsplit] at h
      cases word with
      | nil => exact absurd h (by simp)
      | cons c word =>
        obtain ⟨rfl, rfl⟩ := Prod.mk.inj (Option.some.inj h)
        obtain ⟨rfl, hname, hrest⟩ := of_takeWord hsplit
        refine ⟨by simp, gap, hne, hgap, ?_, isWord_clauseOf_iff.mpr hname, hrest⟩
        rw [clauseOf_append]
  · rintro ⟨hname, gap, hne, hgap, rfl, hword, hrest⟩
    refine ⟨clauseOf name ++ rest, ⟨gap, hne, hgap, rfl, hword.flush_append rest⟩, name ++ rest, ?_, ?_⟩
    · rw [clauseOf_append]
    · rw [takeWord_append (isWord_clauseOf_iff.mp hword) hrest]
      cases name with
      | nil => exact absurd rfl hname
      | cons c name => rfl

/-! ## Clauses -/

theorem words_of_clause? (h : clause? text = some (name, rest)) :
    Apart text ∧ Apart rest ∧ name ≠ [] ∧ words text = clauseOf name :: words rest := by
  obtain ⟨hname, gap, hne, hgap, rfl, hword, hrest⟩ := clause?_eq_some_iff.mp h
  refine ⟨apart_gap_append hne hgap _, hrest, hname, ?_⟩
  rw [words_gap_append hgap, words_word_append hword hrest]

theorem exists_clause?_of_words {more : List Text} (hapart : Apart text) (hname : name ≠ [])
    (h : words text = clauseOf name :: more) :
    ∃ rest, clause? text = some (name, rest) ∧ Apart rest ∧ words rest = more := by
  obtain ⟨gap, rest, rfl, hgap, hword, hrest, hmore⟩ := exists_of_words_eq_cons h
  refine ⟨rest, clause?_eq_some_iff.mpr ⟨hname, gap, ?_, hgap, rfl, hword, hrest⟩, hrest, hmore⟩
  -- Without a gap the clause would begin where a word has just ended.
  rintro rfl
  have hspace := hapart 'r' rfl
  exact absurd hspace (by decide)

theorem clauses?_eq_some_iff {names : List Text} :
    clauses? text = some names ↔
      Apart text ∧ words text = names.map clauseOf ∧ ∀ name ∈ names, name ≠ [] := by
  constructor
  · intro h
    fun_induction clauses? text generalizing names with
    | case1 text name rest hclause ih =>
      obtain ⟨names, hnames, rfl⟩ := Option.map_eq_some_iff.mp h
      obtain ⟨hapart, -, hname, hwords⟩ := words_of_clause? hclause
      obtain ⟨-, hmore, hall⟩ := ih hnames
      refine ⟨hapart, by rw [hwords, hmore, List.map_cons], ?_⟩
      intro other hother
      rcases List.mem_cons.mp hother with rfl | hother
      · exact hname
      · exact hall other hother
    | case2 text hclause hempty =>
      obtain rfl := Option.some.inj h
      obtain ⟨gap, rfl, hgap, -⟩ := exists_of_skipWhiteSpace (List.isEmpty_iff.mp hempty)
      have hwords : words (gap ++ []) = [] := words_eq_nil_iff.mpr (by simpa using hgap)
      exact ⟨apart_of_words_eq_nil hwords, hwords, by simp⟩
    | case3 text hclause hempty => exact absurd h (by simp)
  · rintro ⟨hapart, hwords, hall⟩
    induction names generalizing text with
    | nil =>
      have hnone : clause? text = none := by
        apply Option.eq_none_iff_forall_ne_some.mpr
        rintro ⟨name, rest⟩ hclause
        obtain ⟨-, -, -, hcons⟩ := words_of_clause? hclause
        exact absurd (hwords.symm.trans hcons) (by simp)
      have hskip : skipWhiteSpace text = [] := by
        rw [← List.append_nil text]
        exact skipWhiteSpace_gap_append (words_eq_nil_iff.mp hwords) (by simp [Flush])
      rw [clauses?]
      split
      · rename_i hclause
        exact absurd (hnone.symm.trans hclause) (by simp)
      · simp [hskip]
    | cons name names ih =>
      obtain ⟨rest, hclause, hrest, hmore⟩ :=
        exists_clause?_of_words hapart (hall name List.mem_cons_self) hwords
      have hnames := ih hrest hmore fun other hother => hall other (List.mem_cons_of_mem _ hother)
      rw [clauses?]
      split
      · rename_i name' rest' hclause'
        obtain ⟨rfl, rfl⟩ := Prod.mk.inj (Option.some.inj (hclause.symm.trans hclause'))
        rw [hnames]
        rfl
      · rename_i hnone
        exact absurd (hclause.symm.trans hnone) (by simp)

/-! ## Requests -/

theorem exists_of_request? {verb : Verb} {names : List Text} (h : request? text = some (verb, names)) :
    ∃ rest, text = verb.word ++ rest ∧ clauses? rest = some names := by
  obtain ⟨⟨word, verb'⟩, hmem, h⟩ := List.exists_of_findSome?_eq_some h
  simp only [Option.bind_eq_bind, Option.bind_eq_some_iff, literal?_eq_some_iff] at h
  obtain ⟨rest, rfl, names', hnames, h⟩ := h
  obtain ⟨rfl, rfl⟩ := Prod.mk.inj (Option.some.inj h)
  rw [Verb.mem_spellings_iff.mp hmem]
  exact ⟨rest, rfl, hnames⟩

theorem request?_eq_some_iff {verb : Verb} {names : List Text} :
    request? text = some (verb, names) ↔
      ∃ rest, text = verb.word ++ rest ∧ clauses? rest = some names := by
  refine ⟨exists_of_request?, ?_⟩
  rintro ⟨rest, rfl, hnames⟩
  cases hrequest : request? (verb.word ++ rest) with
  | none =>
    have hnone := List.findSome?_eq_none_iff.mp hrequest (verb.word, verb) (Verb.mem_spellings_iff.mpr rfl)
    simp [literal?_eq_some_iff.mpr rfl, hnames] at hnone
  | some request =>
    obtain ⟨verb', names'⟩ := request
    obtain ⟨rest', htext, hnames'⟩ := exists_of_request? hrequest
    -- Behind either verb a word is over, so both are the first word of the text.
    have hapart := (clauses?_eq_some_iff.mp hnames).1
    have hapart' := (clauses?_eq_some_iff.mp hnames').1
    have hfirst := takeWord_append verb.isWord_word.2 hapart
    rw [htext, takeWord_append verb'.isWord_word.2 hapart'] at hfirst
    obtain ⟨hword, rfl⟩ := Prod.mk.inj hfirst
    obtain rfl := Verb.word_injective hword
    rw [Option.some.inj (hnames.symm.trans hnames')]

theorem words_of_request {verb : Verb} {names : List Text} (hflush : Flush text) :
    request? text = some (verb, names) ↔
      words text = verb.word :: names.map clauseOf ∧ ∀ name ∈ names, name ≠ [] := by
  rw [request?_eq_some_iff]
  constructor
  · rintro ⟨rest, rfl, hnames⟩
    obtain ⟨hapart, hwords, hall⟩ := clauses?_eq_some_iff.mp hnames
    exact ⟨by rw [words_word_append verb.isWord_word hapart, hwords], hall⟩
  · rintro ⟨hwords, hall⟩
    obtain ⟨gap, rest, rfl, hgap, -, hapart, hmore⟩ := exists_of_words_eq_cons hwords
    cases gap with
    | nil => exact ⟨rest, rfl, clauses?_eq_some_iff.mpr ⟨hapart, hmore, hall⟩⟩
    | cons c gap =>
      have hspace := hgap c List.mem_cons_self
      rw [hflush c rfl] at hspace
      exact absurd hspace (by simp)

/-! ## Comments -/

theorem words_of_marker (hmarker : literal? marker (skipWhiteSpace text) = some word)
    (hspace : space? word = some rest) : words text = marker :: words rest ∧ Flush rest := by
  obtain ⟨gap, hgap, hwhite, rfl, hflush⟩ := space?_eq_some_iff.mp hspace
  obtain ⟨front, rfl, hfront, -⟩ := exists_of_skipWhiteSpace (literal?_eq_some_iff.mp hmarker)
  have hapart := apart_gap_append hgap hwhite rest
  refine ⟨?_, hflush⟩
  rw [words_gap_append hfront, words_word_append isWord_marker hapart, words_gap_append hwhite]

theorem exists_marker_of_words {more : List Text} (h : words text = marker :: word :: more) :
    ∃ behind rest, literal? marker (skipWhiteSpace text) = some behind ∧ space? behind = some rest ∧
      Flush rest ∧ words rest = word :: more := by
  obtain ⟨front, behind, rfl, hfront, hmarker, hbehind, htail⟩ := exists_of_words_eq_cons h
  obtain ⟨gap, rest, rfl, hgap, hword, hrest, hmore⟩ := exists_of_words_eq_cons htail
  have hflush : Flush (word ++ rest) := hword.flush_append rest
  refine ⟨gap ++ (word ++ rest), word ++ rest, ?_, ?_, hflush, ?_⟩
  · rw [skipWhiteSpace_gap_append hfront (hmarker.flush_append _)]
    exact literal?_eq_some_iff.mpr rfl
  · refine space?_eq_some_iff.mpr ⟨gap, ?_, hgap, rfl, hflush⟩
    -- The marker is a word of its own, so something keeps it from the next one.
    rintro rfl
    obtain ⟨c, tail, hcons⟩ := List.exists_cons_of_ne_nil hword.1
    have hc : c ∈ ([] ++ (word ++ rest)).head? := by simp [hcons]
    have hspace := hbehind c hc
    rw [hflush c hc] at hspace
    exact absurd hspace (by simp)
  · rw [words_word_append hword hrest, hmore]

/-- What is behind the `#` of a comment, split at white space, is the marker, a verb and a clause for each
of the names. The verb that silences a file takes no clauses. -/
def Request (comment : Text) (verb : Verb) (names : List Text) : Prop :=
  ∃ rest, comment = '#' :: rest ∧
    (rest.splitOnP isWhiteSpace).filter (!·.isEmpty) =
      "ymlint".toList :: verb.name.toList :: names.map ("rule:".toList ++ ·) ∧
    (∀ name ∈ names, name ≠ []) ∧ (verb = .disableFile → names = [])

theorem exists_request_of_parse? {comment : Text} {d : Directive} (h : parse? comment = some d) :
    ∃ names, Request comment d.verb names ∧ NamesRules d.rules names := by
  unfold parse? at h
  split at h
  · rename_i rest
    simp only [Option.bind_eq_bind, Option.bind_eq_some_iff] at h
    obtain ⟨behind, hmarker, tail, hspace, ⟨verb, names⟩, hrequest, h⟩ := h
    split at h
    · exact absurd h (by simp)
    · rename_i hfile
      obtain rfl := Option.some.inj h
      obtain ⟨hwords, hflush⟩ := words_of_marker hmarker hspace
      obtain ⟨hclauses, hall⟩ := (words_of_request hflush).mp hrequest
      refine ⟨names, ⟨rest, rfl, ?_, hall, ?_⟩, namesRules_foldl names⟩
      · rw [← words_eq_filter_splitOnP, hwords, hclauses]
        rfl
      · intro hverb
        by_contra hne
        exact hfile ⟨hverb, hne⟩
  · exact absurd h (by simp)

theorem parse?_of_request {comment : Text} {verb : Verb} {names : List Text}
    (h : Request comment verb names) :
    parse? comment =
      some ⟨verb, names.foldl (fun acc n => insertName (String.ofList n) acc) []⟩ := by
  obtain ⟨rest, rfl, hwords, hall, hfile⟩ := h
  rw [← words_eq_filter_splitOnP] at hwords
  obtain ⟨behind, tail, hmarker, hspace, hflush, hclauses⟩ := exists_marker_of_words hwords
  have hrequest := (words_of_request hflush).mpr ⟨hclauses, hall⟩
  have hsilent : ¬ (verb = .disableFile ∧ names ≠ []) := by
    rintro ⟨hverb, hne⟩
    exact hne (hfile hverb)
  simp [parse?, hmarker, hspace, hrequest, hsilent]

/-- **A comment is a directive exactly if its words are**, and the words say which. -/
theorem parse?_iff_words (comment : Text) :
    ((parse? comment).isSome = true ↔ ∃ verb names, Request comment verb names) ∧
      ∀ d, parse? comment = some d ↔
        ∃ names, Request comment d.verb names ∧ NamesRules d.rules names := by
  refine ⟨?_, ?_⟩
  · rw [Option.isSome_iff_exists]
    constructor
    · rintro ⟨d, hd⟩
      obtain ⟨names, hrequest, -⟩ := exists_request_of_parse? hd
      exact ⟨d.verb, names, hrequest⟩
    · rintro ⟨verb, names, hrequest⟩
      exact ⟨_, parse?_of_request hrequest⟩
  · rintro ⟨verb, rules⟩
    refine ⟨exists_request_of_parse?, ?_⟩
    rintro ⟨names, hrequest, hrules⟩
    rw [parse?_of_request hrequest, (namesRules_foldl names).unique hrules]

end Directive

end YamlStyle
