import YamlStyle.Proofs.Line.EndsLine
import YamlStyle.Proofs.Scanner.Shape

/-!
# Quoted scalars

How far a quoted scalar reaches, one character at a time: the equations of the two searches with the
conditions under which each applies, and what follows from them about the end. A quoted scalar ends in
its quote, so a text that ends a line always leaves something behind one.
-/

set_option autoImplicit false

namespace YamlStyle

/-- The character of a quote. -/
def Quote.char : Quote → Char
  | .single => '\''
  | .double => '"'

theorem Quote.isBreak_char (quote : Quote) : isBreak quote.char = false := by
  cases quote <;> decide

namespace Scanner

variable {rest : Text} {n : Nat}

theorem shapeAt_quote (s : State) (quote : Quote) (rest : Text) :
    shapeAt s quote.char rest = .quoted quote := by
  cases quote <;>
    simp [shapeAt, isBlank, isBreak, isMarker_of_ne, Bracket.ofOpening?, Bracket.ofClosing?,
      Quote.ofChar?, Quote.char]

/-! ## One character -/

theorem singleQuotedLength?_closing (h : rest.head? ≠ some '\'') :
    singleQuotedLength? ('\'' :: rest) = some 1 := by
  cases rest with
  | nil => rfl
  | cons d rest =>
    have hd : d ≠ '\'' := fun hq => h (by rw [hq]; rfl)
    rw [singleQuotedLength?.eq_3]
    intro rest' heq
    exact hd (List.cons.inj heq).1

theorem singleQuotedLength?_other {c : Char} (h : c ≠ '\'') (rest : Text) :
    singleQuotedLength? (c :: rest) = (singleQuotedLength? rest).map (· + 1) := by
  rw [singleQuotedLength?.eq_4]
  · intro rest' hq
    exact absurd hq h
  · intro hq
    exact absurd hq h

theorem doubleQuotedLength?_other {c : Char} (hescape : c ≠ '\\') (hquote : c ≠ '"') (rest : Text) :
    doubleQuotedLength? (c :: rest) = (doubleQuotedLength? rest).map (· + 1) := by
  rw [doubleQuotedLength?.eq_5]
  · intro hq
    exact absurd hq hescape
  · intro d rest' hq
    exact absurd hq hescape
  · intro hq
    exact absurd hq hquote

/-- A character that is neither an escape at the end nor one with something behind it is none. -/
theorem ne_escape {c : Char} (hlast : c = '\\' → rest = [] → False)
    (hmore : ∀ d tail, c = '\\' → rest = d :: tail → False) : c ≠ '\\' := by
  intro hc
  cases rest with
  | nil => exact hlast hc rfl
  | cons d tail => exact hmore d tail hc rfl

/-! ## The end -/

/-- A single-quoted scalar ends in a quote. -/
theorem exists_of_singleQuotedLength? (h : singleQuotedLength? rest = some n) :
    ∃ body, rest = body ++ '\'' :: rest.drop n := by
  fun_induction singleQuotedLength? rest generalizing n with
  | case1 => exact absurd h (by simp)
  | case2 rest ih =>
    obtain ⟨m, hm, rfl⟩ := Option.map_eq_some_iff.mp h
    obtain ⟨body, hbody⟩ := ih hm
    exact ⟨'\'' :: '\'' :: body, by simpa using hbody⟩
  | case3 rest hne =>
    obtain rfl := Option.some.inj h
    exact ⟨[], rfl⟩
  | case4 c rest h₁ h₂ ih =>
    obtain ⟨m, hm, rfl⟩ := Option.map_eq_some_iff.mp h
    obtain ⟨body, hbody⟩ := ih hm
    exact ⟨c :: body, by simpa using hbody⟩

/-- A double-quoted scalar ends in a quote. -/
theorem exists_of_doubleQuotedLength? (h : doubleQuotedLength? rest = some n) :
    ∃ body, rest = body ++ '"' :: rest.drop n := by
  fun_induction doubleQuotedLength? rest generalizing n with
  | case1 => exact absurd h (by simp)
  | case2 => exact absurd h (by simp)
  | case3 d rest ih =>
    obtain ⟨m, hm, rfl⟩ := Option.map_eq_some_iff.mp h
    obtain ⟨body, hbody⟩ := ih hm
    exact ⟨'\\' :: d :: body, by simpa using hbody⟩
  | case4 rest =>
    obtain rfl := Option.some.inj h
    exact ⟨[], rfl⟩
  | case5 c rest h₁ h₂ h₃ ih =>
    obtain ⟨m, hm, rfl⟩ := Option.map_eq_some_iff.mp h
    obtain ⟨body, hbody⟩ := ih hm
    exact ⟨c :: body, by simpa using hbody⟩

theorem exists_of_quotedLength? {quote : Quote} (h : quotedLength? quote rest = some n) :
    ∃ body, rest = body ++ quote.char :: rest.drop n := by
  cases quote with
  | single => exact exists_of_singleQuotedLength? h
  | double => exact exists_of_doubleQuotedLength? h

theorem singleQuotedLength?_le (h : singleQuotedLength? rest = some n) : n ≤ rest.length := by
  fun_induction singleQuotedLength? rest generalizing n with
  | case1 => exact absurd h (by simp)
  | case2 rest ih =>
    obtain ⟨m, hm, rfl⟩ := Option.map_eq_some_iff.mp h
    exact Nat.add_le_add_right (ih hm) 2
  | case3 rest hne =>
    obtain rfl := Option.some.inj h
    exact Nat.le_add_left 1 _
  | case4 c rest h₁ h₂ ih =>
    obtain ⟨m, hm, rfl⟩ := Option.map_eq_some_iff.mp h
    exact Nat.add_le_add_right (ih hm) 1

theorem doubleQuotedLength?_le (h : doubleQuotedLength? rest = some n) : n ≤ rest.length := by
  fun_induction doubleQuotedLength? rest generalizing n with
  | case1 => exact absurd h (by simp)
  | case2 => exact absurd h (by simp)
  | case3 d rest ih =>
    obtain ⟨m, hm, rfl⟩ := Option.map_eq_some_iff.mp h
    exact Nat.add_le_add_right (ih hm) 2
  | case4 rest =>
    obtain rfl := Option.some.inj h
    exact Nat.le_add_left 1 _
  | case5 c rest h₁ h₂ h₃ ih =>
    obtain ⟨m, hm, rfl⟩ := Option.map_eq_some_iff.mp h
    exact Nat.add_le_add_right (ih hm) 1

theorem quotedLength?_le {quote : Quote} (h : quotedLength? quote rest = some n) :
    n ≤ rest.length := by
  cases quote with
  | single => exact singleQuotedLength?_le h
  | double => exact doubleQuotedLength?_le h

/-! ## Appending -/

/-- The end of a single-quoted scalar shows in the character behind it, which has to be there. -/
theorem singleQuotedLength?_append (hends : EndsLine rest) (h : singleQuotedLength? rest = some n)
    (back : Text) : singleQuotedLength? (rest ++ back) = some n := by
  fun_induction singleQuotedLength? rest generalizing n with
  | case1 => exact absurd h (by simp)
  | case2 rest ih =>
    obtain ⟨m, hm, rfl⟩ := Option.map_eq_some_iff.mp h
    have hne : rest ≠ [] := by
      rintro rfl
      exact absurd hm (by simp [singleQuotedLength?])
    have hends' := (hends.of_cons (by simp)).of_cons hne
    rw [List.cons_append, List.cons_append, singleQuotedLength?, ih hends' hm]
    rfl
  | case3 rest hne =>
    obtain rfl := Option.some.inj h
    -- The quote is the closing one unless another follows, and a text that ends a line tells.
    refine singleQuotedLength?_closing ?_
    cases rest with
    | nil => exact absurd hends.isBreak_of_singleton (by decide)
    | cons d rest =>
      intro hq
      obtain rfl := Option.some.inj hq
      exact hne rest rfl
  | case4 c rest h₁ h₂ ih =>
    obtain ⟨m, hm, rfl⟩ := Option.map_eq_some_iff.mp h
    have hne : rest ≠ [] := by
      rintro rfl
      exact absurd hm (by simp [singleQuotedLength?])
    have hc : c ≠ '\'' := fun hq => h₂ hq
    rw [List.cons_append, singleQuotedLength?_other hc, ih (hends.of_cons hne) hm]
    rfl

theorem doubleQuotedLength?_append (h : doubleQuotedLength? rest = some n) (back : Text) :
    doubleQuotedLength? (rest ++ back) = some n := by
  fun_induction doubleQuotedLength? rest generalizing n with
  | case1 => exact absurd h (by simp)
  | case2 => exact absurd h (by simp)
  | case3 d rest ih =>
    obtain ⟨m, hm, rfl⟩ := Option.map_eq_some_iff.mp h
    rw [List.cons_append, List.cons_append, doubleQuotedLength?, ih hm]
    rfl
  | case4 rest => rwa [List.cons_append, doubleQuotedLength?]
  | case5 c rest h₁ h₂ h₃ ih =>
    obtain ⟨m, hm, rfl⟩ := Option.map_eq_some_iff.mp h
    have hescape := ne_escape h₁ h₂
    rw [List.cons_append, doubleQuotedLength?_other hescape (fun hq => h₃ hq), ih hm]
    rfl

theorem quotedLength?_append {quote : Quote} (hends : EndsLine rest)
    (h : quotedLength? quote rest = some n) (back : Text) :
    quotedLength? quote (rest ++ back) = some n := by
  cases quote with
  | single => exact singleQuotedLength?_append hends h back
  | double => exact doubleQuotedLength?_append h back

end Scanner

end YamlStyle
