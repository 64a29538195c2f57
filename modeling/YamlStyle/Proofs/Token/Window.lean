import YamlStyle.Token.Window

/-!
# Windows and their tokens

The windows of a list have its tokens at their centres, one each and in order. Rewriting every token
of the list rewrites every window, and a rewriting that keeps the kinds of tokens keeps what a window
considers significant.
-/

set_option autoImplicit false

namespace YamlStyle

namespace Window

theorem map_current_allFrom (tokens before : List Token) :
    (allFrom before tokens).map (·.current) = tokens := by
  induction tokens generalizing before with
  | nil => rfl
  | cons t rest ih => rw [allFrom, List.map_cons, ih]

theorem map_current_all (tokens : List Token) : (all tokens).map (·.current) = tokens :=
  map_current_allFrom tokens []

theorem current_mem {tokens : List Token} {w : Window} (h : w ∈ all tokens) :
    w.current ∈ tokens := by
  have hmem := List.mem_map_of_mem (f := fun w => w.current) h
  rwa [map_current_all] at hmem

theorem eq_of_mem_allFrom {tokens before : List Token} {w : Window} (h : w ∈ allFrom before tokens) :
    before.reverse ++ tokens = w.before.reverse ++ w.current :: w.after := by
  induction tokens generalizing before with
  | nil => exact absurd h List.not_mem_nil
  | cons t rest ih =>
    rcases List.mem_cons.mp h with rfl | h
    · rfl
    · have hrest := ih h
      rwa [List.reverse_cons, List.append_assoc] at hrest

/-- The parts of a window are the list it looks at. -/
theorem eq_of_mem_all {tokens : List Token} {w : Window} (h : w ∈ all tokens) :
    tokens = w.before.reverse ++ w.current :: w.after :=
  eq_of_mem_allFrom h

/-- A window with every token rewritten. -/
def mapTokens (f : Token → Token) (w : Window) : Window :=
  ⟨w.before.map f, f w.current, w.after.map f⟩

variable (f : Token → Token)

theorem allFrom_map (before tokens : List Token) :
    allFrom (before.map f) (tokens.map f) = (allFrom before tokens).map (mapTokens f) := by
  induction tokens generalizing before with
  | nil => rfl
  | cons t rest ih =>
    rw [List.map_cons, allFrom, allFrom, List.map_cons, ← List.map_cons, ih]
    rfl

theorem all_map (tokens : List Token) : all (tokens.map f) = (all tokens).map (mapTokens f) :=
  allFrom_map f [] tokens

theorem previousSignificant?_mapTokens (hf : ∀ t, (f t).kind = t.kind) (w : Window) :
    (w.mapTokens f).previousSignificant? = w.previousSignificant?.map f := by
  have hsignificant : isSignificant ∘ f = isSignificant := by
    funext t
    simp [isSignificant, hf t]
  show (w.before.map f).find? isSignificant = _
  rw [List.find?_map, hsignificant]
  rfl

end Window

end YamlStyle
