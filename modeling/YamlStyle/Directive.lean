import YamlStyle.Table
import YamlStyle.Text.WhiteSpace

/-!
# Directives

A comment can speak to the linter:

    # ymlint disable rule:empty-lines

After the `#` come the marker, a verb, and any number of clauses that each name a rule, with white
space between them. A comment that departs from this in any way is an ordinary comment. The verb
that silences a whole file takes no clauses.

The grammar is read from left to right. Every verb is tried in turn, and one that leaves something
unreadable behind is no match: `disable` is a beginning of `disable-line`, but what remains of the
latter is no list of clauses.
-/

set_option autoImplicit false

namespace YamlStyle

/-- The word every directive starts with. -/
def marker : Text := "ymlint".toList

/-- What a directive asks for. -/
inductive Verb where
  | disable
  | enable
  | disableLine
  | disableFile
  deriving DecidableEq, Repr

/-- The verbs and their spelling. -/
def Verb.spellings : List (Text × Verb) :=
  [("disable-file".toList, .disableFile), ("disable-line".toList, .disableLine),
    ("disable".toList, .disable), ("enable".toList, .enable)]

/-- A request to the linter. No rules means all rules. -/
structure Directive where
  verb : Verb
  /-- The rules named, in order and without repetition. -/
  rules : List String
  deriving DecidableEq, Repr

namespace Directive

/-- What follows `word` at the head of a text. -/
def literal? (word text : Text) : Option Text :=
  if word.isPrefixOf text then some (text.drop word.length) else none

/-- What follows the white space at the head of a text; there has to be some. -/
def space? : Text → Option Text
  | [] => none
  | c :: rest => if isWhiteSpace c then some (skipWhiteSpace rest) else none

/-- One clause: white space, `rule:` and a name. -/
def clause? (text : Text) : Option (Text × Text) := do
  let rest ← space? text
  let rest ← literal? "rule:".toList rest
  match takeWord rest with
  | ([], _) => none
  | (name, rest) => some (name, rest)

theorem length_space?_lt {text rest : Text} (h : space? text = some rest) :
    rest.length < text.length := by
  cases text with
  | nil => simp [space?] at h
  | cons c cs =>
    simp only [space?] at h
    split at h
    · obtain rfl := Option.some.inj h
      have := (List.dropWhile_suffix (l := cs) isWhiteSpace).length_le
      simp only [skipWhiteSpace, List.length_cons]
      omega
    · simp at h

theorem length_clause?_lt {text name rest : Text} (h : clause? text = some (name, rest)) :
    rest.length < text.length := by
  simp only [clause?, Option.bind_eq_bind, Option.bind_eq_some_iff] at h
  obtain ⟨afterSpace, hspace, afterWord, hword, h⟩ := h
  have hlt := length_space?_lt hspace
  have hle : afterWord.length ≤ afterSpace.length := by
    simp only [literal?] at hword
    split at hword
    · obtain rfl := Option.some.inj hword
      simp
    · simp at hword
  have hsuffix := (List.dropWhile_suffix (l := afterWord) (!isWhiteSpace ·)).length_le
  split at h
  · simp at h
  · rename_i heq
    obtain ⟨-, rfl⟩ := Prod.mk.inj (Option.some.inj h)
    simp only [takeWord, Prod.mk.injEq] at heq
    obtain ⟨-, rfl⟩ := heq
    omega

/-- Clauses up to the end of the text, which may have white space before it. -/
def clauses? (text : Text) : Option (List Text) :=
  match _h : clause? text with
  | some (name, rest) => (clauses? rest).map (name :: ·)
  | none => if (skipWhiteSpace text).isEmpty then some [] else none
termination_by text.length
decreasing_by exact length_clause?_lt _h

/-- A verb and its clauses. -/
def request? (text : Text) : Option (Verb × List Text) :=
  Verb.spellings.findSome? fun (word, verb) => do
    let rest ← literal? word text
    let names ← clauses? rest
    pure (verb, names)

/-- The directive a comment spells. -/
def parse? : Text → Option Directive
  | '#' :: rest => do
    let rest ← literal? marker (skipWhiteSpace rest)
    let rest ← space? rest
    let (verb, names) ← request? rest
    if verb = .disableFile ∧ names ≠ [] then none
    else some ⟨verb, names.foldl (fun acc n => insertName (String.ofList n) acc) []⟩
  | _ => none

end Directive

end YamlStyle
