import YamlStyle.Lint
import YamlStyle.Proofs.Token.Window

/-!
# What a rule answers

A rule is asked about one line after the other, or about one token after the other, and it is asked no
more once it has failed. The list of what it **would** answer to everything there is does not depend
on where it is stopped, and so it is the place to say what is made of a rule: the violations of the
answers before the first failure, each under the name and the level of the rule, and then that failure
(`runRule_eq`).

What a rule is shown, and in which order, is said from the lines and the tokens alone (`lineViews`,
`tokenViews`). That the linter goes through these views and no others is a theorem about either of its
enumerations (`withHistory_eq`, `Window.all_eq`).

A rule also says beforehand what it inspects. A **truthful** rule does inspect that, and then only the
rules that say they inspect tokens can tell whether there are any.
-/

set_option autoImplicit false

namespace YamlStyle

/-- What a check answers, with the place it was asked about. -/
abbrev Answer := Position × Except Fault (List Violation)

/-- The violations of the answers before the first failure. -/
def violations (answers : List Answer) : List Violation :=
  (answers.takeWhile (·.2.isOk)).flatMap fun answer => answer.2.toOption.getD []

/-- The first failure, and its place. -/
def failure? (answers : List Answer) : Option (Position × Fault) :=
  answers.findSome? fun
    | (place, .error fault) => some (place, fault)
    | (_, .ok _) => none

/-! ## What a rule is shown -/

/-- Every line with the lines above it, the nearest first. -/
def lineViews (ls : List Line) : List (List Line × Line) :=
  ls.mapIdx fun i l => ((ls.take i).reverse, l)

/-- Every token with the tokens on either side of it, those before it with the nearest first. -/
def tokenViews (tokens : List Token) : List Window :=
  tokens.mapIdx fun i t => ⟨(tokens.take i).reverse, t, tokens.drop (i + 1)⟩

/-- The views of lines have the lines in them, one each and in order. -/
theorem map_snd_lineViews (ls : List Line) : (lineViews ls).map (·.2) = ls := by
  apply List.ext_getElem?
  intro i
  rw [lineViews, List.getElem?_map, List.getElem?_mapIdx]
  cases ls[i]? <;> rfl

theorem withHistory_eq_mapIdx (above ls : List Line) :
    withHistory above ls = ls.mapIdx fun i l => ((ls.take i).reverse ++ above, l) := by
  induction ls generalizing above with
  | nil => rfl
  | cons l ls ih =>
    rw [withHistory, ih, List.mapIdx_cons]
    simp only [List.take_zero, List.reverse_nil, List.nil_append, List.take_succ_cons,
      List.reverse_cons, List.append_assoc, List.singleton_append]

theorem withHistory_eq (ls : List Line) : withHistory [] ls = lineViews ls := by
  simp only [withHistory_eq_mapIdx, List.append_nil, lineViews]

theorem Window.allFrom_eq_mapIdx (before tokens : List Token) :
    Window.allFrom before tokens =
      tokens.mapIdx fun i t => ⟨(tokens.take i).reverse ++ before, t, tokens.drop (i + 1)⟩ := by
  induction tokens generalizing before with
  | nil => rfl
  | cons t tokens ih =>
    rw [Window.allFrom, ih, List.mapIdx_cons]
    simp only [List.take_zero, List.reverse_nil, List.nil_append, List.take_succ_cons,
      List.reverse_cons, List.append_assoc, List.singleton_append, List.drop_succ_cons,
      List.drop_zero]

theorem Window.all_eq (tokens : List Token) : Window.all tokens = tokenViews tokens := by
  simp only [Window.all, Window.allFrom_eq_mapIdx, List.append_nil, tokenViews]

theorem mem_of_mem_lineViews {ls : List Line} {view : List Line × Line} (h : view ∈ lineViews ls) :
    view.2 ∈ ls := by
  have hmem := List.mem_map_of_mem (f := fun view : List Line × Line => view.2) h
  rwa [map_snd_lineViews] at hmem

theorem current_mem_of_mem_tokenViews {tokens : List Token} {w : Window} (h : w ∈ tokenViews tokens) :
    w.current ∈ tokens := by
  rw [← Window.all_eq] at h
  exact Window.current_mem h

/-! ## What it answers -/

/-- What a rule would answer to every line or to every token of a document. To be built is its first
question, and a rule that fails there is asked nothing else. -/
def answers (text : Text) (stream : Option TokenStream) (rule : Rule) (options : RuleOptions) :
    List Answer :=
  match rule.build options with
  | .error fault => [(⟨1, 1⟩, .error fault)]
  | .ok (.line check) =>
    (lineViews (lines text)).map fun view => (⟨view.2.number, 1⟩, check view.1 view.2)
  | .ok (.token check) =>
    match stream with
    | some stream => (tokenViews stream.tokens).map fun w => (w.current.start, check w)
    | none => []

/-- The problem that a failure of a rule is. -/
def faultProblem (rule : String) (failure : Position × Fault) : Problem :=
  failure.2.toProblem rule failure.1

theorem sweep_eq {α : Type} (rule : String) (level : Level) (place : α → Position)
    (check : α → Except Fault (List Violation)) (items : List α) :
    sweep rule level place check items =
      (violations (items.map fun a => (place a, check a))).map (Problem.ofViolation rule level) ++
        ((failure? (items.map fun a => (place a, check a))).map (faultProblem rule)).toList := by
  induction items with
  | nil => rfl
  | cons a items ih =>
    rw [sweep]
    cases hcheck : check a with
    | error fault => simp [violations, failure?, hcheck, Except.isOk, Except.toBool, faultProblem]
    | ok found =>
      simp only [ih]
      simp [violations, failure?, hcheck, Except.isOk, Except.toBool, Except.toOption]

/-- **What is made of a rule** is what it finds before it fails, and its failure. -/
theorem runRule_eq (text : Text) (stream : Option TokenStream) (rule : Rule) (options : RuleOptions) :
    runRule text stream rule options =
      (violations (answers text stream rule options)).map
          (Problem.ofViolation rule.id options.level) ++
        ((failure? (answers text stream rule options)).map (faultProblem rule.id)).toList := by
  unfold runRule answers
  cases rule.build options with
  | error fault => rfl
  | ok checker =>
    cases checker with
    | line check =>
      dsimp only
      rw [withHistory_eq]
      exact sweep_eq ..
    | token check =>
      cases stream with
      | none => rfl
      | some stream =>
        dsimp only
        rw [Window.all_eq]
        exact sweep_eq ..

/-- A rule that says something of each line by itself finds what it says of the lines. -/
theorem runRule_of_line {rule : Rule} {options : RuleOptions} {check : Line → Option Violation}
    (hbuild : rule.build options = .ok (.line fun _ line => .ok (check line).toList)) (text : Text)
    (stream : Option TokenStream) :
    runRule text stream rule options =
      ((lines text).filterMap check).map (Problem.ofViolation rule.id options.level) := by
  rw [runRule, hbuild]
  show sweep rule.id options.level _ _ (withHistory [] (lines text)) = _
  generalize lines text = ls
  -- The rule does not look at the lines above, so it does not matter which they are.
  generalize ([] : List Line) = above
  induction ls generalizing above with
  | nil => rfl
  | cons l ls ih =>
    rw [withHistory, sweep, List.filterMap_cons]
    simp only [ih]
    cases check l <;> rfl

/-- A rule speaks under its own name, or it has failed. -/
theorem rule_of_mem_runRule {text : Text} {stream : Option TokenStream} {rule : Rule}
    {options : RuleOptions} {p : Problem} (h : p ∈ runRule text stream rule options) :
    p.rule = rule.id ∨ p.rule = Problem.internalRule := by
  rw [runRule_eq] at h
  rcases List.mem_append.mp h with h | h
  · obtain ⟨v, -, rfl⟩ := List.mem_map.mp h
    exact Or.inl rfl
  · obtain ⟨failure, -, rfl⟩ := Option.map_eq_some_iff.mp (Option.mem_toList.mp h)
    exact Or.inr rfl

/-- Whether a rule inspects what it says it does, whatever its options. -/
def Rule.Truthful (rule : Rule) : Prop :=
  ∀ options checker, rule.build options = .ok checker → checker.granularity = rule.granularity

/-- Only a rule that says it inspects tokens can tell whether there are any. -/
theorem Rule.Truthful.runRule_congr {rule : Rule} (h : rule.Truthful)
    {stream stream' : Option TokenStream}
    (hstream : rule.granularity = .token → stream = stream') (text : Text) (options : RuleOptions) :
    runRule text stream rule options = runRule text stream' rule options := by
  have hchecker := h options
  unfold runRule
  cases hbuild : rule.build options with
  | error fault => rfl
  | ok checker =>
    cases checker with
    | line check => rfl
    | token check =>
      obtain rfl : stream = stream' := hstream (hchecker _ hbuild).symm
      rfl

end YamlStyle
