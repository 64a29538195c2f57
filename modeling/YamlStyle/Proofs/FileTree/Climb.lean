import YamlStyle.FileTree.Written

/-!
# Climbing along a written path

The directories above a directory are told from its written path, one name less at a time
(`Climbs`). `ancestors` has fuel for that, and never runs out of it, since every step makes the path
shorter (`climbs_ancestors`).

A file is named by the path of its directory and its own name, with a slash in between unless there is
one. What stands in front of the name, the **front** of the directory, gets shorter with every step, too,
and so the name of a file tells which of the directories of a climb it was found in
(`Climbs.not_isIn`). This is not quite the same as paths getting shorter: `a/` and `a` have one front.
-/

set_option autoImplicit false

namespace YamlStyle

namespace Written

/-! ## One step -/

theorem length_trimEnd_le (text : Text) : (trimEnd text).length ≤ text.length := by
  fun_induction trimEnd text with
  | case1 => exact Nat.le_refl _
  | case2 rest _ ih => exact Nat.le_succ_of_le ih
  | case3 rest ih => exact Nat.le_succ_of_le ih
  | case4 text => exact Nat.le_refl _

theorem trimEnd_cases (text : Text) : trimEnd text = ['/'] ∨ (trimEnd text).head? ≠ some '/' := by
  fun_induction trimEnd text with
  | case1 => exact Or.inl rfl
  | case2 rest _ ih => exact ih
  | case3 rest ih => exact ih
  | case4 text hroot hslash =>
    right
    intro h
    obtain ⟨rest, rfl⟩ := List.head?_eq_some_iff.mp h
    exact hslash rest rfl

/-- What stands in front of the names in a directory. -/
def front (dir : Text) : Text :=
  match dir.getLast? with
  | none => []
  | some '/' => dir
  | some _ => dir ++ ['/']

theorem front_cases (dir : Text) : front dir = [] ∨ ∃ text, front dir = text ++ ['/'] := by
  unfold front
  split
  · exact Or.inl rfl
  · rename_i hlast
    right
    obtain ⟨text, htext⟩ := List.getLast?_eq_some_iff.mp hlast
    exact ⟨text, htext⟩
  · exact Or.inr ⟨dir, rfl⟩

theorem length_le_front (dir : Text) : dir.length ≤ (front dir).length := by
  unfold front
  split
  · rename_i hlast
    simp [List.getLast?_eq_none_iff.mp hlast]
  · exact Nat.le_refl _
  · simp

theorem length_front_le (dir : Text) : (front dir).length ≤ dir.length + 1 := by
  unfold front
  split <;> simp

/-- Between a name and the directory that it is in, there is a slash less. -/
theorem length_front_trimEnd_le {text : Text} (h : text = [] ∨ text.head? = some '/') :
    (front (trimEnd text).reverse).length ≤ text.length := by
  rcases trimEnd_cases text with hroot | hslash
  · have hpos := length_trimEnd_le text
    rw [hroot] at hpos ⊢
    exact hpos
  · rcases h with rfl | h
    · exact Nat.le_refl _
    · obtain ⟨rest, rfl⟩ := List.head?_eq_some_iff.mp h
      have htrim : trimEnd ('/' :: rest) = trimEnd rest := by
        cases rest with
        | nil => exact absurd rfl hslash
        | cons c rest => rfl
      have hfront := length_front_le (trimEnd rest).reverse
      have hlength := length_trimEnd_le rest
      rw [List.length_reverse] at hfront
      rw [htrim, List.length_cons]
      omega

theorem length_front_parent_lt {path above : Text} (h : parent? path = some above) :
    (front above).length < path.length := by
  unfold parent? at h
  dsimp only at h
  split at h
  · exact absurd h (by simp)
  · rename_i hroot
    obtain ⟨hne, hroot⟩ := not_or.mp hroot
    obtain rfl := Option.some.inj h
    have hslash : (trimEnd path.reverse).head? ≠ some '/' :=
      (trimEnd_cases path.reverse).resolve_left hroot
    have hlength := length_trimEnd_le path.reverse
    rw [List.length_reverse] at hlength
    unfold parent
    generalize trimEnd path.reverse = trimmed at hne hslash hlength ⊢
    -- The last name has a character, so something is dropped before anything is trimmed.
    obtain ⟨c, rest, rfl⟩ := List.exists_cons_of_ne_nil hne
    have hc : (c != '/') = true := by simpa using hslash
    have hdrop : (List.dropWhile (· != '/') (c :: rest)) = rest.dropWhile (· != '/') :=
      List.dropWhile_cons_of_pos hc
    have hhead : rest.dropWhile (· != '/') = [] ∨ (rest.dropWhile (· != '/')).head? = some '/' := by
      cases hrest : rest.dropWhile (· != '/') with
      | nil => exact Or.inl rfl
      | cons d behind =>
        have hnot := List.head?_dropWhile_not (· != '/') rest
        rw [hrest] at hnot
        simpa using hnot
    have hbelow := length_front_trimEnd_le hhead
    have hsuffix := (List.dropWhile_suffix (· != '/') (l := rest)).length_le
    rw [hdrop]
    rw [List.length_cons] at hlength
    omega

/-! ## All the way up -/

/-- The directories from a path to the top, each one above the one before. -/
inductive Climbs : Text → List Text → Prop
  | top {path : Text} : parent? path = none → Climbs path [path]
  | up {path above : Text} {rest : List Text} : parent? path = some above → Climbs above rest →
      Climbs path (path :: rest)

theorem climbs_go {steps : Nat} {path : Text} (h : path.length ≤ steps) :
    Climbs path (ancestors.go steps path) := by
  induction steps generalizing path with
  | zero =>
    obtain rfl := List.eq_nil_of_length_eq_zero (Nat.le_zero.mp h)
    exact .top rfl
  | succ steps ih =>
    unfold ancestors.go
    cases hparent : parent? path with
    | none => exact .top hparent
    | some above =>
      have hlt := length_front_parent_lt hparent
      have hle := length_le_front above
      exact .up hparent (ih (by omega))

/-- There is fuel enough for all directories. -/
theorem climbs_ancestors (path : Text) : Climbs path (ancestors path) :=
  climbs_go (Nat.le_refl _)

namespace Climbs

variable {path : Text} {walk other : List Text}

theorem unique (h : Climbs path walk) (hother : Climbs path other) : walk = other := by
  induction h generalizing other with
  | top htop =>
    cases hother with
    | top => rfl
    | up hup => exact absurd (htop.symm.trans hup) (by simp)
  | up hup _ ih =>
    cases hother with
    | top htop => exact absurd (htop.symm.trans hup) (by simp)
    | up hup' hrest =>
      obtain rfl := Option.some.inj (hup.symm.trans hup')
      rw [ih hrest]

theorem exists_cons (h : Climbs path walk) : ∃ rest, walk = path :: rest := by
  cases h with
  | top => exact ⟨[], rfl⟩
  | up => exact ⟨_, rfl⟩

theorem length_front_le (h : Climbs path walk) : ∀ dir ∈ walk, (front dir).length ≤ (front path).length := by
  induction h with
  | top htop =>
    intro dir hdir
    obtain rfl := List.mem_singleton.mp hdir
    exact Nat.le_refl _
  | @up path _ _ hup _ ih =>
    intro dir hdir
    rcases List.mem_cons.mp hdir with rfl | hdir
    · exact Nat.le_refl _
    · have habove := ih dir hdir
      have hlt := length_front_parent_lt hup
      have hle := length_le_front path
      omega

/-- Fronts get shorter on the way up. -/
theorem pairwise_front (h : Climbs path walk) :
    walk.Pairwise fun dir above => (front above).length < (front dir).length := by
  induction h with
  | top => exact List.pairwise_singleton _ _
  | @up path _ _ hup hrest ih =>
    refine List.pairwise_cons.mpr ⟨?_, ih⟩
    intro dir hdir
    have habove := hrest.length_front_le dir hdir
    have hlt := length_front_parent_lt hup
    have hle := length_le_front path
    omega

end Climbs

/-! ## Files of a directory -/

/-- A path names a file of a directory. -/
def IsIn (file dir : Text) : Prop := ∃ name, '/' ∉ name ∧ file = join dir name

theorem join_eq {name : Text} (h : '/' ∉ name) (dir : Text) : join dir name = front dir ++ name := by
  have hhead : name.head? ≠ some '/' := fun hhead => h (List.mem_of_head? hhead)
  unfold join front
  split
  · rename_i hlast
    rw [hlast]
    rfl
  · rename_i hslash _
    exact absurd hslash hhead
  · rename_i hlast _
    rw [hlast]
    rfl
  · rename_i hlast _
    rw [hlast]
    simp

/-- The name is what stands behind the last slash. -/
theorem takeWhile_reverse {name : Text} (h : '/' ∉ name) (dir : Text) :
    (front dir ++ name).reverse.takeWhile (· != '/') = name.reverse := by
  have hall : ∀ c ∈ name.reverse, (c != '/') = true := by
    intro c hc
    have hne : c ≠ '/' := by
      rintro rfl
      exact h (List.mem_reverse.mp hc)
    simpa using hne
  rw [List.reverse_append, List.takeWhile_append_of_pos hall]
  rcases front_cases dir with hfront | ⟨text, hfront⟩
  · simp [hfront]
  · simp [hfront]

theorem front_eq_of_isIn {file dir other : Text} (h : IsIn file dir) (hother : IsIn file other) :
    front dir = front other := by
  obtain ⟨name, hname, rfl⟩ := h
  obtain ⟨name', hname', heq⟩ := hother
  rw [join_eq hname, join_eq hname'] at heq
  have hnames : name.reverse = name'.reverse := by
    rw [← takeWhile_reverse hname dir, ← takeWhile_reverse hname' other, heq]
  obtain rfl := List.reverse_inj.mp hnames
  exact List.append_cancel_right heq

/-- A file is in one directory of a climb. -/
theorem Climbs.not_isIn {path : Text} {nearer farther : List Text} {file dir above : Text}
    (h : Climbs path (nearer ++ farther)) (hdir : dir ∈ nearer) (hfile : IsIn file dir)
    (habove : above ∈ farther) : ¬IsIn file above := by
  intro hother
  have hlt := (List.pairwise_append.mp h.pairwise_front).2.2 dir hdir above habove
  rw [front_eq_of_isIn hfile hother] at hlt
  exact absurd hlt (Nat.lt_irrefl _)

end Written

end YamlStyle
