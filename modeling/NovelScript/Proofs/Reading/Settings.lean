import Mathlib.Data.List.Basic
import NovelScript.Program.Config

/-!
Lines that change no setting. What is wrong with a line shows in the line alone, and a line with a
problem leaves all settings as they are. Main statement: problems are reported in the order of their
lines, one for each line that has one, and without these lines a text gives the same settings and no
problem.
-/

namespace NovelScript.Config

variable {c after : Config} {line : List Char} {p : Problem}

/-! ### One line -/

/-- What a line makes of the settings, or why it changes nothing. -/
def readLine (line : List Char) (c : Config) : Except Problem Config :=
  match readLine? line with
  | none => .ok c
  | some setting => setting.bind fun (key, value) => c.apply key value

/-- What is wrong with a line. -/
def problem? (line : List Char) : Option Problem :=
  match readLine line {} with
  | .ok _ => none
  | .error problem => some problem

theorem map_eq_error {α β : Type} (f : α → β) (result : Except Problem α) :
    result.map f = .error p ↔ result = .error p := by
  cases result <;> simp [Except.map]

/-- Whether a setting can be changed does not depend on what the settings are. -/
theorem apply_eq_error (key value : String) (c d : Config) :
    c.apply key value = .error p ↔ d.apply key value = .error p := by
  unfold apply
  split <;> simp only [map_eq_error]

theorem readLine_eq_error : readLine line c = .error p ↔ problem? line = some p := by
  have hsame : readLine line c = .error p ↔ readLine line {} = .error p := by
    unfold readLine
    rcases readLine? line with _ | (problem | ⟨key, value⟩)
    · simp
    · rfl
    · exact apply_eq_error key value c {}
  rw [hsame, problem?]
  cases readLine line {} <;> simp

theorem exists_readLine (h : problem? line = none) (c : Config) :
    ∃ after, readLine line c = .ok after := by
  cases hline : readLine line c with
  | ok after => exact ⟨after, rfl⟩
  | error p => rw [readLine_eq_error.mp hline] at h; cases h

/-! ### Many lines -/

theorem readLines_cons (n : Nat) (c : Config) (line : List Char) (ls : List (List Char)) :
    readLines n c (line :: ls) =
      match readLine line c with
      | .ok after => readLines (n + 1) after ls
      | .error p => ((readLines (n + 1) c ls).1, ⟨n, p⟩ :: (readLines (n + 1) c ls).2) := by
  rw [readLines, readLine]
  rcases readLine? line with _ | (problem | ⟨key, value⟩) <;> rfl

/-- A line with no problem sets what it sets. -/
theorem readLines_cons_of_ok (h : readLine line c = .ok after) (n : Nat) (ls : List (List Char)) :
    readLines n c (line :: ls) = readLines (n + 1) after ls := by
  rw [readLines_cons, h]

/-- A line with a problem is reported, and changes nothing. -/
theorem readLines_cons_of_problem (h : problem? line = some p) (n : Nat) (c : Config)
    (ls : List (List Char)) :
    readLines n c (line :: ls) =
      ((readLines (n + 1) c ls).1, ⟨n, p⟩ :: (readLines (n + 1) c ls).2) := by
  rw [readLines_cons, readLine_eq_error.mpr h]

/-- The problems of lines are those that each line has alone. -/
theorem problems_readLines (ls : List (List Char)) (n : Nat) (c : Config) :
    (readLines n c ls).2 =
      (ls.zipIdx n).filterMap fun (line, k) => (problem? line).map (⟨k, ·⟩) := by
  induction ls generalizing n c with
  | nil => rfl
  | cons line ls ih =>
    rw [List.zipIdx_cons, List.filterMap_cons]
    cases hline : problem? line with
    | none =>
      obtain ⟨after, hafter⟩ := exists_readLine hline c
      simp only [readLines_cons_of_ok hafter, hline, Option.map_none]
      exact ih (n + 1) after
    | some p =>
      simp only [readLines_cons_of_problem hline, hline, Option.map_some]
      exact congrArg (⟨n, p⟩ :: ·) (ih (n + 1) c)

theorem mem_problems_readLines {ls : List (List Char)} {n k : Nat} :
    ⟨k, p⟩ ∈ (readLines n c ls).2 ↔ ∃ line, (line, k) ∈ ls.zipIdx n ∧ problem? line = some p := by
  rw [problems_readLines, List.mem_filterMap]
  constructor
  · rintro ⟨⟨line, j⟩, hline, hproblem⟩
    obtain ⟨q, hq, hkp⟩ := Option.map_eq_some_iff.mp hproblem
    cases hkp
    exact ⟨line, hline, hq⟩
  · rintro ⟨line, hline, hproblem⟩
    exact ⟨(line, k), hline, by simp [hproblem]⟩

/-- Problems are in the order of their lines, and no two are on one line. -/
theorem pairwise_problems (ls : List (List Char)) (n : Nat) (c : Config) :
    (readLines n c ls).2.Pairwise fun p q => p.line < q.line := by
  have hnumbers : (ls.zipIdx n).Pairwise fun x y => x.2 < y.2 := by
    refine List.pairwise_map.mp ?_
    rw [List.zipIdx_map_snd]
    exact List.pairwise_lt_range'
  rw [problems_readLines]
  refine List.Pairwise.filterMap _ (fun x y hlt p hp q hq => ?_) hnumbers
  obtain ⟨_, -, rfl⟩ := Option.map_eq_some_iff.mp hp
  obtain ⟨_, -, rfl⟩ := Option.map_eq_some_iff.mp hq
  exact hlt

/-- Without the lines that have a problem the settings are the same, and there is no problem. -/
theorem readLines_filter (ls : List (List Char)) (m n : Nat) (c : Config) :
    readLines m c (ls.filter fun line => (problem? line).isNone) = ((readLines n c ls).1, []) := by
  induction ls generalizing m n c with
  | nil => rfl
  | cons line ls ih =>
    cases hline : problem? line with
    | none =>
      obtain ⟨after, hafter⟩ := exists_readLine hline c
      rw [List.filter_cons_of_pos (by simp [hline]), readLines_cons_of_ok hafter,
        readLines_cons_of_ok hafter]
      exact ih (m + 1) (n + 1) after
    | some p =>
      rw [List.filter_cons_of_neg (by simp [hline]), readLines_cons_of_problem hline]
      exact ih m (n + 1) c

/-! ### Lines of a text -/

/-- The lines with other numbers than `numbers`, where the first line has the number `n`. -/
def otherLines (numbers : List Nat) (n : Nat) (ls : List (List Char)) : List (List Char) :=
  ((ls.zipIdx n).filter fun (_, k) => k ∉ numbers).map Prod.fst

/-- A text without its lines that have one of the `numbers`, where the first line has the number
`n`. A line goes with its line feed. -/
def withoutLines (numbers : List Nat) (n : Nat) : List Char → List Char
  | [] => []
  | c :: cs =>
    let rest := withoutLines numbers (if c = '\n' then n + 1 else n) cs
    if n ∈ numbers then rest else c :: rest

theorem otherLines_cons (numbers : List Nat) (n : Nat) (line : List Char)
    (ls : List (List Char)) :
    otherLines numbers n (line :: ls) =
      if n ∈ numbers then otherLines numbers (n + 1) ls
      else line :: otherLines numbers (n + 1) ls := by
  by_cases hmem : n ∈ numbers <;> simp [otherLines, hmem]

/-- The lines that are left of a text are those with other numbers. -/
theorem lines_withoutLines (numbers : List Nat) (cs : List Char) (n : Nat) :
    lines (withoutLines numbers n cs) = otherLines numbers n (lines cs) := by
  induction cs generalizing n with
  | nil => rfl
  | cons c cs ih =>
    by_cases hc : c = '\n'
    · have hrest := ih (n + 1)
      by_cases hmem : n ∈ numbers <;>
        simp only [withoutLines, lines, otherLines_cons, hc, hmem, hrest, if_true, if_false]
    · -- `c` stands on the first line of what follows it, if there is one
      have hrest := ih n
      cases hlines : lines cs with
      | nil =>
        rw [hlines] at hrest
        by_cases hmem : n ∈ numbers <;>
          simp only [withoutLines, lines, otherLines_cons, hc, hmem, hrest, hlines, if_true,
            if_false] <;> rfl
      | cons line rest =>
        rw [hlines, otherLines_cons] at hrest
        by_cases hmem : n ∈ numbers <;>
          simp only [withoutLines, lines, otherLines_cons, hc, hmem, hrest, hlines, if_true,
            if_false]

/-- A line has one of the numbers of the problems if it has a problem. -/
theorem mem_numbers_iff {ls : List (List Char)} {n k : Nat} (h : (line, k) ∈ ls.zipIdx n) :
    k ∈ (readLines n c ls).2.map LineProblem.line ↔ (problem? line).isSome := by
  rw [List.mem_map, Option.isSome_iff_exists]
  constructor
  · rintro ⟨⟨_, p⟩, hp, rfl⟩
    obtain ⟨same, hsame, hproblem⟩ := mem_problems_readLines.mp hp
    -- there is one line of this number
    have hline := (List.mk_mem_zipIdx_iff_le_and_getElem?_sub.mp h).2
    have hsame := (List.mk_mem_zipIdx_iff_le_and_getElem?_sub.mp hsame).2
    rw [Option.some.inj (hline.symm.trans hsame)]
    exact ⟨p, hproblem⟩
  · rintro ⟨p, hproblem⟩
    exact ⟨⟨k, p⟩, mem_problems_readLines.mpr ⟨line, h, hproblem⟩, rfl⟩

/-- The lines with other numbers than those of the problems are the lines with no problem. -/
theorem otherLines_problems (ls : List (List Char)) (n : Nat) (c : Config) :
    otherLines ((readLines n c ls).2.map LineProblem.line) n ls =
      ls.filter fun line => (problem? line).isNone := by
  have hfilter : (ls.zipIdx n).filter
      (fun (_, k) => k ∉ (readLines n c ls).2.map LineProblem.line) =
        (ls.zipIdx n).filter ((fun line => (problem? line).isNone) ∘ Prod.fst) := by
    refine List.filter_congr fun x hx => ?_
    rw [Function.comp_apply, ← Option.not_isSome, Bool.eq_iff_iff, decide_eq_true_iff,
      Bool.not_eq_true', ← Bool.not_eq_true]
    exact not_congr (mem_numbers_iff hx)
  rw [otherLines, hfilter, ← List.filter_map, List.zipIdx_map_fst]

/-- **Lines with a problem are as good as absent.** Each problem is that of its line alone, and is
reported with the number of the line, in the order of the lines; every line with a problem is
reported. Without these lines a text gives the same settings and no problem. -/
theorem problem_lines_absent (source : String) :
    let problems := (read source).2
    let numbers := problems.map LineProblem.line
    (∀ k p, ⟨k, p⟩ ∈ problems ↔
      ∃ line, (line, k) ∈ (lines source.toList).zipIdx 1 ∧ problem? line = some p) ∧
    numbers.Pairwise (· < ·) ∧
    (∀ k ∈ numbers, 1 ≤ k ∧ k ≤ (lines source.toList).length) ∧
    read (String.ofList (withoutLines numbers 1 source.toList)) = ((read source).1, []) := by
  intro problems numbers
  refine ⟨fun k p => mem_problems_readLines, List.pairwise_map.mpr (pairwise_problems _ 1 {}),
    fun k hk => ?_, ?_⟩
  · obtain ⟨⟨j, p⟩, hp, rfl⟩ := List.mem_map.mp hk
    obtain ⟨line, hline, -⟩ := mem_problems_readLines.mp hp
    obtain ⟨hfirst, hlast, -⟩ := List.mem_zipIdx hline
    have hlength : j ≤ (lines source.toList).length := by omega
    exact ⟨hfirst, hlength⟩
  · have hlines : otherLines numbers 1 (lines source.toList) = _ := otherLines_problems _ 1 {}
    rw [read, String.toList_ofList, lines_withoutLines, hlines]
    exact readLines_filter _ 1 1 {}

/-- A setting that is made twice, the second time with a value that is no percentage. -/
theorem problem_lines_absent_settingMadeTwice :
    let source := "wait_scale = 50\nstrict\n; strict\nwait_scale = half\ncolor = \"on\"\n"
    (read source).2.map LineProblem.line = [2, 4] ∧
    withoutLines [2, 4] 1 source.toList = "wait_scale = 50\n; strict\ncolor = \"on\"\n".toList ∧
    read "wait_scale = 50\n; strict\ncolor = \"on\"\n" =
      ({ waitScale := 50, color := some true }, []) := by
  intro source
  have hnumbers : (read source).2.map LineProblem.line = [2, 4] := by decide +kernel
  have hrest : withoutLines [2, 4] 1 source.toList =
      "wait_scale = 50\n; strict\ncolor = \"on\"\n".toList := by decide +kernel
  have hsettings : (read source).1 = { waitScale := 50, color := some true } := by decide +kernel
  have habsent := (problem_lines_absent source).2.2.2
  rw [hnumbers, hrest, String.ofList_toList, hsettings] at habsent
  exact ⟨hnumbers, hrest, habsent⟩

end NovelScript.Config
