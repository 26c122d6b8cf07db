import NovelScript.Proofs.Evaluation.Failure
import NovelScript.Proofs.Evaluation.Widths

/-!
How long strings become. Strings come from the literals of a text, from operators, which work out a
length before they build one, and from values that are written out, functions among them. Main
statement: if no literal and no text of a function is too long, no string ever is, however deep the
calls, and no length that is worked out on the way is beyond what is counted with.
-/

namespace NovelScript.Expr

/-! ### The texts that a program brings -/

mutual

/-- The string literals of an expression, and its function literals as text. -/
def Expression.texts : Expression → List String
  | .identifier _ | .integer _ | .double _ | .boolean _ => []
  | .string s => [s]
  | .unary _ e | .assign _ e => e.texts
  | .binary _ left right => left.texts ++ right.texts
  | .ifThen condition consequence => condition.texts ++ blockTexts consequence
  | .ifThenElse condition consequence alternative =>
    condition.texts ++ blockTexts consequence ++ blockTexts alternative
  | .function parameters body => showFunction parameters body :: blockTexts body
  | .call callee arguments => callee.texts ++ argumentTexts arguments

/-- The string literals of a statement, and its function literals as text. -/
def Statement.texts : Statement → List String
  | .let _ value | .return value | .expression value => value.texts
  | .block body => blockTexts body

/-- The string literals of statements, and their function literals as text. -/
def blockTexts : List Statement → List String
  | [] => []
  | first :: rest => first.texts ++ blockTexts rest

/-- The string literals of arguments, and their function literals as text. -/
def argumentTexts : List Expression → List String
  | [] => []
  | first :: rest => first.texts ++ argumentTexts rest

end

theorem texts_subset_argumentTexts {e : Expression} : ∀ {es : List Expression},
    e ∈ es → e.texts ⊆ argumentTexts es
  | first :: rest, hmem => by
    rcases List.mem_cons.mp hmem with rfl | hmem
    · exact List.subset_append_left _ _
    · exact List.Subset.trans (texts_subset_argumentTexts hmem) (List.subset_append_right _ _)

/-- The texts of what is to be evaluated. -/
def Task.texts : Task → List String
  | expression e => e.texts
  | statement s => s.texts
  | statements _ body => blockTexts body

/-- The texts in a value: the string that it is, or the function as text with the literals of its
body. -/
def Value.texts : Value → List String
  | string s => [s]
  | returned v => v.texts
  | function f => showFunction f.parameters f.body :: blockTexts f.body
  | _ => []

/-- No text is longer than strings may be. -/
def AreShort (texts : List String) : Prop := ∀ text ∈ texts, text.utf8ByteSize ≤ maxStringBytes

instance (texts : List String) : Decidable (AreShort texts) :=
  inferInstanceAs (Decidable (∀ text ∈ texts, _))

/-- The value is no string that is too long, nor will a function bring one. -/
def Value.IsShort (v : Value) : Prop := AreShort v.texts

instance (v : Value) : Decidable v.IsShort := inferInstanceAs (Decidable (AreShort v.texts))

theorem AreShort.nil : AreShort [] := by simp [AreShort]

theorem AreShort.subset {texts others : List String} (h : AreShort texts) (hsub : others ⊆ texts) :
    AreShort others := fun text htext => h text (hsub htext)

theorem Value.isShort_string {s : String} :
    (Value.string s).IsShort ↔ s.utf8ByteSize ≤ maxStringBytes := by
  simp [IsShort, AreShort, texts]

theorem Value.isShort_unwrap {v : Value} (h : v.IsShort) : v.unwrap.IsShort := by
  cases v <;> exact h

/-- A value that is no function is short unless it is a string. -/
theorem Value.isShort_of_isPlain {v : Value} (h : Evaluation.isPlain v = true)
    (hstring : ∀ s, v = .string s → s.utf8ByteSize ≤ maxStringBytes) : v.IsShort := by
  cases v with
  | string s => exact isShort_string.mpr (hstring s rfl)
  | function f => cases h
  | returned v => cases h
  | _ => exact .nil

/-! ### Strings that operators build -/

namespace BinaryOp

variable {op : BinaryOp} {l r : Value} {s : String} {bytes : Nat}

/-- The number of bytes that an operator works out before it builds a string. -/
def bytes? : BinaryOp → Value → Value → Option Nat
  | .add, .string l, .string r => some (l.utf8ByteSize + r.utf8ByteSize)
  | .add, .string l, .integer _ => some (l.utf8ByteSize + integerWidth)
  | .multiply, .string l, .integer n =>
    if n < 0 then none else some (l.utf8ByteSize * n.toInt.toNat)
  | _, _, _ => none

/-- The value is a string of at most so many bytes, if strings may have as many, and else a
failure. -/
def IsWithin (bytes : Nat) (v : Value) : Prop :=
  if bytes ≤ maxStringBytes then ∃ s, v = .string s ∧ s.utf8ByteSize ≤ bytes else v.isError = true

theorem isWithin_concatenate {l r : String} (h : l.utf8ByteSize + r.utf8ByteSize ≤ bytes) :
    IsWithin bytes (concatenate l r bytes) := by
  unfold IsWithin concatenate
  split
  · exact ⟨l ++ r, rfl, by rwa [String.utf8ByteSize_append]⟩
  · rfl

theorem utf8ByteSize_copies (n : Nat) (s : String) :
    (copies n s).utf8ByteSize ≤ s.utf8ByteSize * n := by
  unfold copies
  split
  · rename_i hempty
    rw [String.isEmpty_iff.mp hempty]
    simp
  · induction n with
    | zero => simp [Nat.repeat]
    | succ n ih =>
      rw [Nat.repeat, String.utf8ByteSize_append, Nat.mul_succ]
      omega

/-- **An operator that works out a length keeps to it**, and fails if it is too much. -/
theorem isWithin_apply (h : op.bytes? l r = some bytes) : IsWithin bytes (op.apply l r) := by
  unfold bytes? at h
  split at h
  · obtain rfl := Option.some.inj h
    exact isWithin_concatenate (Nat.le_refl _)
  · obtain rfl := Option.some.inj h
    refine isWithin_concatenate (Nat.add_le_add_left ?_ _)
    exact utf8ByteSize_int32_le _
  · rename_i l n
    split at h
    · cases h
    · rename_i hcount
      obtain rfl := Option.some.inj h
      show IsWithin _ (repeatText l n)
      unfold IsWithin repeatText
      rw [if_neg hcount]
      split
      · rename_i hbytes
        exact ⟨_, if_pos hbytes, utf8ByteSize_copies _ _⟩
      · rename_i hbytes
        rw [if_neg hbytes]
        rfl
  · cases h

theorem onIntegers_ne_string (op : BinaryOp) (l r : Int32) (s : String) :
    op.onIntegers l r ≠ .string s := by
  unfold onIntegers
  repeat' split
  all_goals simp

theorem onDoubles_ne_string (op : BinaryOp) (l r : Float) (s : String) :
    op.onDoubles l r ≠ .string s := by
  unfold onDoubles
  split <;> simp

theorem onBooleans_ne_string (op : BinaryOp) (l r : Bool) (s : String) :
    op.onBooleans l r ≠ .string s := by
  unfold onBooleans
  split <;> simp

theorem onOthers_ne_string (op : BinaryOp) (l r : Value) (s : String) :
    op.onOthers l r ≠ .string s := by
  unfold onOthers
  repeat' split
  all_goals simp

/-- Only an operator that works out a length builds a string. -/
theorem exists_bytes?_of_apply (h : op.apply l r = .string s) :
    ∃ bytes, op.bytes? l r = some bytes := by
  unfold apply at h
  split at h
  · exact absurd h (onIntegers_ne_string _ _ _ _)
  · exact absurd h (onDoubles_ne_string _ _ _ _)
  · unfold onStrings at h
    split at h
    · exact ⟨_, rfl⟩
    · split at h <;> cases h
  · split at h
    · rename_i n
      unfold repeatText at h
      split at h
      · cases h
      · rename_i hcount
        exact ⟨_, if_neg hcount⟩
    · exact ⟨_, rfl⟩
    · exact absurd h (onOthers_ne_string _ _ _ _)
  · exact absurd h (onBooleans_ne_string _ _ _ _)
  · exact absurd h (onOthers_ne_string _ _ _ _)

/-- What an operator builds is no longer than strings may be. -/
theorem isShort_apply (op : BinaryOp) (l r : Value) : (op.apply l r).IsShort := by
  refine Value.isShort_of_isPlain (Evaluation.isPlain_binary op l r) fun s hs => ?_
  obtain ⟨bytes, hbytes⟩ := exists_bytes?_of_apply hs
  have hwithin := isWithin_apply hbytes
  unfold IsWithin at hwithin
  split at hwithin
  · rename_i hbound
    obtain ⟨s', hs', hsize⟩ := hwithin
    obtain rfl := Value.string.inj (hs.symm.trans hs')
    exact Nat.le_trans hsize hbound
  · rw [hs] at hwithin
    cases hwithin

/-- Of strings that are not too long, no length is worked out that 64 bits do not hold. -/
theorem bytes?_lt (hl : l.IsShort) (hr : r.IsShort) (h : op.bytes? l r = some bytes) :
    bytes < UInt64.size := by
  show bytes < 18446744073709551616
  unfold bytes? at h
  split at h
  · have hleft := Value.isShort_string.mp hl
    have hright := Value.isShort_string.mp hr
    obtain rfl := Option.some.inj h
    unfold maxStringBytes at hleft hright
    omega
  · have hleft := Value.isShort_string.mp hl
    obtain rfl := Option.some.inj h
    unfold maxStringBytes at hleft
    unfold integerWidth
    omega
  · rename_i l n
    have hleft := Value.isShort_string.mp hl
    have hcount : n.toInt.toNat ≤ 2 ^ 31 := by
      have := n.toInt_lt
      omega
    split at h
    · cases h
    · obtain rfl := Option.some.inj h
      have hproduct := Nat.mul_le_mul hleft hcount
      unfold maxStringBytes at hproduct
      omega
  · cases h

end BinaryOp

theorem UnaryOp.isShort_apply (op : UnaryOp) (v : Value) : (op.apply v).IsShort := by
  refine Value.isShort_of_isPlain (Evaluation.isPlain_unary op v) fun s hs => ?_
  unfold UnaryOp.apply at hs
  split at hs <;> cases hs

/-! ### Values written out -/

/-- A value at hand is not too long as text. -/
theorem Value.utf8ByteSize_show {v : Value} (hfaulty : v.isFaulty = false) (h : v.IsShort) :
    v.show.utf8ByteSize ≤ maxStringBytes := by
  induction v with
  | integer n =>
    have hwidth := utf8ByteSize_int32_le n
    unfold maxStringBytes
    exact Nat.le_trans hwidth (by decide)
  | double x =>
    have hwidth := Decimal.utf8ByteSize_write_le x
    unfold maxStringBytes
    exact Nat.le_trans hwidth (by decide)
  | string s => exact isShort_string.mp h
  | boolean b => cases b <;> decide
  | null => decide
  | returned v ih => exact ih hfaulty h
  | error fault => cases hfaulty
  | function f => exact h _ List.mem_cons_self
  | builtin b => cases b <;> decide

/-- Built-in functions make strings of values and of the names of types only. -/
theorem Builtin.exists_show_of_apply {b : Builtin} {values : List Value} {s : String}
    (h : b.apply values = .string s) : ∃ v ∈ values, s = v.show ∨ s = v.type.name := by
  cases values with
  | nil => cases h
  | cons v rest =>
    cases rest with
    | cons w more => cases h
    | nil =>
      refine ⟨v, List.mem_singleton_self v, ?_⟩
      cases b with
      | string => exact .inl (Value.string.inj h).symm
      | type => exact .inr (Value.string.inj h).symm
      | length => cases v <;> cases h
      | integer | double =>
        cases v with
        | string t =>
          simp only [Builtin.apply] at h
          split at h <;> cases h
        | _ => cases h

/-- A built-in function makes no string that is too long. -/
theorem Builtin.isShort_apply {b : Builtin} {values : List Value}
    (h : ∀ v ∈ values, v.isFaulty = false ∧ v.IsShort) : (b.apply values).IsShort := by
  refine Value.isShort_of_isPlain (Evaluation.isPlain_builtin b values) fun s hs => ?_
  obtain ⟨v, hv, rfl | rfl⟩ := exists_show_of_apply hs
  · exact Value.utf8ByteSize_show (h v hv).1 (h v hv).2
  · cases v.type <;> decide

/-! ### One evaluation -/

namespace Evaluation

variable {role : Role} {c d part : Evaluation}

/-- What is evaluated in the scope of the whole has no texts but those of the whole. -/
theorem Part.texts_subset (h : Part role part c) (hrole : role ≠ .body) :
    part.task.texts ⊆ c.task.texts := by
  cases h with
  | unary | assign | «let» | «return» | expression | block => exact List.Subset.refl _
  | left | onlyCondition | callee | first => exact List.subset_append_left _ _
  | right | onlyBranch | rest => exact List.subset_append_right _ _
  | condition =>
    exact List.Subset.trans (List.subset_append_left _ _) (List.subset_append_left _ _)
  | @branch n s h condition body other v h' _ _ =>
    show blockTexts (if v.isTruthy then body else other) ⊆
      condition.texts ++ blockTexts body ++ blockTexts other
    split
    · exact List.Subset.trans (List.subset_append_right _ _) (List.subset_append_left _ _)
    · exact List.subset_append_right _ _
  | argument _ _ hmem =>
    obtain ⟨e, h', he, rfl⟩ := mem_argumentParts hmem
    exact List.Subset.trans (texts_subset_argumentTexts he) (List.subset_append_right _ _)
  | body => exact absurd rfl hrole

/-- An evaluation begins where no failure and nothing too long is at hand. -/
structure Bounded (c : Evaluation) : Prop extends c.Unhurt where
  short : c.heap.Holds Value.IsShort
  last_short : c.task.last.IsShort
  texts : AreShort c.task.texts

/-- An evaluation leaves nothing behind that is too long. -/
structure Short (c : Evaluation) : Prop where
  heap : c.run.2.Holds Value.IsShort
  value : c.run.1.IsShort

/-- What an evaluation comes to on its own is not too long, if what it makes use of is not. -/
theorem Makes.isShort {heap : Heap} {v : Value} (h : c.Makes heap v) (hc : c.Bounded)
    (hheap : heap.Holds Value.IsShort)
    (huses : ∀ v, c.Uses heap v → v.isFaulty = false ∧ v.IsShort) : v.IsShort := by
  cases h with
  | string htask =>
    have htexts := hc.texts
    rw [htask] at htexts
    exact htexts
  | bound _ hv => exact hheap.lookup? _ hv
  | unary _ => exact UnaryOp.isShort_apply _ _
  | binary _ _ => exact BinaryOp.isShort_apply _ _ _
  | apply hvalues => exact Builtin.isShort_apply fun v hv => huses v (hvalues v hv)
  | last htask =>
    have hlast := hc.last_short
    rwa [htask] at hlast
  | _ => exact .nil

/-- Where the parts leave nothing too long behind, nothing too long is at hand in between. -/
theorem Bounded.inside (hc : c.Bounded)
    (ih : ∀ role part, Part role part c → part.Bounded → part.Short) :
    (∀ heap, c.Meets heap → heap.Holds Value.IsShort) ∧
      (∀ heap v, c.Uses heap v → v.isFaulty = false ∧ v.IsShort) ∧
      ∀ role part, Part role part c → part.Bounded := by
  obtain ⟨-, hfaultless, hunhurt⟩ := hc.toUnhurt.inside fun _ part _ => Unhurt.harmless part
  -- what stands first begins behind null, and each statement behind the value of the one before
  have hlast : ∀ role part, Part role part c → part.task.last.IsShort := by
    intro role part hpart
    rcases hpart.last_eq with hnull | ⟨first, hfirst, hstart, hnull, hrun, -⟩
    · rw [hnull]
      exact .nil
    · have hbounded : first.Bounded :=
        { toUnhurt := hunhurt _ first hfirst
          short := hstart ▸ hc.short
          last_short := hnull ▸ .nil
          texts := hc.texts.subset (hfirst.texts_subset (by simp)) }
      have hvalue := (ih _ first hfirst hbounded).value
      rwa [hrun] at hvalue
  have hnext : ∀ role part, Part role part c → role ≠ .body → part.heap.Holds Value.IsShort →
      part.Bounded := fun role part hpart hrole hheap =>
    { toUnhurt := hunhurt role part hpart
      short := hheap
      last_short := hlast role part hpart
      texts := hc.texts.subset (hpart.texts_subset hrole) }
  have hmeets : ∀ heap, c.Meets heap → heap.Holds Value.IsShort := fun heap hheap =>
    hheap.holds hc.short fun role part hpart hrole hshort =>
      (ih role part hpart (hnext role part hpart hrole hshort)).heap
  have huses : ∀ heap v, c.Uses heap v → v.isFaulty = false ∧ v.IsShort := by
    intro heap v huse
    refine ⟨hfaultless heap v huse, ?_⟩
    obtain ⟨part, hpart, rfl, -, -⟩ := huse
    have hbegins := hnext _ part hpart (by simp) (hmeets _ (hpart.meets (by simp)))
    exact (ih _ part hpart hbegins).value
  refine ⟨hmeets, huses, fun role part hpart => ?_⟩
  by_cases hrole : role = .body
  · subst hrole
    refine ⟨hunhurt _ part hpart, ?_, hlast _ part hpart, ?_⟩
    · exact hpart.calls.holds .nil hmeets fun heap v huse => (huses heap v huse).2
    · cases hpart.calls with
      | @enter n heap f values _ _ hf _ =>
        exact AreShort.subset (huses heap _ hf).2 (List.subset_cons_self _ _)
  · exact hnext role part hpart hrole (hmeets _ (hpart.meets hrole))

/-- **An evaluation makes nothing that is too long.** -/
theorem Bounded.isShort_run (c : Evaluation) : c.Bounded → c.Short := by
  induction c using Evaluation.induction with
  | step c ih =>
    intro hc
    obtain ⟨hmeets, huses, hbounded⟩ := hc.inside ih
    have hparts : ∀ role part, Part role part c → part.Short := fun role part hpart =>
      ih role part hpart (hbounded role part hpart)
    refine ⟨holds_run .nil hmeets (fun heap v huse => (huses heap v huse).2)
      fun role part hpart _ => (hparts role part hpart).heap, ?_⟩
    have hends := c.ends_run
    generalize c.run = result at hends
    cases hends with
    | failed hpart _ => exact (hparts _ _ hpart).value
    | passed hpart => exact (hparts _ _ hpart).value
    | called hpart => exact Value.isShort_unwrap (hparts _ _ hpart).value
    | made hheap hmakes => exact hmakes.isShort hc (hmeets _ hheap) (huses _)
    | set _ huse hor =>
      rcases hor with rfl | rfl
      · exact (huses _ _ huse).2
      · exact .nil
    | function htask =>
      have htexts := hc.texts
      rw [htask] at htexts
      exact htexts
    | returned hreturns =>
      obtain ⟨part, hpart, -, hrun⟩ := hreturns.part
      have hvalue := (hparts _ part hpart).value
      rwa [hrun] at hvalue

/-- Whatever is evaluated in the course of an evaluation begins where nothing too long is at
hand. -/
theorem Bounded.reaches (hc : c.Bounded) (h : c.Reaches d) : d.Bounded := by
  refine h.keeps (fun hpart hwhole => ?_) hc
  exact (hwhole.inside fun _ part _ => isShort_run part).2.2 _ _ hpart

/-- At no moment of an evaluation does a scope bind what is too long. -/
theorem Bounded.course (hc : c.Bounded) : ∀ heap ∈ c.course, heap.Holds Value.IsShort := by
  intro heap hheap
  obtain ⟨d, hd, rfl | rfl⟩ := exists_reaches_of_mem_course c hheap
  · exact (hc.reaches hd).short
  · exact (isShort_run d (hc.reaches hd)).heap

/-- An operand that is used has been evaluated in the course of the evaluation. -/
theorem Bounded.uses (hc : c.Bounded) {heap : Heap} {v : Value} (h : c.Uses heap v) : v.IsShort :=
  ((hc.inside fun _ part _ => isShort_run part).2.1 heap v h).2

/-- In the course of an evaluation no string becomes too long, and no length that is worked out
there is beyond the numbers it is counted with. -/
structure KeepsShort (c : Evaluation) : Prop where
  /-- What is made or returned, at any depth of calls, is not too long. -/
  value : ∀ d, c.Reaches d → d.run.1.IsShort
  /-- What is passed to operators, built-in functions and functions is not too long. -/
  operand : ∀ d heap v, c.Reaches d → d.Uses heap v → v.IsShort
  /-- What is bound at any moment is not too long. -/
  bound : ∀ heap ∈ c.course, heap.Holds Value.IsShort
  /-- Where an operator works out a length before it builds a string, 64 bits hold the length. -/
  bytes : ∀ d heap op l r bytes, c.Reaches d → d.Uses heap l → d.Uses heap r →
    BinaryOp.bytes? op l r = some bytes → bytes < UInt64.size ∧ BinaryOp.IsWithin bytes (op.apply l r)
  /-- Where the characters of a string are counted, an integer holds their number. -/
  characters : ∀ d heap s, c.Reaches d → d.Uses heap (.string s) → s.length ≤ 2147483647

theorem Bounded.keepsShort (hc : c.Bounded) : c.KeepsShort where
  value d hd := (isShort_run d (hc.reaches hd)).value
  operand _ _ _ hd huse := (hc.reaches hd).uses huse
  bound := hc.course
  bytes d heap op l r bytes hd hl hr hbytes := by
    have hbounded := hc.reaches hd
    exact ⟨BinaryOp.bytes?_lt (hbounded.uses hl) (hbounded.uses hr) hbytes,
      BinaryOp.isWithin_apply hbytes⟩
  characters d heap s hd huse := by
    have hshort := Value.isShort_string.mp ((hc.reaches hd).uses huse)
    have hlength := length_le_utf8ByteSize s
    unfold maxStringBytes at hshort
    omega

end Evaluation

open Evaluation

/-! ### Programs -/

/-- **Strings do not outgrow their limit.** On a heap that binds no failure, if no string that is
bound is too long, nor a string literal or the text of a function literal in the program or in a
function that is bound, then no string is too long that the program makes, binds, passes or returns,
at any depth of calls; no length that is worked out overflows; and the next program may begin on the
heap that is left. -/
theorem strings_stay_short {program : Program} {scope : ScopeId} {heap : Heap}
    (hheap : heap.Faultless) (hshort : heap.Holds Value.IsShort)
    (htexts : AreShort (blockTexts program)) :
    (program.evaluation scope heap).KeepsShort ∧
      ((evalProgram program scope).run heap).1.IsShort ∧
      ((evalProgram program scope).run heap).2.Faultless ∧
      ((evalProgram program scope).run heap).2.Holds Value.IsShort := by
  have hbounded : (program.evaluation scope heap).Bounded :=
    { heap := hheap, last := rfl, short := hshort, last_short := .nil, texts := htexts }
  have hrun := Bounded.isShort_run _ hbounded
  have hharmless := Unhurt.harmless _ hbounded.toUnhurt
  refine ⟨hbounded.keepsShort, ?_⟩
  rw [run_evalProgram]
  exact ⟨Value.isShort_unwrap hrun.value, hharmless.heap, hrun.heap⟩

/-- A heap with a word, and a function that writes a text twice, followed by a number. -/
def wordHeap : Heap where
  scopes := #[{ bindings := [("word", .string "größe"), ("twice", .function ⟨["s"],
    [.expression (.binary .add (.binary .add (.identifier "s") (.identifier "s")) (.integer 7))],
    0, 0⟩)] }]
  functions := 1

/-- A program that repeats what the function makes of the word, and writes the function out. -/
def wordProgram : Program :=
  [.let "t" (.binary .multiply (.call (.identifier "twice") [.identifier "word"]) (.integer 3)),
    .expression (.binary .add (.identifier "t") (.call (.identifier "str") [.identifier "twice"]))]

theorem strings_stay_short_wordProgram :
    wordHeap.Faultless ∧ wordHeap.Holds Value.IsShort ∧ AreShort (blockTexts wordProgram) ∧
      (wordProgram.evaluation Heap.root wordHeap).KeepsShort ∧
      ((evalProgram wordProgram Heap.root).run wordHeap).1.IsShort := by
  have hheap : wordHeap.Faultless := by
    unfold Heap.Faultless Heap.Holds
    decide
  have hshort : wordHeap.Holds Value.IsShort := by
    unfold Heap.Holds
    decide
  have htexts : AreShort (blockTexts wordProgram) := by decide
  have hends := @strings_stay_short wordProgram Heap.root wordHeap hheap hshort htexts
  exact ⟨hheap, hshort, htexts, hends.1, hends.2.1⟩

end NovelScript.Expr
