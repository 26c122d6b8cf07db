import Mathlib.Data.List.DropRight
import NovelScript.Text.Scanner

/-!
Places of a reader. A reader and its copies go over a text each in its own steps. Main statement: the
place of a reader is that of what it has read, in bytes, lines and columns, and a text can be cut at
any two places that readers of it have been at, which gives what is read from the one to the other.
-/

namespace NovelScript

/-! ### Places -/

namespace Position

theorem line_after (p : Position) (cs : List Char) :
    (p.after cs).line = p.line + cs.count '\n' := by
  induction cs generalizing p with
  | nil => rfl
  | cons c cs ih =>
    rw [after_cons, ih, next]
    by_cases hc : c = '\n'
    · simp [hc]; omega
    · simp [hc]

/-- Columns count the characters behind the last line feed. -/
theorem column_after (cs : List Char) :
    (({} : Position).after cs).column = (cs.rtakeWhile (· ≠ '\n')).length + 1 := by
  induction cs using List.reverseRecOn with
  | nil => rfl
  | append_singleton cs c ih =>
    rw [after_append, after_cons, after_nil, next, List.rtakeWhile_concat]
    by_cases hc : c = '\n'
    · simp [hc]
    · simp [hc, ih]

end Position

namespace Scanner

/-! ### Cuts -/

variable {source : String} {cs ds read later : List Char} {s t : Scanner}

/-- The bytes of some characters. -/
def bytes (cs : List Char) : Nat := (String.ofList cs).utf8ByteSize

@[simp] theorem bytes_nil : bytes [] = 0 := rfl

@[simp] theorem bytes_cons (c : Char) (cs : List Char) : bytes (c :: cs) = c.utf8Size + bytes cs := by
  rw [bytes, String.ofList_cons, String.utf8ByteSize_append, String.utf8ByteSize_singleton, bytes]

@[simp] theorem bytes_append (cs ds : List Char) : bytes (cs ++ ds) = bytes cs + bytes ds := by
  rw [bytes, String.ofList_append, String.utf8ByteSize_append, bytes, bytes]

theorem bytes_eq_zero : bytes cs = 0 ↔ cs = [] := by
  rw [bytes, String.utf8ByteSize_eq_zero_iff, String.ofList_eq_empty_iff]

theorem behindBytes_cons {n : Nat} (h : n ≠ 0) (c : Char) (cs : List Char) :
    behindBytes n (c :: cs) = behindBytes (n - c.utf8Size) cs := by
  rw [behindBytes]
  exact h

theorem firstBytes_cons {n : Nat} (h : n ≠ 0) (c : Char) (cs : List Char) :
    firstBytes n (c :: cs) = c :: firstBytes (n - c.utf8Size) cs := by
  rw [firstBytes]
  exact h

theorem behindBytes_bytes (cs ds : List Char) : behindBytes (bytes cs) (cs ++ ds) = ds := by
  induction cs with
  | nil => cases ds <;> rfl
  | cons c cs ih =>
    have hne : bytes (c :: cs) ≠ 0 := mt bytes_eq_zero.mp (List.cons_ne_nil c cs)
    rw [List.cons_append, behindBytes_cons hne, bytes_cons, Nat.add_sub_cancel_left, ih]

theorem firstBytes_bytes (cs ds : List Char) : firstBytes (bytes cs) (cs ++ ds) = cs := by
  induction cs with
  | nil => cases ds <;> rfl
  | cons c cs ih =>
    have hne : bytes (c :: cs) ≠ 0 := mt bytes_eq_zero.mp (List.cons_ne_nil c cs)
    rw [List.cons_append, firstBytes_cons hne, bytes_cons, Nat.add_sub_cancel_left, ih]

/-- A text can be cut at two places, and `between` is what stands between them. -/
structure Cuts (source : String) (start stop : Position) (between : List Char) : Prop where
  start_le_stop : start.offset ≤ stop.offset
  start_isValid : (⟨start.offset⟩ : String.Pos.Raw).IsValid source
  stop_isValid : (⟨stop.offset⟩ : String.Pos.Raw).IsValid source
  bytes_eq : (String.ofList between).toByteArray =
    source.toByteArray.extract start.offset stop.offset
  slice_eq : ∀ s : Scanner, s.source = source → s.slice start stop = String.ofList between

/-- Behind a beginning of a text there is a place to cut it. -/
theorem isValid_of_append (h : source.toList = cs ++ ds) :
    (⟨bytes cs⟩ : String.Pos.Raw).IsValid source := by
  refine String.Pos.Raw.isValid_iff_exists_append.mpr ⟨String.ofList cs, String.ofList ds, ?_, rfl⟩
  rw [← String.ofList_append, ← h, String.ofList_toList]

theorem cuts_of_append {start stop : Position} {between : List Char}
    (h : source.toList = cs ++ between ++ ds) (hstart : start.offset = bytes cs)
    (hstop : stop.offset = bytes (cs ++ between)) : Cuts source start stop between where
  start_le_stop := by rw [hstart, hstop, bytes_append]; exact Nat.le_add_right _ _
  start_isValid := hstart ▸ isValid_of_append (h.trans (List.append_assoc ..))
  stop_isValid := hstop ▸ isValid_of_append h
  bytes_eq := by
    have hsource : source.toByteArray = (String.ofList cs).toByteArray ++
        ((String.ofList between).toByteArray ++ (String.ofList ds).toByteArray) := by
      rw [← String.toByteArray_append, ← String.toByteArray_append, ← String.ofList_append,
        ← String.ofList_append, ← List.append_assoc, ← h, String.ofList_toList]
    have hcs : start.offset = (String.ofList cs).toByteArray.size + 0 :=
      hstart.trans String.size_toByteArray.symm
    have hbetween : stop.offset = (String.ofList cs).toByteArray.size +
        (String.ofList between).toByteArray.size := by
      rw [hstop, bytes_append, String.size_toByteArray, String.size_toByteArray, bytes, bytes]
    rw [hsource, hcs, hbetween, ByteArray.extract_append_size_add,
      ByteArray.extract_append_eq_left rfl]
  slice_eq := by
    intro s hs
    rw [slice, hs, h, hstart, hstop, bytes_append, Nat.add_sub_cancel_left, List.append_assoc,
      behindBytes_bytes, firstBytes_bytes]

/-! ### Operations -/

/-- What can be done with a reader. -/
inductive Operation
  | advance
  | eat (c : Char)
  | takeWhile (p : Char → Bool)
  | peek
  | peekSecond

/-- What an operation should read of a text. -/
def Operation.reads : Operation → List Char → List Char
  | advance, cs => cs.take 1
  | eat c, cs => if cs.head? = some c then [c] else []
  | takeWhile p, cs => cs.takeWhile p
  | peek, _ | peekSecond, _ => []

/-- What an operation reads, and the reader behind it. -/
def perform (s : Scanner) : Operation → List Char × Scanner
  | .advance =>
    match s.advance? with
    | some (c, after) => ([c], after)
    | none => ([], s)
  | .eat c =>
    match s.eat? c with
    | some after => ([c], after)
    | none => ([], s)
  | .takeWhile p => s.takeWhile p
  | .peek | .peekSecond => ([], s)

/-- What operations read one after the other, and the reader behind them. -/
def performAll (s : Scanner) : List Operation → List Char × Scanner
  | [] => ([], s)
  | operation :: rest =>
    let (read, after) := s.perform operation
    let (later, last) := after.performAll rest
    (read ++ later, last)

theorem Operation.reads_prefix (operation : Operation) (cs : List Char) :
    operation.reads cs <+: cs := by
  cases operation with
  | advance => exact List.take_prefix 1 cs
  | eat c =>
    rw [reads]
    split
    · rename_i hc
      obtain ⟨rest, rfl⟩ := List.head?_eq_some_iff.mp hc
      exact ⟨rest, rfl⟩
    · exact List.nil_prefix
  | takeWhile p => exact List.takeWhile_prefix p
  | peek | peekSecond => exact List.nil_prefix

theorem Operation.take_reads (operation : Operation) (cs : List Char) :
    cs.take (operation.reads cs).length = operation.reads cs :=
  (List.prefix_iff_eq_take.mp (operation.reads_prefix cs)).symm

theorem Operation.reads_append_drop (operation : Operation) (cs : List Char) :
    operation.reads cs ++ cs.drop (operation.reads cs).length = cs := by
  have hcut := List.take_append_drop (operation.reads cs).length cs
  rwa [take_reads] at hcut

/-- **An operation** passes over what it should read, and over nothing else. -/
theorem perform_eq (s : Scanner) (operation : Operation) :
    s.perform operation =
      (operation.reads s.rest, s.skip (operation.reads s.rest).length) := by
  cases operation with
  | advance =>
    obtain ⟨source, rest, position⟩ := s
    cases rest <;> rfl
  | eat c =>
    by_cases hc : s.rest.head? = some c
    · simp [perform, eat?, peek?, Operation.reads, hc]
    · simp [perform, eat?, peek?, Operation.reads, hc, skip]
  | takeWhile p =>
    have htake := (Operation.takeWhile p).take_reads s.rest
    have hdrop : s.rest.drop (s.rest.takeWhile p).length = s.rest.dropWhile p := by
      have hcut := (Operation.takeWhile p).reads_append_drop s.rest
      exact List.append_cancel_left (hcut.trans List.takeWhile_append_dropWhile.symm)
    rw [Operation.reads] at htake
    rw [perform, Operation.reads, skip, htake, hdrop, takeWhile]
  | peek | peekSecond => rfl

/-- The reader has read a beginning of its text. -/
structure HasRead (s : Scanner) (source : String) (read : List Char) : Prop where
  source_eq : s.source = source
  toList_eq : source.toList = read ++ s.rest
  position_eq : s.position = ({} : Position).after read

theorem HasRead.offset_eq (h : s.HasRead source read) : s.position.offset = bytes read := by
  rw [h.position_eq, Position.offset_after, bytes]
  exact Nat.zero_add _

theorem HasRead.drop_eq (h : s.HasRead source read) : source.toList.drop read.length = s.rest := by
  rw [h.toList_eq, List.drop_left]

theorem HasRead.peek?_eq (h : s.HasRead source read) : s.peek? = source.toList[read.length]? := by
  rw [peek?, ← h.drop_eq, List.head?_drop]

theorem HasRead.peekSecond?_eq (h : s.HasRead source read) :
    s.peekSecond? = source.toList[read.length + 1]? := by
  rw [peekSecond?, ← h.drop_eq, List.tail_drop, List.head?_drop]

theorem HasRead.perform (h : s.HasRead source read) (operation : Operation) :
    (s.perform operation).2.HasRead source (read ++ (s.perform operation).1) := by
  rw [perform_eq]
  refine ⟨h.source_eq, ?_, ?_⟩
  · rw [rest_skip, List.append_assoc, operation.reads_append_drop, h.toList_eq]
  · rw [skip, operation.take_reads, h.position_eq, Position.after_append]

/-- **All operations** together pass over what each of them reads. -/
theorem HasRead.performAll (h : s.HasRead source read) (operations : List Operation) :
    (s.performAll operations).2.HasRead source (read ++ (s.performAll operations).1) := by
  induction operations generalizing s read with
  | nil => rwa [Scanner.performAll, List.append_nil]
  | cons operation rest ih =>
    have hrest := ih (h.perform operation)
    rwa [List.append_assoc] at hrest

/-! ### Two readers of a text -/

/-- A text can be cut where a reader is and where it is later. -/
theorem HasRead.cuts {between : List Char} (hs : s.HasRead source read)
    (ht : t.HasRead source (read ++ between)) :
    Cuts source s.position t.position between ∧ s.textTo t = String.ofList between := by
  refine ⟨cuts_of_append ht.toList_eq hs.offset_eq ht.offset_eq, ?_⟩
  have hrest : s.rest = between ++ t.rest := by
    have hsame := hs.toList_eq.symm.trans ht.toList_eq
    rwa [List.append_assoc, List.append_cancel_left_eq] at hsame
  rw [textTo, hs.offset_eq, ht.offset_eq, hrest, bytes_append, Nat.add_sub_cancel_left,
    firstBytes_bytes]

/-- The reader that is not behind the other has read what the other has read, and more. -/
theorem HasRead.exists_append (hs : s.HasRead source read) (ht : t.HasRead source later)
    (hle : s.position.offset ≤ t.position.offset) : ∃ between, later = read ++ between := by
  have hsame := hs.toList_eq.symm.trans ht.toList_eq
  rcases List.append_eq_append_iff.mp hsame with ⟨between, hlater, -⟩ | ⟨between, hread, -⟩
  · exact ⟨between, hlater⟩
  · -- what the other is ahead has no bytes
    have hnone : bytes between = 0 := by
      rw [hs.offset_eq, ht.offset_eq, hread, bytes_append] at hle
      omega
    rw [bytes_eq_zero.mp hnone, List.append_nil] at hread
    exact ⟨[], by rw [hread, List.append_nil]⟩

/-- **Places are true.** Whatever has been done with a reader, its place is that of the beginning of
the text that it has read: a place between two characters, or at an end, with the bytes before it,
the line feeds before it and the characters behind the last of them counted. The next two characters
are those that follow in the text, and every operation reads what it should of what follows. Where
the reader goes from there, the text can be cut at the two places, which gives what it has read in
between; and so it can where a copy is, whatever has been done with this one, as long as it is not
behind. -/
theorem places_are_true (source : String) (operations : List Operation) :
    let read := ((ofString source).performAll operations).1
    let s := ((ofString source).performAll operations).2
    (read <+: source.toList ∧ s.position.offset = (String.ofList read).utf8ByteSize ∧
      (⟨s.position.offset⟩ : String.Pos.Raw).IsValid source ∧
      s.position.line = read.count '\n' + 1 ∧
      s.position.column = (read.rtakeWhile (· ≠ '\n')).length + 1) ∧
    (s.peek? = source.toList[read.length]? ∧ s.peekSecond? = source.toList[read.length + 1]? ∧
      ∀ operation, (s.perform operation).1 =
        operation.reads (source.toList.drop read.length)) ∧
    (∀ further, let next := s.performAll further
      Cuts source s.position next.2.position next.1 ∧ s.textTo next.2 = String.ofList next.1) ∧
    ∀ others, let copy := (ofString source).performAll others
      s.position.offset ≤ copy.2.position.offset →
        ∃ between, copy.1 = read ++ between ∧ Cuts source s.position copy.2.position between ∧
          s.textTo copy.2 = String.ofList between := by
  intro read s
  have hstart : (ofString source).HasRead source [] := ⟨rfl, rfl, rfl⟩
  have hs : s.HasRead source read := hstart.performAll operations
  refine ⟨⟨⟨s.rest, hs.toList_eq.symm⟩, hs.offset_eq, ?_, ?_, ?_⟩,
    ⟨hs.peek?_eq, hs.peekSecond?_eq, fun operation => ?_⟩,
    fun further => hs.cuts (hs.performAll further), fun others hle => ?_⟩
  · exact hs.offset_eq ▸ isValid_of_append hs.toList_eq
  · rw [hs.position_eq, Position.line_after, Nat.add_comm]
  · rw [hs.position_eq, Position.column_after]
  · rw [perform_eq, hs.drop_eq]
  · have hcopy := hstart.performAll others
    obtain ⟨between, hbetween⟩ := hs.exists_append hcopy hle
    exact ⟨between, hbetween, hs.cuts (hbetween ▸ hcopy)⟩

/-- A letter of two bytes and a line feed, and a copy that goes past both. -/
theorem places_are_true_accentAndLineFeed :
    let s := ((ofString "aé\nbc").performAll [.advance, .peek]).2
    let copy := ((ofString "aé\nbc").performAll
      [.takeWhile (· ≠ '\n'), .eat '\n', .eat '\n', .advance]).2
    s.position = ⟨1, 1, 2⟩ ∧ copy.position = ⟨5, 2, 2⟩ ∧
      s.position.offset ≤ copy.position.offset ∧
      copy.slice s.position copy.position = "é\nb" ∧ s.textTo copy = "é\nb" := by
  intro s copy
  have hplace : s.position = ⟨1, 1, 2⟩ := by decide
  have hcopy : copy.position = ⟨5, 2, 2⟩ := by decide
  have hle : s.position.offset ≤ copy.position.offset := by decide
  obtain ⟨-, -, -, hcopies⟩ := places_are_true "aé\nbc" [.advance, .peek]
  obtain ⟨between, hbetween, hcuts, htext⟩ :=
    hcopies [.takeWhile (· ≠ '\n'), .eat '\n', .eat '\n', .advance] hle
  have hread : ['a', 'é', '\n', 'b'] = ['a'] ++ between := hbetween
  obtain rfl : between = ['é', '\n', 'b'] := (List.cons.inj hread).2.symm
  exact ⟨hplace, hcopy, hle, hcuts.slice_eq copy rfl, htext⟩

end Scanner
end NovelScript
