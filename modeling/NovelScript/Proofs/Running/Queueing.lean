import Mathlib.Data.List.Find
import NovelScript.Script.Queue

/-!
Operations on a queue. Commands are added and taken in any order, and between them the cursor is
moved and commands are looked for. Main statement: whatever has been done to a new queue, its cursor
is at one of its commands or behind the last, every command that was added is found under its number,
what is taken until the cursor is moved has numbers one after the other, and the two ways to look for
commands of a kind agree.
-/

namespace NovelScript.Script

/-- What can be done to a queue. -/
inductive Operation
  | enqueue (command : Command)
  | dequeue
  | seek (target : CommandId)
  | rewind
  | findAll (kind : CommandKind)
  | findNext (kind : CommandKind)
  | each
  | get (id : CommandId)

/-- What an operation gives. -/
inductive Answer
  | added (id : CommandId)
  | taken (command? : Option (CommandId × Command))
  | sought (found : Bool)
  | rewound
  | foundAll (ids : List CommandId)
  | foundNext (id? : Option CommandId)
  /-- All commands with their numbers, in the order of the visit. -/
  | visited (commands : List (Command × CommandId))
  | got (command? : Option Command)
deriving DecidableEq

/-- The commands that an operation adds. -/
def Operation.adds : Operation → List Command
  | enqueue command => [command]
  | _ => []

/-- The numbers that were given to added commands. -/
def Answer.addedIds : Answer → List CommandId
  | added id => [id]
  | _ => []

/-- The numbers of the commands that were taken. -/
def Answer.takenIds : Answer → List CommandId
  | taken (some (id, _)) => [id]
  | _ => []

namespace Queue

/-- What an operation gives, and the queue behind it. -/
def perform (q : Queue) : Operation → Answer × Queue
  | .enqueue command => let (id, after) := q.enqueue command; (.added id, after)
  | .dequeue =>
    match q.dequeue? with
    | some (command, after) => (.taken (some command), after)
    | none => (.taken none, q)
  | .seek target =>
    match q.seek? target with
    | some after => (.sought true, after)
    | none => (.sought false, q)
  | .rewind => (.rewound, q.rewind)
  | .findAll kind => (.foundAll (q.findAll kind), q)
  | .findNext kind => (.foundNext (q.findNext? kind), q)
  | .each => (.visited q.commands.toList.zipIdx, q)
  | .get id => (.got (q.get? id), q)

/-- What operations give one after the other, and the queue behind them. -/
def performAll (q : Queue) : List Operation → List Answer × Queue
  | [] => ([], q)
  | operation :: rest =>
    let (answer, after) := q.perform operation
    let (answers, last) := after.performAll rest
    (answer :: answers, last)

variable {q after : Queue} {operation : Operation} {answer : Answer} {added : List Command}
  {c : Command} {id : CommandId}

/-! ### One operation -/

theorem get?_eq_none_iff : q.get? id = none ↔ q.size ≤ id := Array.getElem?_eq_none_iff

theorem perform_dequeue_of_get? (h : q.get? q.cursor = some c) :
    q.perform .dequeue = (.taken (some (q.cursor, c)), { q with cursor := q.cursor + 1 }) := by
  simp [perform, dequeue?, h]

/-- Nothing is taken at the end. -/
theorem perform_dequeue_of_le (h : q.size ≤ q.cursor) : q.perform .dequeue = (.taken none, q) := by
  simp [perform, dequeue?, get?_eq_none_iff.mpr h]

theorem perform_seek_of_lt (h : id < q.size) :
    q.perform (.seek id) = (.sought true, { q with cursor := id }) := by
  simp [perform, seek?, h]

/-- The cursor does not move to a command that there is not. -/
theorem perform_seek_of_le (h : q.size ≤ id) : q.perform (.seek id) = (.sought false, q) := by
  simp [perform, seek?, Nat.not_lt.mpr h]

/-- What an operation does to a queue. -/
inductive Does (q : Queue) : Operation → Answer × Queue → Prop
  | add (c : Command) :
      Does q (.enqueue c) (.added q.size, { q with commands := q.commands.push c })
  | take {c : Command} : q.get? q.cursor = some c →
      Does q .dequeue (.taken (some (q.cursor, c)), { q with cursor := q.cursor + 1 })
  | seek {id : CommandId} : id < q.size →
      Does q (.seek id) (.sought true, { q with cursor := id })
  | rewind : Does q .rewind (.rewound, { q with cursor := 0 })
  | nothing {operation : Operation} {answer : Answer} :
      operation.adds = [] → answer.addedIds = [] → answer.takenIds = [] →
        Does q operation (answer, q)

theorem does_perform (q : Queue) (operation : Operation) :
    q.Does operation (q.perform operation) := by
  cases operation with
  | enqueue c => exact .add c
  | dequeue =>
    cases hc : q.get? q.cursor with
    | none =>
      rw [perform_dequeue_of_le (get?_eq_none_iff.mp hc)]
      exact .nothing rfl rfl rfl
    | some c =>
      rw [perform_dequeue_of_get? hc]
      exact .take hc
  | seek id =>
    rcases Nat.lt_or_ge id q.size with hlt | hge
    · rw [perform_seek_of_lt hlt]
      exact .seek hlt
    · rw [perform_seek_of_le hge]
      exact .nothing rfl rfl rfl
  | rewind => exact .rewind
  | findAll kind | findNext kind | each | get id => exact .nothing rfl rfl rfl

/-- A queue holds what was added, with the cursor at one of the commands or behind the last. -/
structure Holds (q : Queue) (added : List Command) : Prop where
  commands : q.commands.toList = added
  cursor_le : q.cursor ≤ q.size

/-- **One operation** leaves every command in its place. -/
theorem Holds.does (h : q.Holds added) (hdoes : q.Does operation (answer, after)) :
    after.Holds (added ++ operation.adds) := by
  cases hdoes with
  | add c =>
    have hsize : (q.commands.push c).size = q.size + 1 := Array.size_push c
    exact ⟨Array.toList_push.trans (congrArg (· ++ [c]) h.commands),
      (Nat.le_succ_of_le h.cursor_le).trans_eq hsize.symm⟩
  | take hc =>
    exact ⟨h.commands.trans (List.append_nil _).symm, (Array.getElem?_eq_some_iff.mp hc).1⟩
  | seek hid => exact ⟨h.commands.trans (List.append_nil _).symm, Nat.le_of_lt hid⟩
  | rewind => exact ⟨h.commands.trans (List.append_nil _).symm, Nat.zero_le _⟩
  | nothing hadds => rwa [hadds, List.append_nil]

/-- A command is added under the next number. -/
theorem Does.addedIds (hdoes : q.Does operation (answer, after)) :
    answer.addedIds = List.range' q.size operation.adds.length ∧
      after.size = q.size + operation.adds.length := by
  cases hdoes with
  | add c => exact ⟨rfl, Array.size_push c⟩
  | nothing hadds hadded => rw [hadds, hadded]; exact ⟨rfl, rfl⟩
  | _ => exact ⟨rfl, rfl⟩

/-- What is taken has the number of the cursor, which moves past it. Only a seek that finds its
command, or a rewind, moves the cursor otherwise. -/
theorem Does.takenIds (hdoes : q.Does operation (answer, after)) (hseek : answer ≠ .sought true)
    (hrewind : answer ≠ .rewound) :
    ∃ n, answer.takenIds = List.range' q.cursor n ∧ after.cursor = q.cursor + n := by
  cases hdoes with
  | add c => exact ⟨0, rfl, rfl⟩
  | take hc => exact ⟨1, rfl, rfl⟩
  | seek hid => exact absurd rfl hseek
  | rewind => exact absurd rfl hrewind
  | nothing _ _ htaken => exact ⟨0, htaken, rfl⟩

/-! ### Many operations -/

/-- **All operations** leave every command in its place. -/
theorem Holds.performAll (h : q.Holds added) (operations : List Operation) :
    (q.performAll operations).2.Holds (added ++ operations.flatMap fun o => o.adds) := by
  induction operations generalizing q added with
  | nil => exact (List.append_nil _).symm ▸ h
  | cons operation rest ih =>
    rw [List.flatMap_cons, ← List.append_assoc]
    exact ih (h.does (does_perform q operation))

/-- Commands get their numbers in the order in which they are added. -/
theorem addedIds_performAll (operations : List Operation) (q : Queue) :
    ((q.performAll operations).1.flatMap fun a => a.addedIds) =
      List.range' q.size (operations.flatMap fun o => o.adds).length := by
  induction operations generalizing q with
  | nil => rfl
  | cons operation rest ih =>
    obtain ⟨hadded, hsize⟩ := (does_perform q operation).addedIds
    rw [List.flatMap_cons, List.length_append, ← List.range'_append_1, ← hsize, ← hadded]
    exact congrArg (_ ++ ·) (ih _)

/-- What is taken until the cursor is moved has numbers one after the other. -/
theorem takenIds_performAll (operations : List Operation) (q : Queue)
    (hseek : .sought true ∉ (q.performAll operations).1)
    (hrewind : .rewound ∉ (q.performAll operations).1) :
    ∃ n, ((q.performAll operations).1.flatMap fun a => a.takenIds) = List.range' q.cursor n ∧
      (q.performAll operations).2.cursor = q.cursor + n := by
  induction operations generalizing q with
  | nil => exact ⟨0, rfl, rfl⟩
  | cons operation rest ih =>
    obtain ⟨hsought, hseek⟩ := not_or.mp (mt List.mem_cons.mpr hseek)
    obtain ⟨hrewound, hrewind⟩ := not_or.mp (mt List.mem_cons.mpr hrewind)
    obtain ⟨n, htaken, hcursor⟩ :=
      (does_perform q operation).takenIds (Ne.symm hsought) (Ne.symm hrewound)
    obtain ⟨m, hrest, hlast⟩ := ih _ hseek hrewind
    refine ⟨n + m, ?_, ?_⟩
    · rw [← List.range'_append_1, ← htaken, ← hcursor]
      exact congrArg (_ ++ ·) hrest
    · rw [← Nat.add_assoc, ← hcursor]
      exact hlast

/-! ### Looking for commands -/

theorem mem_findAll {kind : CommandKind} :
    id ∈ q.findAll kind ↔ ∃ c, q.get? id = some c ∧ c.kind = kind := by
  rw [findAll, List.mem_filter, List.mem_range, decide_eq_true_iff, Option.map_eq_some_iff,
    and_iff_right_iff_imp]
  rintro ⟨c, hc, -⟩
  exact (Array.getElem?_eq_some_iff.mp hc).1

/-- The next command of a kind is the first of all that the cursor has not passed. -/
theorem findNext?_eq_find? (h : q.cursor ≤ q.size) (kind : CommandKind) :
    q.findNext? kind = (q.findAll kind).find? (q.cursor ≤ ·) := by
  have hsplit : List.range q.size =
      List.range' 0 q.cursor ++ List.range' q.cursor (q.size - q.cursor) := by
    rw [List.range_eq_range', ← Nat.add_sub_of_le h, ← List.range'_append_1, Nat.zero_add,
      Nat.add_sub_cancel_left]
  have hpassed : (List.range' 0 q.cursor).find? (fun id =>
      decide (decide ((q.get? id).map Command.kind = some kind) = true ∧
        decide (q.cursor ≤ id) = true)) = none := by
    refine List.find?_eq_none.mpr fun id hid hmatch => ?_
    have hlt := (List.mem_range'_1.mp hid).2
    have hle : q.cursor ≤ id := of_decide_eq_true (of_decide_eq_true hmatch).2
    omega
  rw [findAll, List.find?_filter, hsplit, List.find?_append, hpassed, Option.none_or, findNext?]
  refine List.find?_congr fun id hid => ?_
  simp [(List.mem_range'_1.mp hid).1]

theorem pairwise_findAll (q : Queue) (kind : CommandKind) :
    (q.findAll kind).Pairwise (· < ·) := List.pairwise_lt_range.filter _

theorem Holds.get? (h : q.Holds added) (id : CommandId) : q.get? id = added[id]? := by
  rw [← h.commands, Array.getElem?_toList]
  rfl

/-- **Operations keep a queue in order.** Whatever has been done to a new queue, its cursor is not
behind its end, and the commands that were added have the numbers from zero on in the order in which
they were added, now and after whatever is done next. At the end nothing is taken, and a command that
there is not is not found, and both change nothing; before the end, the command at the cursor is
taken. What is taken next has numbers one after the other until a command is sought and found, or the
cursor goes back to the first. The commands of a kind are listed in order, and the next one is the
first in the list that the cursor has not passed. -/
theorem operations_keep_order (before more : List Operation) :
    let q := (performAll {} before).2
    let later := q.performAll more
    q.cursor ≤ q.size ∧
    q.commands.toList = (before.flatMap fun o => o.adds) ∧
    ((performAll {} before).1.flatMap fun a => a.addedIds) = List.range q.size ∧
    (∀ id c, q.get? id = some c → later.2.get? id = some c) ∧
    (q.cursor = q.size → q.perform .dequeue = (.taken none, q)) ∧
    (∀ c, q.get? q.cursor = some c → q.perform .dequeue =
      (.taken (some (q.cursor, c)), { q with cursor := q.cursor + 1 })) ∧
    (∀ id, q.get? id = none → q.perform (.seek id) = (.sought false, q)) ∧
    (.sought true ∉ later.1 → .rewound ∉ later.1 →
      ∃ n, (later.1.flatMap fun a => a.takenIds) = List.range' q.cursor n ∧
        later.2.cursor = q.cursor + n) ∧
    ∀ kind, (∀ id, id ∈ q.findAll kind ↔ ∃ c, q.get? id = some c ∧ c.kind = kind) ∧
      (q.findAll kind).Pairwise (· < ·) ∧
      q.findNext? kind = (q.findAll kind).find? (q.cursor ≤ ·) := by
  intro q later
  have hq : q.Holds (before.flatMap fun o => o.adds) :=
    Holds.performAll ⟨rfl, Nat.le_refl _⟩ before
  have hlater := hq.performAll more
  refine ⟨hq.cursor_le, hq.commands, ?_, fun id c hc => ?_,
    fun hend => perform_dequeue_of_le hend.ge, fun c hc => perform_dequeue_of_get? hc,
    fun id hid => perform_seek_of_le (get?_eq_none_iff.mp hid), takenIds_performAll more q,
    fun kind => ⟨fun id => mem_findAll, pairwise_findAll q kind,
      findNext?_eq_find? hq.cursor_le kind⟩⟩
  · rw [addedIds_performAll before {}, ← hq.commands, List.range_eq_range']
    rfl
  · rw [hq.get?] at hc
    rw [hlater.get?, List.getElem?_append_left (List.getElem?_eq_some_iff.mp hc).1, hc]

/-- The end is reached once and goes further off, and what is sought in between is not found. -/
theorem operations_keep_order_endReached :
    let before : List Operation := [.enqueue .newLine, .enqueue .waitKey, .seek 1, .dequeue, .dequeue]
    let more : List Operation := [.dequeue, .enqueue .newLine, .dequeue, .seek 7, .enqueue .newPage,
      .findNext .newLine, .dequeue, .dequeue]
    let q := (performAll {} before).2
    let later := q.performAll more
    q.cursor = q.size ∧ .sought true ∉ later.1 ∧ .rewound ∉ later.1 ∧
      q.perform .dequeue = (.taken none, q) ∧ q.perform (.seek 7) = (.sought false, q) ∧
      q.get? 1 = some .waitKey ∧ later.2.get? 1 = some .waitKey ∧
      (later.1.flatMap fun a => a.takenIds) = [2, 3] ∧
      q.findAll .newLine = [0] ∧ q.findNext? .newLine = none := by
  intro before more q later
  have hend : q.cursor = q.size := by decide
  have hseek : .sought true ∉ later.1 := by decide
  have hrewind : .rewound ∉ later.1 := by decide
  have hwait : q.get? 1 = some .waitKey := by decide
  have hlines : q.findAll .newLine = [0] := by decide
  obtain ⟨-, -, -, hstays, hnone, -, hmissing, htaken, hkinds⟩ := operations_keep_order before more
  obtain ⟨n, hn, hcursor⟩ := htaken hseek hrewind
  have hmoved : (4 : Nat) = 2 + n := hcursor
  obtain rfl : n = 2 := by omega
  have hnext := (hkinds .newLine).2.2
  rw [hlines] at hnext
  exact ⟨hend, hseek, hrewind, hnone hend, hmissing 7 (by decide), hwait, hstays 1 _ hwait, hn,
    hlines, hnext⟩

end Queue
end NovelScript.Script
