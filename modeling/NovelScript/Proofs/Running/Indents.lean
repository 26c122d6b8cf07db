import NovelScript.Proofs.Reading.LineStarts
import NovelScript.Proofs.Running.Asking
import NovelScript.Proofs.Running.Safety

/-!
Indents of running scripts. Where lines start is decided when a script is read, from its commands as
they stand one behind the other; a run leaves out what stands in the branches that are not taken,
and jumps. Main statement: an indent is asked for where no run of text has been printed since the
last new line or page, unless a jump or the choice of a branch has meanwhile led from behind text to
the start of another line of the script.
-/

namespace NovelScript

namespace Script

variable {σ : Type} {q : Queue} {machine after m : Machine} {n : Nat} {event? : Option Event}

/-! ### Steps -/

namespace Machine

/-- The next step leads on to the next command, if it takes no turn. -/
theorem cursor_next?_straight {c : Command}
    (hc : machine.script.queue.get? machine.cursor = some c) (hstraight : c.isTurn = false)
    (h : machine.next? = some (event?, after)) : after.cursor = machine.cursor + 1 := by
  rw [cursor_next? hc h]
  have heffect : (machine.told.execute machine.cursor c).1 = .nothing ∨
      ∃ event, (machine.told.execute machine.cursor c).1 = .ask event := by
    cases c with
    | endIf => exact .inl rfl
    | jump _ | «if» _ _ | elif _ | «else» => cases hstraight
    | _ => exact execute_plain rfl (by simp) _ _
  rcases heffect with heffect | ⟨event, heffect⟩ <;> rw [heffect] <;> rfl

/-- Only an indent asks for one. -/
theorem get?_of_asked?_indent {count : Nat} (h : machine.asked? = some (.indent count)) :
    machine.script.queue.get? machine.cursor = some (.indent count) := by
  obtain ⟨c, hc, hasks⟩ := exists_of_asked? h
  cases c <;> simp_all [Command.asks]

/-- The step takes a turn, and leads from behind text to the start of a line of the script. -/
structure Skips (q : Queue) (machine : Machine) : Prop where
  turn : ∃ c, machine.script.queue.get? machine.cursor = some c ∧ c.isTurn = true
  behindText : q.startsLine machine.cursor = false
  lineStart : ∃ event? after, machine.next? = some (event?, after) ∧
    q.startsLine after.cursor = true

/-- The step begins a line: it asks for one or for a page, or it skips to one. -/
def Breaks (q : Queue) (machine : Machine) : Prop :=
  machine.asked? = some .newLine ∨ machine.asked? = some .newPage ∨ machine.Skips q

/-- The step prints no run of text. -/
def Quiet (machine : Machine) : Prop :=
  ∀ text, machine.script.queue.get? machine.cursor ≠ some (.printText text)

theorem startsLine_agrees {k : Nat} {c : Command} {q' : Queue} (ha : q.Agrees q' q.size)
    (hc : q'.get? k = some c) :
    q.startsLine (k + 1) = Builder.lineStartAfter (q.startsLine k) c := by
  rcases ha.waits k with heq | ⟨time, time', htime, htime'⟩
  · exact Queue.startsLine_succ (heq ▸ hc)
  · obtain rfl := Option.some.inj (htime'.symm.trans hc)
    exact (Queue.startsLine_succ htime).trans rfl

/-- **One step**: behind it a line starts only if it begins one, or if one started before it and no
text is printed. -/
theorem breaks_or_quiet (ha : q.Agrees machine.script.queue q.size)
    (h : machine.next? = some (event?, after)) (hline : q.startsLine after.cursor = true) :
    machine.Breaks q ∨ machine.Quiet ∧ q.startsLine machine.cursor = true := by
  obtain ⟨c, hc, hevent, -⟩ := exists_of_next? h
  by_cases hturn : c.isTurn = true
  · cases hbefore : q.startsLine machine.cursor with
    | false => exact .inl (.inr (.inr ⟨⟨c, hc, hturn⟩, hbefore, event?, after, h, hline⟩))
    | true =>
      refine .inr ⟨fun text htext => ?_, rfl⟩
      obtain rfl := Option.some.inj (hc.symm.trans htext)
      cases hturn
  · rw [cursor_next?_straight hc (by simpa using hturn) h, startsLine_agrees ha hc] at hline
    have hasked := (asked?_of_next? h).trans hevent
    cases c with
    | printText text => cases hline
    | newLine => exact .inl (.inl hasked)
    | newPage => exact .inl (.inr (.inl hasked))
    | _ => exact .inr ⟨by simp [Quiet, hc], hline⟩

end Machine

/-! ### Runs -/

/-- Looking back from the last of them, all are quiet up to one that breaks, or up to the first. -/
def QuietSince {α : Type} (breaks quiet : α → Prop) : List α → Prop
  | [] => True
  | last :: earlier => breaks last ∨ quiet last ∧ QuietSince breaks quiet earlier

namespace Machine

/-- **A run**: a machine whose command is at the start of a line has printed no text since a line
began. -/
theorem quietSince_of_startsLine (ha : q.Agrees machine.script.queue q.size) (before : List Machine) :
    ∀ {m : Machine} {rest : List Machine}, machine.visited n = before ++ m :: rest →
      q.startsLine m.cursor = true → QuietSince (Breaks q) Quiet before.reverse := by
  induction before using List.reverseRecOn with
  | nil => exact fun _ _ => trivial
  | append_singleton before x ih =>
    intro m rest hvisited hline
    have hvisited' : machine.visited n = before ++ x :: m :: rest := by
      rw [hvisited, List.append_assoc, List.singleton_append]
    have hchain := isChain_visited n machine
    rw [hvisited'] at hchain
    obtain ⟨event?, hnext⟩ := (List.isChain_append_cons_cons.mp hchain).2.1
    have hx : q.Agrees x.script.queue q.size := agrees_visited ha (n := n) (by simp [hvisited'])
    rw [List.reverse_append, List.reverse_singleton, List.singleton_append]
    rcases breaks_or_quiet hx hnext hline with hbreaks | ⟨hquiet, hbefore⟩
    · exact .inl hbreaks
    · exact .inr ⟨hquiet, ih hvisited' hbefore⟩

end Machine

/-- **Indents are asked for at the start of a line**, as far as texts are concerned that stand in
the script. A script that is executed by whoever never stops it asks for what the machines visited
ask for; and when one of them asks for an indent, those before it have printed no run of text since
the last new line or page, or since the beginning, unless a jump or the choice of a branch has
meanwhile led from behind text to the start of another line. -/
theorem indents_start_lines {source : String} {s : Session} {tokens : List Token}
    (hok : Script.tokens source = .ok tokens) (hruns : ¬ s.Rejects source) (n : Nat) :
    let script := (ofTokens s.bindings.names tokens).1
    let machine : Machine := { script, heap := s.heap }
    (∀ {σ : Type} (host : Host (StateM σ)) (events : σ → List Event), host.Records events →
      ∀ world, events ((s.execute host n source).run world).2 =
        events world ++ (machine.visited n).filterMap Machine.asked?) ∧
    ∀ before m rest, machine.visited n = before ++ m :: rest →
      ∀ count, m.asked? = some (.indent count) →
        QuietSince (Machine.Breaks script.queue) Machine.Quiet before.reverse := by
  intro script machine
  refine ⟨fun host events h world => h.execute hok hruns n world, ?_⟩
  intro before m rest hvisited count hasked
  have ha : script.queue.Agrees machine.script.queue script.queue.size := .refl _ _
  have hm : script.queue.Agrees m.script.queue script.queue.size :=
    Machine.agrees_visited ha (n := n) (by simp [hvisited])
  have hindent : script.queue.get? m.cursor = some (.indent count) :=
    hm.symm.get?_eq (Machine.get?_of_asked?_indent hasked) (by simp)
  exact Machine.quietSince_of_startsLine ha before hvisited
    (indented_ofTokens s.bindings.names tokens m.cursor count hindent)

/-- A script with a new line in a branch that is not taken. -/
def lineNotTaken : String := "[indent]a[if exp=\"false\"][r][endif]b"

theorem events_lineNotTaken : ((Session.execute Host.recorder 8 lineNotTaken {}).run []).2 =
    [.indent 1, .text "a", .indent 1, .text "b"] := by decide +kernel

theorem indents_start_lines_lineNotTaken :
    let s : Session := {}
    ∃ tokens, Script.tokens lineNotTaken = .ok tokens ∧ ¬ s.Rejects lineNotTaken ∧
      let script := (ofTokens s.bindings.names tokens).1
      let machine : Machine := { script, heap := s.heap }
      (machine.visited 8).filterMap Machine.asked? =
        [.indent 1, .text "a", .indent 1, .text "b"] ∧
      ∀ before m rest, machine.visited 8 = before ++ m :: rest →
        ∀ count, m.asked? = some (.indent count) →
          QuietSince (Machine.Breaks script.queue) Machine.Quiet before.reverse := by
  intro s
  obtain ⟨tokens, hok, hsound⟩ : ∃ tokens, Script.tokens lineNotTaken = .ok tokens ∧
      (ofTokens s.bindings.names tokens).1.structuralErrors = 0 := by
    refine ⟨_, rfl, ?_⟩
    decide +kernel
  have hruns : ¬ s.Rejects lineNotTaken := by
    rintro ⟨tokens', hok', hbroken | ⟨hstrict, -⟩⟩
    · obtain rfl := Except.ok.inj (hok.symm.trans hok')
      omega
    · cases hstrict
  obtain ⟨hevents, hindents⟩ := indents_start_lines hok hruns 8
  refine ⟨tokens, hok, hruns, ?_, hindents⟩
  exact (hevents Host.recorder id records_recorder []).symm.trans events_lineNotTaken

/-- An indent may be asked for behind text, on the line where it was printed. -/
theorem not_indents_start_lines :
    ¬ ∀ (source : String) (s : Session) (n : Nat) (before : List Event) (count : Nat)
      (rest : List Event),
      ((s.execute Host.recorder n source).run []).2 = before ++ .indent count :: rest →
        QuietSince (fun event => event = .newLine ∨ event = .newPage)
          (fun event => ∀ text, event = .text text → text.isEmpty = true) before.reverse := by
  intro hclaim
  have hquiet := hclaim lineNotTaken {} 8 [.indent 1, .text "a"] 1 [.text "b"] events_lineNotTaken
  rcases hquiet with hbreaks | ⟨hempty, -⟩
  · simp at hbreaks
  · exact absurd (hempty "a" rfl) (by decide)

end Script
end NovelScript
