import NovelScript.Program
import NovelScript.Proofs.Running.Hosts
import NovelScript.Proofs.Running.Structured

/-!
What a console writes. A console that advances by itself goes on whatever it is asked for; what an
event writes is said here once more, apart from the console, and the fonts before it are all that it
depends on. Main statement: all hosts that go on see the same run of a script, and a console writes
what the events of this run write, and nothing else.
-/

namespace NovelScript

open Script (Action Event Font Host Outcome)

/-- The font that an event changes to. -/
def Script.Event.font? : Event → Option Font
  | .font f => some f
  | _ => none

@[simp] theorem Script.Action.events_cons_tell (report : Report) (actions : List Action) :
    (Action.tell report :: actions).filterMap Action.event? = actions.filterMap Action.event? :=
  List.filterMap_cons_none rfl

@[simp] theorem Script.Action.events_cons_ask (event : Event) (actions : List Action) :
    (Action.ask event :: actions).filterMap Action.event? =
      event :: actions.filterMap Action.event? :=
  List.filterMap_cons_some rfl

/-! ### What events write -/

/-- The codes that switch to a style: its colour, as red, green and blue, and then its weight. -/
def Style.codes (style : Style) : List String :=
  (style.foreground.toList.map fun c => "38;2;" ++ toString c.red.toNat ++ ";" ++
    toString c.green.toNat ++ ";" ++ toString c.blue.toNat) ++ if style.bold then ["1"] else []

theorem Style.escapes_eq (style : Style) :
    style.escapes = String.join (style.codes.map fun code => "\x1b[" ++ code ++ "m") := by
  rcases style with ⟨_ | c, _ | _⟩ <;> simp [escapes, codes, ← String.append_assoc]

namespace Console

variable {settings : ConsoleSettings} {style : Style} {event : Event} {events : List Event}
  {written shown : String}

/-- What an event writes in a style. A font writes nothing, but changes the style: see `Renders`. -/
inductive Writes (settings : ConsoleSettings) (style : Style) : Event → String → Prop
  /-- Text is as it is where nothing is coloured, and in the style that a console has by itself. -/
  | plain (text : String) : ¬(settings.color = true ∧ style ≠ {}) →
      Writes settings style (.text text) text
  | styled (text : String) : settings.color = true ∧ style ≠ {} →
      Writes settings style (.text text)
        (String.join (style.codes.map fun code => "\x1b[" ++ code ++ "m") ++ text ++ "\x1b[0m")
  | newLine : Writes settings style .newLine "\n"
  /-- The screen is cleared, and the cursor goes to its first place. -/
  | newPage : Writes settings style .newPage "\x1b[2J\x1b[1;1H"
  | indent (count : Nat) : Writes settings style (.indent count)
      (String.ofList (List.replicate (count * settings.indentWidth) ' '))
  | waitKey : Writes settings style .waitKey ""
  | wait (milliseconds : Int32) : Writes settings style (.wait milliseconds) ""

/-- What events write one after the other, from a style on that the fonts among them change. -/
inductive Renders (settings : ConsoleSettings) : Style → List Event → String → Prop
  | nil (style : Style) : Renders settings style [] ""
  | font {style : Style} {f : Font} {events : List Event} {written : String} :
      Renders settings (style.apply f) events written →
        Renders settings style (.font f :: events) written
  | event {style : Style} {event : Event} {events : List Event} {shown written : String} :
      Writes settings style event shown → Renders settings style events written →
        Renders settings style (event :: events) (shown ++ written)

theorem Writes.unique {other : String} (h : Writes settings style event shown)
    (h' : Writes settings style event other) : other = shown := by
  cases h with
  | plain text hplain =>
    cases h' with
    | plain => rfl
    | styled _ hstyled => exact absurd hstyled hplain
  | styled text hstyled =>
    cases h' with
    | plain _ hplain => exact absurd hstyled hplain
    | styled => rfl
  | _ => cases h'; rfl

/-- Events write one text only. -/
theorem Renders.unique {other : String} (h : Renders settings style events written)
    (h' : Renders settings style events other) : other = written := by
  induction h generalizing other with
  | nil style => cases h'; rfl
  | font _ ih =>
    cases h' with
    | font h' => exact ih h'
    | event h' => cases h'
  | event hshown _ ih =>
    cases h' with
    | font h' => cases hshown
    | event hshown' h' => rw [hshown.unique hshown', ih h']

/-- **A console writes what an event writes** that is no font. -/
theorem writes_render (settings : ConsoleSettings) (style : Style) (h : event.font? = none) :
    Writes settings style event (render event ⟨settings, style⟩) := by
  cases event with
  | text text =>
    rw [render, styled]
    by_cases hstyled : settings.color = true ∧ style ≠ {}
    · rw [if_pos (by simp [hstyled]), Style.escapes_eq]
      exact .styled text hstyled
    · rw [if_neg (by simpa using hstyled)]
      exact .plain text hstyled
  | newLine => exact .newLine
  | waitKey => exact .waitKey
  | newPage => exact .newPage
  | wait milliseconds => exact .wait milliseconds
  | indent count => exact .indent count
  | font f => cases h

theorem after_eq (settings : ConsoleSettings) (style : Style) (event : Event) :
    after event ⟨settings, style⟩ = ⟨settings, event.font?.elim style style.apply⟩ := by
  cases event <;> rfl

/-- What a console writes for an event, and then for others, they write together. -/
theorem Renders.cons_render (event : Event)
    (h : Renders settings (event.font?.elim style style.apply) events written) :
    Renders settings style (event :: events) (render event ⟨settings, style⟩ ++ written) := by
  cases hfont : event.font? with
  | none =>
    rw [hfont] at h
    exact .event (writes_render settings style hfont) h
  | some f =>
    obtain rfl : event = .font f := by
      cases event <;> simp_all [Script.Event.font?]
    rw [show render (.font f) ⟨settings, style⟩ = "" from rfl, String.empty_append]
    exact .font h

end Console

/-! ### The host of a console -/

/-- The world has an output that takes every text that is written, and that nothing else changes. -/
structure World.Prints {σ : Type} (w : World (StateM σ)) (output : σ → String) : Prop where
  write : ∀ text world, output ((w.write text).run world).2 = output world ++ text
  complain : ∀ line world, output ((w.complain line).run world).2 = output world
  sleep : ∀ milliseconds world, output ((w.sleep milliseconds).run world).2 = output world

namespace Program

variable {m : Type → Type} [Monad m] {settings : ConsoleSettings}

/-- Sleeps for as long as an event asks for. -/
def pause (w : World m) (console : Console) : Event → m Unit
  | .wait milliseconds =>
    let time := console.scaledWait milliseconds
    if time = 0 then return () else w.sleep time
  | _ => return ()

/-- What a console that advances by itself does with an action, and the style behind it. -/
def playing (w : World m) (level : LogLevel) (catalog : Catalog) (settings : ConsoleSettings) :
    Action → Style → m Style
  | .tell report, style => do
    showRecord w level (report.record catalog)
    return style
  | .ask event, style => do
    let console : Console := ⟨settings, style⟩
    w.write (console.render event)
    pause w console event
    return event.font?.elim style style.apply

theorem goesOn_host [LawfulMonad m] (w : World m) (level : LogLevel) (catalog : Catalog)
    (hauto : settings.autoAdvance = true) :
    (host w level catalog).GoesOn (Console.mk settings) (playing w level catalog settings) := by
  refine ⟨fun event style => ?_, fun report style => ?_⟩
  · simp only [host, perform, playing, pause]
    cases event with
    | wait milliseconds =>
      by_cases htime : Console.scaledWait milliseconds ⟨settings, style⟩ = 0 <;>
        simp [htime, Console.after_eq]
    | _ => simp [hauto, Console.after_eq]
  · simp [host, playing]

variable {σ : Type} {w : World (StateM σ)} {output : σ → String}

theorem output_pause (h : w.Prints output) (console : Console) (event : Event) (world : σ) :
    output ((pause w console event).run world).2 = output world := by
  cases event with
  | wait milliseconds =>
    unfold pause
    simp only
    split
    · rfl
    · exact h.sleep _ world
  | _ => rfl

theorem output_showRecord (h : w.Prints output) (level : LogLevel) (record : Record) (world : σ) :
    output ((showRecord w level record).run world).2 = output world := by
  unfold showRecord
  split
  · exact h.complain _ world
  · rfl

/-- **What a console writes for actions is what their events write.** -/
theorem output_playAll (h : w.Prints output) (level : LogLevel) (catalog : Catalog)
    (actions : List Action) : ∀ (style : Style) (world : σ), ∃ written,
    Console.Renders settings style (actions.filterMap Action.event?) written ∧
      output ((Action.playAll (playing w level catalog settings) actions style).run world).2 =
        output world ++ written := by
  induction actions with
  | nil => exact fun style world => ⟨"", .nil style, String.append_empty.symm⟩
  | cons action actions ih =>
    intro style world
    cases action with
    | tell report =>
      have hshown := output_showRecord h level (report.record catalog) world
      rw [Action.events_cons_tell, ← hshown]
      exact ih style _
    | ask event =>
      let rendered := ((w.write (Console.render event ⟨settings, style⟩)).run world).2
      have hrendered : output rendered = output world ++ Console.render event ⟨settings, style⟩ :=
        h.write _ world
      have hpaused := output_pause h ⟨settings, style⟩ event rendered
      obtain ⟨written, hrenders, hwritten⟩ := ih (event.font?.elim style style.apply)
        ((pause w ⟨settings, style⟩ event).run rendered).2
      refine ⟨Console.render event ⟨settings, style⟩ ++ written, ?_, ?_⟩
      · rw [Action.events_cons_ask]
        exact hrenders.cons_render event
      · rw [← String.append_assoc, ← hrendered, ← hpaused]
        exact hwritten

end Program

namespace Session

/-- **All hosts see the same run, and a console writes what its events write.** For a script and a
session there are actions that every host which goes on takes part in, one after the other, whatever
its world is; the outcome, the variables and the log are the same for all of them. A host that never
gives a reason to stop goes on, and so does a console that advances by itself. Behind what was
written before, the console writes the one text that the events among the actions write: each text
in the style that the fonts so far have come to, a line feed for a line, what clears the screen for
a page, blanks for an indent, and nothing for a key, a time or a font. -/
theorem exists_plays_rendering (s : Session) (steps : Nat) (source : String) :
    ∃ (actions : List Action) (outcome : Outcome) (after : Session),
      s.Plays steps source actions outcome after ∧
      (∀ {σ : Type} (host : Host (StateM σ)),
        (∀ event world, ((host.perform event).run world).1 = none) → ∀ world,
        (s.execute host steps source).run world =
          ((outcome, after), actions.foldl host.react world)) ∧
      ∀ {σ : Type} (w : World (StateM σ)) (output : σ → String), w.Prints output →
        ∀ (level : LogLevel) (catalog : Catalog) (settings : ConsoleSettings) (style : Style),
        settings.autoAdvance = true → ∀ world,
        let result := ((s.execute (Program.host w level catalog) steps source).run
          ⟨settings, style⟩).run world
        result.1.1 = (outcome, after) ∧
          ∃ written, output result.2 = output world ++ written ∧ ∀ text,
            Console.Renders settings style (actions.filterMap Action.event?) text ↔
              text = written := by
  obtain ⟨actions, outcome, after, hplays⟩ := s.exists_plays steps source
  refine ⟨actions, outcome, after, hplays, fun host h world => hplays.run_eq h world, ?_⟩
  intro σ w output hprints level catalog settings style hauto world
  rw [hplays _ _ _ (Program.goesOn_host w level catalog hauto) style]
  obtain ⟨written, (hrenders : Console.Renders settings _ _ _), hwritten⟩ :=
    Program.output_playAll hprints level catalog actions style world
  exact ⟨rfl, written, hwritten, fun text => ⟨hrenders.unique, fun htext => htext ▸ hrenders⟩⟩

/-- A recorder is left with the events of the actions that it has taken part in. -/
theorem foldl_react_recorder (actions : List Action) : ∀ events : List Event,
    actions.foldl Host.recorder.react events = events ++ actions.filterMap Action.event? := by
  induction actions with
  | nil => exact fun events => (List.append_nil events).symm
  | cons action actions ih =>
    intro events
    rw [List.foldl_cons, ih]
    cases action with
    | tell report =>
      rw [Action.events_cons_tell]
      rfl
    | ask event =>
      rw [Action.events_cons_ask]
      exact List.append_assoc events [event] _

/-- A world that is a sheet of paper. -/
def paper : World (StateM String) where
  namedConfig := none
  userConfig := none
  inputIsTerminal := false
  outputIsTerminal := true
  exists? _ := return false
  fileText _ := return .error .notFound
  inputText := return .error .notFound
  write text := modify (· ++ text)
  complain _ := return ()
  waitKey := return some "no key"
  sleep _ := return ()

/-- A script with two indented texts, a page between them, and texts in several styles. -/
def styledPages : String :=
  "[indent count=\"2\"]a[l][cm][font color=\"#0a0b0c\" bold=\"true\"]b" ++
    "[font bold=\"false\"]c[wait time=\"5\"][resetfont]d[r][if exp=\"1 > 2\"]e[endif]f"

theorem exists_plays_rendering_styledPages :
    let s : Session := {}
    let settings : ConsoleSettings := ⟨3, 100, true, true⟩
    let written := "      a\x1b[2J\x1b[1;1H      \x1b[38;2;10;11;12m\x1b[1mb\x1b[0m" ++
      "\x1b[38;2;10;11;12mc\x1b[0md\nf"
    ∃ (actions : List Action) (outcome : Outcome) (after : Session),
      s.Plays 40 styledPages actions outcome after ∧ outcome = .finished ∧
      actions.filterMap Action.event? = [.indent 2, .text "a", .waitKey, .newPage,
        .font { color := some ⟨10, 11, 12⟩, bold := some true }, .indent 2, .text "b",
        .font { bold := some false }, .text "c", .wait 5, .font {}, .text "d", .newLine,
        .text "f"] ∧
      (((s.execute (Program.host paper .debug {}) 40 styledPages).run
        ⟨settings, {}⟩).run "> ").2 = "> " ++ written ∧
      Console.Renders settings {} (actions.filterMap Action.event?) written := by
  intro s settings written
  obtain ⟨actions, outcome, after, hplays, hhosts, hconsole⟩ :=
    s.exists_plays_rendering 40 styledPages
  have hprints : paper.Prints fun text => text := ⟨fun _ _ => rfl, fun _ _ => rfl, fun _ _ => rfl⟩
  -- what a recorder keeps are the events
  have hrecord := hhosts Host.recorder (fun _ _ => rfl) []
  rw [foldl_react_recorder, List.nil_append] at hrecord
  have hresult : (((s.execute Host.recorder 40 styledPages).run []).1.1,
      ((s.execute Host.recorder 40 styledPages).run []).2) = (.finished, [.indent 2, .text "a",
        .waitKey, .newPage, .font { color := some ⟨10, 11, 12⟩, bold := some true }, .indent 2,
        .text "b", .font { bold := some false }, .text "c", .wait 5, .font {}, .text "d", .newLine,
        .text "f"]) := by decide +kernel
  rw [hrecord] at hresult
  obtain ⟨houtcome, hevents⟩ := Prod.mk.inj hresult
  have houtput : (((s.execute (Program.host paper .debug {}) 40 styledPages).run
      ⟨settings, {}⟩).run "> ").2 = "> " ++ written := by decide +kernel
  obtain ⟨text, htext, hrenders⟩ := (hconsole paper _ hprints .debug {} settings {} rfl "> ").2
  obtain rfl : written = text := String.append_right_inj "> " |>.mp (houtput.symm.trans htext)
  exact ⟨actions, outcome, after, hplays, houtcome, hevents, houtput, (hrenders written).mpr rfl⟩

end Session
end NovelScript
