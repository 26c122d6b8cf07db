import NovelScript.Program.Arguments

/-!
Switches behind the script. What an argument means does not depend on what follows it, with one
exception: a bare `-f` takes the argument behind it for its file as soon as that is not the last
one. Main statement: switches may follow arguments that are accepted, and turn on what they stand
for and nothing else, except behind a script with a bare `-f` before it, which they turn into the
file of that `-f`.
-/

namespace NovelScript

/-- The switch of an argument that is one switch and nothing else. -/
def Switch.ofArgument? : String → Option Switch
  | "-d" | "--debug" => some debug
  | "-q" | "--quiet" => some quiet
  | "-s" | "--strict" => some strict
  | "--dump" => some dump
  | _ => none

/-- Whether a switch is on. -/
def Switches.isOn (switches : Switches) : Switch → Bool
  | .debug => switches.debug
  | .quiet => switches.quiet
  | .strict => switches.strict
  | .dump => switches.dump

theorem Switch.isOn_turnOn (switches : Switches) (s t : Switch) :
    (s.turnOn switches).isOn t = true ↔ switches.isOn t = true ∨ s = t := by
  cases s <;> cases t <;> simp [turnOn, Switches.isOn]

namespace Arguments

variable {argument file next : String} {rest added : List String} {p : Partial}

/-! ### Files of a bare `-f` -/

/-- Whether letters are those of switches with an `f` behind them and nothing behind that. -/
def endsInF : List Char → Bool
  | [] => false
  | c :: cs => if c = 'f' then cs.isEmpty else (Switch.ofLetter? c).isSome && endsInF cs

/-- Whether an argument is a bare `-f`, alone or sharing its dash with switches. -/
def isBareF (argument : String) : Bool :=
  match argument.toList with
  | '-' :: letters => endsInF letters
  | _ => false

/-- Whether an argument takes the one behind it for its file, if more follow. -/
def takesFile (argument file : String) : Bool := isBareF argument && !hasDash file

/-- The open file of arguments: the last one, if the one before it would take it for its file with
more to follow. -/
def openFile? : List String → Option String
  | [argument, file] => if takesFile argument file then some file else none
  | _ :: rest => openFile? rest
  | [] => none

theorem endsInF_iff {cs : List Char} {switches after : Switches} {more : Option (List Char)}
    (h : readLetters cs switches = .ok (after, more)) : endsInF cs = true ↔ more = some [] := by
  induction cs generalizing switches with
  | nil => cases h; simp [endsInF]
  | cons c cs ih =>
    rw [readLetters] at h
    by_cases hf : c = 'f'
    · rw [if_pos hf] at h
      cases h
      simp [endsInF, hf]
    · rw [if_neg hf] at h
      cases hc : Switch.ofLetter? c with
      | none => simp [hc] at h
      | some switch =>
        simp only [hc] at h
        simpa [endsInF, hf, hc] using ih h

theorem isBareF_of_no_letters
    (h : ∀ letter letters, argument.toList ≠ '-' :: letter :: letters) :
    isBareF argument = false := by
  unfold isBareF
  split
  · rename_i letters heq
    cases letters with
    | nil => rfl
    | cons letter letters => exact absurd heq (h letter letters)
  · rfl

theorem isBareF_of_not_hasDash (h : hasDash argument = false) : isBareF argument = false :=
  isBareF_of_no_letters fun letter letters heq => by simp [hasDash, heq] at h

theorem takesFile_of_not_isBareF (h : isBareF argument = false) (rest : List String) :
    rest.head?.any (takesFile argument) = false := by
  simp [Option.any_eq_false_iff_get, takesFile, h]

theorem hasDash_of_takesFile (h : takesFile argument file = true) : hasDash file = false := by
  simp_all [takesFile]

/-! ### One argument and the rest -/

/-- Goes on behind an argument. -/
def readBehind (argument : String) (rest : List String) (q : Partial) :
    Except UsageError Partial :=
  match rest with
  | file :: next :: others =>
    if takesFile argument file then readAll { q with config := .file file } (next :: others)
    else readAll q rest
  | _ => readAll q rest

theorem readBehind_of_not_takesFile (h : rest.head?.any (takesFile argument) = false) :
    readBehind argument rest = (readAll · rest) := by
  funext q
  rcases rest with _ | ⟨file, _ | ⟨next, rest⟩⟩
  · rfl
  · rfl
  · have hfile : takesFile argument file = false := by simpa using h
    simp [readBehind, hfile]

/-- What an argument means shows in what is read of it alone, unless it takes a file. -/
theorem readAll_cons (hmarker : argument ≠ "--") (p : Partial) (rest : List String) :
    readAll p (argument :: rest) = (readAll p [argument]).bind (readBehind argument rest) := by
  have hword : argument.toList ≠ ['-', '-'] := fun h => hmarker (String.toList_injective h)
  rw [readAll, readAll]
  split
  · contradiction
  · rename_i word _ heq
    have hbare : isBareF argument = false := by rw [isBareF, heq]; rfl
    rw [readBehind_of_not_takesFile (takesFile_of_not_isBareF hbare rest)]
    cases Switch.ofWord? (String.ofList word) <;> rfl
  · rename_i letter letters _ _ heq
    have hbare : isBareF argument = endsInF (letter :: letters) := by rw [isBareF, heq]; rfl
    cases hletters : readLetters (letter :: letters) p.switches with
    | error e => rfl
    | ok read =>
      obtain ⟨switches, more⟩ := read
      -- Only if the letters end in an `f` does it matter what follows.
      have hends := endsInF_iff hletters
      match more with
      | none | some (_ :: _) =>
        have hbare : isBareF argument = false := by simpa [hbare] using hends
        rw [readBehind_of_not_takesFile (takesFile_of_not_isBareF hbare rest)]
        rfl
      | some [] =>
        have hbare : isBareF argument = true := hbare.trans (hends.mpr rfl)
        rcases rest with _ | ⟨file, _ | ⟨next, rest⟩⟩
        · rfl
        · rfl
        · show (if hasDash file then _ else _) = if takesFile argument file then _ else _
          cases hfile : hasDash file <;> simp [takesFile, hbare, hfile]
  · rename_i _ _ hletters
    have hbare := isBareF_of_no_letters hletters
    rw [readBehind_of_not_takesFile (takesFile_of_not_isBareF hbare rest)]
    rfl

/-- An argument with no dash is kept as it stands. -/
theorem readAll_of_not_hasDash (h : hasDash file = false) (p : Partial) :
    readAll p [file] = .ok { p with others := p.others ++ [file] } := by
  rw [readAll]
  split <;> simp_all [hasDash, readAll]

/-! ### Arguments behind others -/

/-- Goes on behind arguments. What follows an open file makes it the one of its `-f`. -/
def readFurther (arguments added : List String) (q : Partial) : Except UsageError Partial :=
  match openFile? arguments with
  | some file => readAll { q with config := .file file, others := q.others.dropLast } added
  | none => readAll q added

theorem readFurther_cons (h : ∀ file, rest = [file] → takesFile argument file = false) :
    readFurther (argument :: rest) = readFurther rest := by
  funext added q
  rcases rest with _ | ⟨file, _ | ⟨next, rest⟩⟩
  · rfl
  · simp [readFurther, openFile?, h file rfl]
  · simp [readFurther, openFile?]

/-- Arguments are read as they are alone, and then what follows them. -/
theorem readAll_append (hdash : hasDash next = true) {arguments : List String}
    (hmarker : "--" ∉ arguments) (p : Partial) :
    readAll p (arguments ++ next :: added) =
      (readAll p arguments).bind (readFurther arguments (next :: added)) := by
  -- A file that is taken leaves two arguments fewer, so the induction is on their number.
  induction hlength : arguments.length using Nat.strongRecOn generalizing arguments p with
  | ind n ih =>
  cases arguments with
  | nil => rfl
  | cons argument rest =>
    obtain ⟨hargument, hrest⟩ : argument ≠ "--" ∧ "--" ∉ rest := by
      simpa [eq_comm] using hmarker
    rw [List.cons_append, readAll_cons hargument, readAll_cons hargument p rest]
    cases readAll p [argument] with
    | error e => rfl
    | ok q =>
      show readBehind argument (rest ++ next :: added) q =
        (readBehind argument rest q).bind (readFurther (argument :: rest) (next :: added))
      cases htakes : rest.head?.any (takesFile argument) with
      | false =>
        have htakes' : (rest ++ next :: added).head?.any (takesFile argument) = false := by
          cases rest with
          | nil => simp [takesFile, hdash]
          | cons file rest => exact htakes
        rw [readBehind_of_not_takesFile htakes, readBehind_of_not_takesFile htakes',
          readFurther_cons (fun file hrest => by simpa [hrest] using htakes)]
        exact ih rest.length (by simp [← hlength]) hrest q rfl
      | true =>
        obtain ⟨file, others, rfl⟩ : ∃ file others, rest = file :: others := by
          cases rest with
          | nil => cases htakes
          | cons file others => exact ⟨file, others, rfl⟩
        have htaken : takesFile argument file = true := htakes
        have hfile : hasDash file = false := hasDash_of_takesFile htaken
        cases others with
        | nil =>
          simp [readBehind, htaken, readAll_of_not_hasDash hfile, Except.bind, readFurther,
            openFile?]
        | cons second others =>
          have hbare := takesFile_of_not_isBareF (isBareF_of_not_hasDash hfile) (second :: others)
          have hothers : "--" ∉ second :: others := fun h => hrest (.tail _ h)
          rw [readFurther_cons (by simp), readFurther_cons (fun _ h => by simpa [h] using hbare)]
          simp only [readBehind, List.cons_append, if_pos htaken]
          exact ih (second :: others).length (by simp [← hlength]) hothers _ rfl

/-! ### Switches -/

theorem readAll_switch {s : Switch} (h : Switch.ofArgument? argument = some s) (p : Partial) :
    readAll p [argument] = .ok { p with switches := s.turnOn p.switches } := by
  unfold Switch.ofArgument? at h
  split at h <;> cases h <;> rfl

theorem dashes_of_switch (h : (Switch.ofArgument? argument).isSome) :
    hasDash argument = true ∧ isBareF argument = false ∧ argument ≠ "--" := by
  obtain ⟨s, hs⟩ := Option.isSome_iff_exists.mp h
  unfold Switch.ofArgument? at hs
  split at hs <;> cases hs <;> decide

/-- Switches turn on what they stand for, and change nothing else. -/
theorem readAll_switches (hadded : ∀ argument ∈ added, (Switch.ofArgument? argument).isSome)
    (p : Partial) :
    ∃ switches, readAll p added = .ok { p with switches } ∧ ∀ s, switches.isOn s = true ↔
      p.switches.isOn s = true ∨ ∃ argument ∈ added, Switch.ofArgument? argument = some s := by
  induction added generalizing p with
  | nil => exact ⟨p.switches, rfl, by simp⟩
  | cons argument rest ih =>
    obtain ⟨hargument, hrest⟩ := List.forall_mem_cons.mp hadded
    obtain ⟨-, hbare, hmarker⟩ := dashes_of_switch hargument
    obtain ⟨s, hs⟩ := Option.isSome_iff_exists.mp hargument
    obtain ⟨switches, hread, hon⟩ := ih hrest { p with switches := s.turnOn p.switches }
    refine ⟨switches, ?_, fun t => ?_⟩
    · rw [readAll_cons hmarker, readAll_switch hs,
        readBehind_of_not_takesFile (takesFile_of_not_isBareF hbare rest)]
      exact hread
    · rw [hon, Switch.isOn_turnOn]
      simp [hs, or_assoc]

/-! ### Switches behind the script -/

/-- The arguments `b` say what `a` say, and turn on the switches of `added` besides. -/
structure Adds (added : List String) (a b : Arguments) : Prop where
  config : b.config = a.config
  script : b.script = a.script
  isOn : ∀ s, b.switches.isOn s = true ↔
    a.switches.isOn s = true ∨ ∃ argument ∈ added, Switch.ofArgument? argument = some s

/-- The script among the arguments that are no options. -/
def scriptOf : List String → Except UsageError ScriptSource
  | [] => .error .noScript
  | [script] => .ok (if script = "-" then .stdin else .file script)
  | others => .error (.tooMany others.length)

theorem read_eq (arguments : List String) : read arguments =
    (readAll {} arguments).bind fun p => (scriptOf p.others).map (⟨p.config, p.switches, ·⟩) := by
  rw [read]
  congr 1
  funext p
  rcases p.others with _ | ⟨script, _ | ⟨next, others⟩⟩
  · rfl
  · by_cases hscript : script = "-" <;> simp [scriptOf, hscript, Except.map]
  · simp [scriptOf, Except.map]

theorem exists_of_read {arguments : List String} {a : Arguments} (h : read arguments = .ok a) :
    ∃ p source, readAll {} arguments = .ok p ∧ scriptOf p.others = .ok source ∧
      a = ⟨p.config, p.switches, source⟩ := by
  rw [read_eq] at h
  cases hread : readAll {} arguments with
  | error e => simp [hread, Except.bind] at h
  | ok p =>
    cases hsource : scriptOf p.others with
    | error e => simp [hread, Except.bind, Except.map, hsource] at h
    | ok source =>
      exact ⟨p, source, rfl, hsource, by simpa [hread, Except.bind, Except.map, hsource, eq_comm]
        using h⟩

theorem scriptOf_dropLast {others : List String} {source : ScriptSource}
    (h : scriptOf others = .ok source) : scriptOf others.dropLast = .error .noScript := by
  rcases others with _ | ⟨script, _ | ⟨next, others⟩⟩
  · cases h
  · rfl
  · cases h

section

variable {arguments : List String} {a : Arguments} (h : read arguments = .ok a)
  (hmarker : "--" ∉ arguments) (hadded : ∀ argument ∈ added, (Switch.ofArgument? argument).isSome)
include h hmarker hadded

/-- Switches behind the script turn on what they stand for, and change nothing else. -/
theorem read_switches (hopen : openFile? arguments = none) :
    ∃ b, read (arguments ++ added) = .ok b ∧ Adds added a b := by
  obtain ⟨p, source, hread, hsource, rfl⟩ := exists_of_read h
  obtain ⟨switches, hswitches, hon⟩ := readAll_switches hadded p
  have hall : readAll {} (arguments ++ added) = .ok { p with switches } := by
    cases added with
    | nil => rw [List.append_nil, hread, ← hswitches]; rfl
    | cons next added =>
      have hdash := (dashes_of_switch (hadded next (.head _))).1
      rw [readAll_append hdash hmarker, hread, ← hswitches]
      simp only [Except.bind, readFurther, hopen]
  refine ⟨⟨p.config, switches, source⟩, ?_, rfl, rfl, hon⟩
  rw [read_eq, hall]
  simp only [Except.bind, Except.map, hsource]

/-- Switches behind an open file leave no script. -/
theorem read_switches_openFile (hopen : openFile? arguments ≠ none) (hne : added ≠ []) :
    read (arguments ++ added) = .error .noScript := by
  obtain ⟨next, added, rfl⟩ := List.exists_cons_of_ne_nil hne
  obtain ⟨file, hopen⟩ := Option.ne_none_iff_exists'.mp hopen
  obtain ⟨p, source, hread, hsource, rfl⟩ := exists_of_read h
  have hdash := (dashes_of_switch (hadded next (.head _))).1
  obtain ⟨switches, hswitches, -⟩ := readAll_switches hadded
    { p with config := .file file, others := p.others.dropLast }
  rw [read_eq, readAll_append hdash hmarker, hread]
  simp only [Except.bind, readFurther, hopen, hswitches, scriptOf_dropLast hsource, Except.map]

end

/-- **Switches may follow the script**, unless they follow an open file: they turn on what they
stand for and change nothing else. Behind an open file they leave no script. -/
theorem switches_follow_iff {arguments added : List String} {a : Arguments}
    (h : read arguments = .ok a) (hmarker : "--" ∉ arguments)
    (hadded : ∀ argument ∈ added, (Switch.ofArgument? argument).isSome) :
    ((∃ b, read (arguments ++ added) = .ok b ∧ Adds added a b) ↔
      (openFile? arguments = none ∨ added = [])) ∧
    (openFile? arguments ≠ none → added ≠ [] →
      read (arguments ++ added) = .error .noScript) := by
  have hfails := read_switches_openFile h hmarker hadded
  refine ⟨⟨fun ⟨b, hread, _⟩ => ?_, ?_⟩, hfails⟩
  · refine Classical.byContradiction fun hnone => ?_
    obtain ⟨hopen, hne⟩ := not_or.mp hnone
    cases hread.symm.trans (hfails hopen hne)
  · rintro (hopen | rfl)
    · exact read_switches h hmarker hadded hopen
    · exact ⟨a, by rwa [List.append_nil], rfl, rfl, by simp⟩

theorem switches_follow_iff_bareF :
    (read ["-sf", "--dump", "x"] = .ok ⟨.skip, { strict := true, dump := true }, .file "x"⟩ ∧
      ∃ b, read (["-sf", "--dump", "x"] ++ ["-d", "--quiet"]) = .ok b ∧
        Adds ["-d", "--quiet"] ⟨.skip, { strict := true, dump := true }, .file "x"⟩ b) ∧
    read ["-f", "x"] = .ok ⟨.skip, {}, .file "x"⟩ ∧
      read (["-f", "x"] ++ ["-d"]) = .error .noScript := by
  have hdump : read ["-sf", "--dump", "x"] =
      .ok ⟨.skip, { strict := true, dump := true }, .file "x"⟩ := rfl
  have hfile : read ["-f", "x"] = .ok ⟨.skip, {}, .file "x"⟩ := rfl
  have htwo : ∀ argument ∈ ["-d", "--quiet"], (Switch.ofArgument? argument).isSome :=
    List.all_eq_true.mp (by decide)
  have hone : ∀ argument ∈ ["-d"], (Switch.ofArgument? argument).isSome :=
    List.all_eq_true.mp (by decide)
  have hlater := switches_follow_iff hdump (by decide) htwo
  have hopen := switches_follow_iff hfile (by decide) hone
  exact ⟨⟨hdump, hlater.1.mpr (.inl (by decide))⟩, hfile, hopen.2 (by decide) (by decide)⟩

/-- A bare `-f` may lead to the script until a switch follows it. -/
theorem not_switches_follow :
    ¬ ∀ (arguments added : List String) (a : Arguments), read arguments = .ok a →
      "--" ∉ arguments → (∀ argument ∈ added, (Switch.ofArgument? argument).isSome) →
      ∃ b, read (arguments ++ added) = .ok b ∧ Adds added a b := by
  intro hclaim
  obtain ⟨b, hread, -⟩ := hclaim ["-f", "x"] ["-d"] ⟨.skip, {}, .file "x"⟩ rfl (by decide)
    (List.all_eq_true.mp (by decide))
  have hfails : read (["-f", "x"] ++ ["-d"]) = .error .noScript := rfl
  cases hfails.symm.trans hread

end Arguments
end NovelScript
