import Mathlib.Data.List.Forall2
import NovelScript.Proofs.Running.Asking

/-!
Diagnostics do not influence a run. A run reports what is the case, and only the log has it in
words; so the wording of messages, and what the log says already, make no difference to what is
executed. Main statement: two sessions with the same variables and the same strictness execute a
script in the same way, and what their logs gain agrees in all but the words.
-/

namespace NovelScript

open Script (Host Outcome entriesOf)

/-! ### Entries in different words -/

/-- Two entries are the same in all but the words. -/
def Entry.Agrees (e₁ e₂ : Entry) : Prop :=
  e₁.severity = e₂.severity ∧ e₁.position = e₂.position

/-- The wording of messages decides neither which reports are entries nor how serious they are. -/
theorem Report.entry?_agrees (c₁ c₂ : Catalog) (r : Report) :
    Option.Rel Entry.Agrees (Record.entry? (r.record c₁)) (Record.entry? (r.record c₂)) := by
  cases r with
  | finding f position => exact .some ⟨rfl, rfl⟩
  | malformed e => exact .some ⟨rfl, rfl⟩
  | _ => exact .none

theorem Script.entriesOf_agree (c₁ c₂ : Catalog) (reports : List Report) :
    List.Forall₂ Entry.Agrees (entriesOf c₁ reports) (entriesOf c₂ reports) := by
  refine List.rel_filterMap (R := Eq) ?_ (List.forall₂_same.mpr fun _ _ => rfl)
  rintro r _ rfl
  exact Report.entry?_agrees c₁ c₂ r

namespace Session

/-! ### Two executions as one -/

/-- The session when a script has been executed that left these variables and reported this. -/
def behind (s : Session) (heap : Expr.Heap) (reports : List Report) : Session :=
  { s with heap, log := s.log.addReports s.catalog reports }

/-- Sessions with these variables and this strictness execute a script alike: the outcome, the
variables and the reports come from one run, in which the log and the catalog have no part. -/
theorem exists_execute_eq {m : Type → Type} [Monad m] [LawfulMonad m] (host : Host m)
    (steps : Nat) (source : String) (heap : Expr.Heap) (strict : Bool) :
    ∃ run : m (Outcome × Expr.Heap × List Report),
      ∀ s : Session, s.heap = heap → s.strict = strict →
        s.execute host steps source =
          (fun (outcome, heap, reports) => (outcome, s.behind heap reports)) <$> run := by
  obtain ⟨reports, result, hread⟩ : ∃ reports result, ∀ s : Session, s.heap = heap →
      s.read source = (reports, result) :=
    ⟨(read source { heap }).1, (read source { heap }).2, fun s hheap => by rw [← hheap]; rfl⟩
  cases result with
  | error e =>
    refine ⟨do
      (reports ++ [Report.malformed e]).forM host.tell
      return (.malformed e, heap, reports ++ [.malformed e]), fun s hheap _ => ?_⟩
    simp [execute, hread s hheap, tell, addReports, behind, ← hheap]
  | ok script =>
    by_cases hrejects : 0 < script.structuralErrors ∨ strict = true ∧ 0 < errorCount reports
    · refine ⟨do
        reports.forM host.tell
        return (.rejected (errorCount reports), heap, reports), fun s hheap hstrict => ?_⟩
      rw [← hstrict] at hrejects
      simp [execute, hread s hheap, tell, addReports, behind, ← hheap, hrejects]
    · refine ⟨do
        reports.forM host.tell
        host.tell (.running script.queue.size)
        let ran ← Script.Machine.run host steps { script, heap } #[]
        return (ran.1, ran.2.1.heap, reports ++ .running script.queue.size :: ran.2.2.toList),
        fun s hheap hstrict => ?_⟩
      rw [← hstrict] at hrejects
      simp [execute, hread s hheap, tell, run, addReports, Log.addReports, behind, ← hheap,
        hrejects]

/-- What is left of two sessions: the same variables, and two logs that have gained entries which
agree one by one in all but the words. -/
structure Agree (s₁ s₂ after₁ after₂ : Session) : Prop where
  heap : after₁.heap = after₂.heap
  entries : ∃ gained₁ gained₂ : List Entry,
    after₁.log.entries = s₁.log.entries ++ gained₁ ∧
    after₂.log.entries = s₂.log.entries ++ gained₂ ∧
    List.Forall₂ Entry.Agrees gained₁ gained₂

theorem agree_behind (s₁ s₂ : Session) (heap : Expr.Heap) (reports : List Report) :
    Agree s₁ s₂ (s₁.behind heap reports) (s₂.behind heap reports) :=
  ⟨rfl, _, _, Log.entries_addReports .., Log.entries_addReports ..,
    Script.entriesOf_agree s₁.catalog s₂.catalog reports⟩

/-- **Diagnostics do not influence a run.** Two sessions with the same variables and the same
strictness, whatever their catalogs are and their logs say, execute a script alike with every host:
both executions are one, which gives one outcome and a pair of sessions that agree. With a host that
has a world of its own they end in the same world too. -/
theorem execute_agree (s₁ s₂ : Session) (hheap : s₁.heap = s₂.heap)
    (hstrict : s₁.strict = s₂.strict) (steps : Nat) (source : String) :
    (∀ {m : Type → Type} [Monad m] [LawfulMonad m] (host : Host m),
      ∃ both : m (Outcome × {after : Session × Session // Agree s₁ s₂ after.1 after.2}),
        s₁.execute host steps source = (fun (outcome, after) => (outcome, after.1.1)) <$> both ∧
        s₂.execute host steps source = (fun (outcome, after) => (outcome, after.1.2)) <$> both) ∧
    ∀ {σ : Type} (host : Host (StateM σ)) (world : σ),
      let result₁ := (s₁.execute host steps source).run world
      let result₂ := (s₂.execute host steps source).run world
      result₁.1.1 = result₂.1.1 ∧ result₁.2 = result₂.2 ∧ Agree s₁ s₂ result₁.1.2 result₂.1.2 := by
  have hboth : ∀ {m : Type → Type} [Monad m] [LawfulMonad m] (host : Host m),
      ∃ both : m (Outcome × {after : Session × Session // Agree s₁ s₂ after.1 after.2}),
        s₁.execute host steps source = (fun (outcome, after) => (outcome, after.1.1)) <$> both ∧
        s₂.execute host steps source =
          (fun (outcome, after) => (outcome, after.1.2)) <$> both := by
    intro m _ _ host
    obtain ⟨run, hrun⟩ := exists_execute_eq host steps source s₁.heap s₁.strict
    refine ⟨(fun (outcome, heap, reports) =>
      (outcome, ⟨(s₁.behind heap reports, s₂.behind heap reports), agree_behind ..⟩)) <$> run,
      ?_, ?_⟩
    · rw [hrun s₁ rfl rfl, Functor.map_map]
    · rw [hrun s₂ hheap.symm hstrict.symm, Functor.map_map]
  refine ⟨hboth, fun host world => ?_⟩
  obtain ⟨both, h₁, h₂⟩ := hboth host
  rw [h₁, h₂]
  exact ⟨rfl, rfl, (both.run world).1.2.2⟩

/-- A catalog in which all errors read alike. -/
def tersely : Catalog := ⟨fun _ => "error"⟩

theorem execute_agree_tersely :
    let s₁ : Session := { strict := true }
    let s₂ : Session := { log := Log.add .error "before" none {}, catalog := tersely, strict := true }
    let script := "a[else][wait time=\"1x\"]"
    let result₁ := (s₁.execute Host.recorder 9 script).run []
    let result₂ := (s₂.execute Host.recorder 9 script).run []
    s₁.heap = s₂.heap ∧ s₁.strict = s₂.strict ∧ result₁.1.1 = .rejected 2 ∧
      result₁.1.1 = result₂.1.1 ∧ result₁.2 = result₂.2 ∧
      Agree s₁ s₂ result₁.1.2 result₂.1.2 := by
  intro s₁ s₂ script
  have hagree := (execute_agree s₁ s₂ rfl rfl 9 script).2 Host.recorder []
  exact ⟨rfl, rfl, by decide +kernel, hagree⟩

end Session
end NovelScript
