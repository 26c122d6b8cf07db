import NovelScript.Proofs.Parsing.Spelling
import NovelScript.Proofs.Running.Hosts

/-!
Strings behind two layers of quotes. A text is written as a string of an expression, and this as the
value of an attribute; both layers take a backslash before quotes and backslashes. Main statement: a
script with this one tag shows exactly the text, whatever characters it is made of.
-/

namespace NovelScript

open Script (Action Event Host Outcome)

/-! ### The inner layer -/

namespace Expr

theorem tokens_quoteValue (text : String) :
    ∃ p p', tokens (quoteValue text) = [⟨.string, text, p⟩, ⟨.eof, "", p'⟩] := by
  have hread := tokensFrom_quoteValue text [] {}
  rw [List.append_nil] at hread
  exact ⟨_, _, hread⟩

/-- **A quoted text is the string that it was written from.** -/
theorem parse_quoteValue (text : String) :
    parse (quoteValue text) = .ok [.expression (.string text)] := by
  obtain ⟨p, p', htokens⟩ := tokens_quoteValue text
  rw [parse, htokens, parseTokens_of_statement (by simp) rfl]
  rfl

end Expr

/-! ### The outer layer -/

namespace Script

/-- A script that shows the value of an expression, which is the value of an attribute. -/
def embedding (source : String) : String := "[embed exp=" ++ quoteValue source ++ "]"

theorem tokens_embedding (source : String) : ∃ literal p,
    tokens (embedding source) = .ok [⟨.tag ⟨"embed", [⟨"exp", source⟩]⟩, literal, p⟩] := by
  have hrender : render [.tag ⟨"embed", [⟨"exp", source⟩]⟩] = embedding source := by
    rw [← String.toList_inj]
    simp [render, TokenKind.render, Attribute.render, embedding, quoteValue]
  have hwritable : (TokenKind.tag ⟨"embed", [⟨"exp", source⟩]⟩).isWritable = true := by
    simp only [TokenKind.isWritable, List.all_cons, List.all_nil]
    rfl
  have hkinds := tokens_render [.tag ⟨"embed", [⟨"exp", source⟩]⟩] (by simpa using hwritable)
    (by simp)
  rw [hrender] at hkinds
  cases hread : tokens (embedding source) with
  | error e => simp [hread, Except.map] at hkinds
  | ok read =>
    rw [hread] at hkinds
    obtain ⟨token, rfl, hkind⟩ := List.map_eq_singleton_iff.mp (Except.ok.inj hkinds)
    exact ⟨token.literal, token.position, by rw [← hkind]⟩

/-- The script whose only command shows the value of an expression. -/
def embedded (source : String) (p : Position) : Script where
  queue := { commands := #[.embed source] }
  positions := #[p]

/-- Nothing is found in the script if the expression can be read. -/
theorem ofTokens_embedding {source : String} {program : Expr.Program}
    (hparse : Expr.parse source = .ok program) (declared : List String) (literal : String)
    (p : Position) :
    ofTokens declared [⟨.tag ⟨"embed", [⟨"exp", source⟩]⟩, literal, p⟩] =
      (embedded source p, [(.summary 1 0, none)]) := by
  have hname : Text.lowercase "embed" = "embed" := by decide
  have hkind : TagKind.find? "embed" = some .embed := by decide
  have hread : Builder.readToken { declared } ⟨.tag ⟨"embed", [⟨"exp", source⟩]⟩, literal, p⟩ =
      { declared, script := embedded source p } := by
    simp [Builder.readToken, Builder.readTag, hname, hkind, Tag.unknownAttributes,
      TagKind.attributes?, Builder.addText, Builder.readKnownTag, Builder.readEmbed, Tag.get?,
      Builder.checkExpression, hparse, TagKind.name]
    rfl
  simp only [ofTokens, List.foldl_cons, List.foldl_nil, hread]
  simp [embedded, Builder.addText, Builder.checkJumps, Builder.checkNesting, Builder.summarize,
    Nesting.ofQueue, Nesting.readAll, Nesting.read, Queue.relate, Queue.size]

/-- A quoted text has the text as its value, and evaluating it changes nothing. -/
theorem Machine.evaluate_quoteValue (text : String) (place : Option Position) (machine : Machine) :
    machine.evaluate (quoteValue text) place = (some (.string text), machine) := by
  have hrun : (Expr.evalText (quoteValue text) Expr.Heap.root).run machine.heap =
      (.ok (.string text), machine.heap) := by
    rw [Expr.evalText, Expr.parse_quoteValue]
    rfl
  rw [evaluate, hrun]

theorem Machine.plays_embedded (text : String) (p : Position) (heap : Expr.Heap) (n : Nat) :
    ∃ machine : Machine, Plays (n + 2) { script := embedded (quoteValue text) p, heap } #[]
      [.ask (.text text), .tell .finished] (.finished, machine, #[.finished]) := by
  let queue : Queue := { commands := #[.embed (quoteValue text)], cursor := 1 }
  let after : Machine := { script := { queue, positions := #[p] }, heap }
  have hnext : next? { script := embedded (quoteValue text) p, heap } =
      some (some (.text text), after) := by
    have hdequeue : (embedded (quoteValue text) p).queue.dequeue? =
        some ((0, .embed (quoteValue text)), queue) := rfl
    simp only [next?, hdequeue, Option.map_some, execute, evaluate_quoteValue]
    rfl
  have hend : after.next? = none := rfl
  exact ⟨after, (plays_none hend n #[]).step hnext⟩

end Script

namespace Session

/-- **Any text can be shown through both layers of quotes.** Whatever the variables, the strictness
and the log of the session are, a script that embeds a quoted text, in quotes once more, is run to
its end. It asks for one thing, which is to show the text; and nothing that the log gains is an
error or a warning. -/
theorem plays_embedding (s : Session) (text : String) (steps : Nat) :
    ∃ (actions : List Action) (after : Session) (gained : List Entry),
      s.Plays (steps + 2) ("[embed exp=" ++ quoteValue (quoteValue text) ++ "]") actions
        .finished after ∧
      actions.filterMap Action.event? = [.text text] ∧
      after.log.entries = s.log.entries ++ gained ∧
      ∀ entry ∈ gained, entry.severity = .information := by
  obtain ⟨literal, p, htokens⟩ := Script.tokens_embedding (quoteValue text)
  have hscript := Script.ofTokens_embedding (Expr.parse_quoteValue text) s.bindings.names literal p
  have hread : (s.read (Script.embedding (quoteValue text))).1 =
      [.parsing 1, .finding (.summary 1 0) none] := by
    simp [read, htokens, hscript]
  have hreadout : s.readout (Script.embedding (quoteValue text))
      (Script.embedded (quoteValue text) p) =
        [.parsing 1, .finding (.summary 1 0) none, .running 1] := by
    rw [readout, hread]
    rfl
  have hrejects : ¬ s.Rejects (Script.embedding (quoteValue text)) :=
    not_rejects_of_read htokens (by simp [hread, Report.isError, Finding.severity])
  obtain ⟨machine, hplays⟩ := Script.Machine.plays_embedded text p s.heap steps
  have hembedded := congrArg Prod.fst hscript
  simp only at hembedded
  rw [← hembedded] at hplays
  have hsession := plays_of_machine htokens hrejects hplays
  simp only [hscript, hreadout] at hsession
  exact ⟨_, _, _, hsession, rfl, Log.entries_addReports .., by
    simp [Report.record, Record.entry?, Finding.severity]⟩

/-- The closing bracket, the quote and the letter behind the backslash mean nothing in there. -/
example : "[embed exp=" ++ quoteValue (quoteValue "]\"\\n") ++ "]" =
    "[embed exp=\"\\\"]\\\\\\\"\\\\\\\\n\\\"\"]" := by
  decide

end Session
end NovelScript
