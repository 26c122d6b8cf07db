import NovelScript.Proofs.Parsing.Mirror
import NovelScript.Proofs.Parsing.Splitting

/-!
Recovery from errors. A statement is either read without an error or given up with exactly one, and
reading goes on behind the next semicolon. Main statement: with a cursor, every text is read up to
its end and never beyond, nothing that has been entered is left open, the statements and errors are
those of the readers of tokens, and each error is further on in the text than the one before it.
-/

namespace NovelScript.Expr

variable {α β : Type} {t : Token} {ts us : List Token}

theorem recover_of_semicolon (ht : t.kind = .semicolon) (ts : List Token) :
    recover (t :: ts) = ts := by
  rw [recover, List.dropWhile_cons_of_neg (by simp [ht])]
  exact if_pos ht

theorem recover_of_eof (ht : t.kind = .eof) (ts : List Token) : recover (t :: ts) = t :: ts := by
  rw [recover, List.dropWhile_cons_of_neg (by simp [ht])]
  exact if_neg (by simp [ht])

namespace Cursor

variable {s s' : Cursor}

/-! ### After an error -/

theorem step_bind {m : Step α} {a : α} (h : m s = some (a, s')) (f : α → Step β) :
    (m >>= f) s = f a s' := by
  show (m s).bind _ = _
  rw [h]
  rfl

/-- The cursor where reading would go on from after an error. -/
def stopped (s : Cursor) : Cursor := { s with index := s.stop }

theorem stopped_eq (h : s.front = t :: us) (ht : t.kind ∈ stops) : s.stopped = s := by
  have hstop : s.stop = s.index := by
    rw [stop, h, List.takeWhile_cons_of_neg (by simpa using ht)]
    rfl
  rw [stopped, hstop]

theorem stopped_advanced (h : s.front = t :: us) (ht : t.kind ∉ stops) :
    s.advanced.stopped = s.stopped := by
  have hstop : s.advanced.stop = s.stop := by
    rw [stop, stop, front_advanced h, h, List.takeWhile_cons_of_pos (by simpa using ht)]
    simp only [advanced, List.length_cons]
    omega
  rw [stopped, stopped, hstop]
  rfl

theorem synchronize_eq (h : Ended s.front) : ∀ n, s.front.length ≤ n →
    synchronize n s = some ((), s.stopped) := by
  generalize hts : s.front = ts at h
  induction h generalizing s with
  | last ht =>
    intro n hn
    obtain ⟨n, rfl⟩ := Nat.exists_eq_succ_of_ne_zero (Nat.ne_zero_of_lt hn)
    rw [synchronize, step_bind (current_eq hts), stopped_eq hts (by simp [ht, stops]),
      if_neg (by simp [ht])]
    rfl
  | @cons t ts ht htail ih =>
    intro n hn
    obtain ⟨n, rfl⟩ := Nat.exists_eq_succ_of_ne_zero (Nat.ne_zero_of_lt hn)
    rw [synchronize, step_bind (current_eq hts)]
    by_cases hsemicolon : t.kind = .semicolon
    · rw [stopped_eq hts (by simp [hsemicolon, stops]), if_neg (by simp [hsemicolon])]
      rfl
    · obtain ⟨t', us', rfl⟩ := htail.exists_cons
      rw [if_pos ⟨hsemicolon, ht⟩, step_bind (next_eq hts),
        ih (front_advanced hts) n (Nat.le_of_succ_le_succ hn),
        stopped_advanced hts (by simp [hsemicolon, ht, stops])]

/-- Reading goes on behind the semicolon, or is at the end. -/
theorem next_stopped (h : Ended s.front) : ∃ index, s.stop ≤ index ∧
    next s.stopped = some ((), { s with index }) ∧
    ({ s with index } : Cursor).front = recover s.front ∧ Ended (recover s.front) ∧
    (s.stop < index ∨ (firstToken (recover s.front)).kind = .eof) := by
  generalize hts : s.front = ts at h
  induction h generalizing s with
  | @last t ht =>
    have hstopped := stopped_eq hts (by simp [ht, stops])
    have hstop : s.stop = s.index := congrArg index hstopped
    rw [hstopped, recover_of_eof ht]
    exact ⟨s.index, hstop.le, next_eq_of_last hts, hts, .last ht, .inr ht⟩
  | @cons t ts ht htail ih =>
    obtain ⟨t', us', rfl⟩ := htail.exists_cons
    by_cases hsemicolon : t.kind = .semicolon
    · have hstopped := stopped_eq hts (by simp [hsemicolon, stops])
      have hstop : s.stop = s.index := congrArg index hstopped
      rw [hstopped, recover_of_semicolon hsemicolon]
      exact ⟨s.index + 1, by omega, next_eq hts, front_advanced hts, htail, .inl (by omega)⟩
    · have hgoes : t.kind ∉ stops := by simp [hsemicolon, ht, stops]
      rw [recover_cons hgoes]
      have hstopped := stopped_advanced hts hgoes
      have hstop : s.advanced.stop = s.stop := congrArg index hstopped
      have hrest := ih (front_advanced hts)
      rw [hstopped, hstop] at hrest
      exact hrest

/-! ### Turns -/

/-- A turn reads one statement, at depth zero before and after, and either keeps it and adds no
error or gives it up and adds one. -/
structure Turn.Exact (turn : Turn) : Prop where
  read : outerStatement turn.before = some (turn.statement?, turn.after)
  before : turn.before.depth = 0
  after : turn.after.depth = 0
  deepest : turn.after.deepest ≤ maxNesting
  kept : turn.statement?.isSome → turn.after.errors = turn.before.errors
  abandoned : turn.statement? = none →
    ∃ error, turn.after.errors = turn.before.errors ++ [error]

/-- What a turn comes to where the reader of statements comes to the given result. -/
inductive Turned (s : Cursor) : Except Failure (Statement × List Token) → Turn → Cursor → Prop
  | kept {st : Statement} {rest : List Token} {turn : Turn} {s' : Cursor}
      (hturn : turn.statement? = some st) (hfront : s'.front = rest) (hindex : s.index < s'.index)
      (herrors : s'.errors = s.errors) : Turned s (.ok (st, rest)) turn s'
  | abandoned {failure : Failure} {turn : Turn} {s' : Cursor} {k : Nat} {t : Token}
      (hturn : turn.statement? = none) (hfront : s'.front = recover failure.rest)
      (herrors : s'.errors = s.errors ++ [failure.error])
      (hfirst : s.index ≤ k) (hget : s.tokens[k]? = some t)
      (hposition : failure.error.position = t.position)
      (hlast : k < s'.index ∨ (firstToken s'.front).kind = .eof) :
      Turned s (.error failure) turn s'

/-- A turn goes on, unless the end of the text is reached. -/
theorem Turned.goesOn {r : Except Failure (Statement × List Token)} {turn : Turn}
    (h : Turned s r turn s') : s.index < s'.index ∨ (firstToken s'.front).kind = .eof := by
  cases h with
  | kept _ _ hindex _ => exact .inl hindex
  | abandoned _ _ _ hfirst _ _ hlast => exact hlast.imp_left (Nat.lt_of_le_of_lt hfirst)

theorem get_bind (f : Cursor → Step β) : (get >>= f) s = f s s := rfl

theorem turn_of_some {read : Statement} {after : Cursor}
    (h : outerStatement s = some (some read, after)) (hnext : next after = some ((), s')) :
    turn s = some (⟨s, some read, after⟩, s') := by
  rw [turn, get_bind, step_bind (m := outerStatement.run) h, get_bind]
  exact step_bind hnext _

theorem turn_of_none {after : Cursor} (h : outerStatement s = some (none, after))
    (hended : Ended after.front) (hnext : next after.stopped = some ((), s')) :
    turn s = some (⟨s, none, after⟩, s') := by
  have hlength : after.front.length ≤ after.tokens.length := (List.drop_sublist _ _).length_le
  have hsynchronize := synchronize_eq hended after.tokens.length hlength
  rw [turn, get_bind, step_bind (m := outerStatement.run) h, get_bind]
  exact (step_bind hsynchronize _).trans (step_bind hnext _)

/-- Going on leaves fewer tokens, and so does coming to the end from another token. -/
theorem Keeps.length_lt (h : s.Keeps s') (hended : Ended s.front) (hfront : s.front = t :: us)
    (ht : t.kind ≠ .eof) (hlast : s.index < s'.index ∨ (firstToken s'.front).kind = .eof) :
    s'.front.length < s.front.length := by
  obtain ⟨t₂, us₂, rfl⟩ := ((hfront ▸ hended).tail ht).exists_cons
  rcases hlast with hindex | hlast
  · have hlength := congrArg List.length hfront
    rw [front, List.length_drop, List.length_cons] at hlength
    rw [front, front, List.length_drop, List.length_drop, h.tokens]
    omega
  · obtain ⟨t', us', hfront'⟩ := h.ended.exists_cons
    rw [hfront'] at hlast
    have hlast' : us' = [] := (hfront' ▸ h.ended).eq_nil hlast
    rw [hfront, hfront', hlast']
    simp

/-- A turn comes to what the reader of statements comes to. -/
theorem turn_spec (hready : s.Ready maxNesting) (hfront : s.front = t :: us) :
    ∃ x s', turn s = some (x, s') ∧ x.Exact ∧ s.Keeps s' ∧
      Turned s (Parser.statement (Parser.within maxNesting) s.front) x s' := by
  have hdepth : s.depth = 0 := by
    have hlevels := hready.depth
    omega
  have hagrees : Agrees [.eof] s (Parser.statement (Parser.within maxNesting) (t :: us))
      (outerStatement s) :=
    front_statement (mirrored maxNesting) s us hready hfront (Nat.lt_succ_self _)
  rw [hfront]
  generalize Parser.statement (Parser.within maxNesting) (t :: us) = r, ho : outerStatement s = o
    at hagrees
  cases hagrees with
  | @read st after t' us' hkeeps herrors hfront' ht' =>
    have hne : t'.kind ≠ .eof := by simpa using ht'
    have hready' := hkeeps.ready hready
    obtain ⟨t'', us'', rfl⟩ := hready'.exists_next hfront' hne
    refine ⟨_, _, turn_of_some ho (next_eq hfront'), ?_, ?_, ?_⟩
    · exact ⟨ho, hdepth, hkeeps.depth.trans hdepth, hkeeps.deepest, fun _ => herrors, nofun⟩
    · exact hkeeps.trans (hready'.keeps_advanced hfront' hne)
    · exact .kept rfl (front_advanced hfront') (Nat.lt_succ_of_le hkeeps.index) herrors
  | @abandoned failure after hkeeps herrors hrest hblames =>
    obtain ⟨k, t', hfirst, hlast, hget, hposition⟩ := hblames
    obtain ⟨index, hindex, hnext, hafter, hended, hresumes⟩ := next_stopped hkeeps.ended
    rw [← hafter] at hended hresumes
    refine ⟨_, _, turn_of_none ho hkeeps.ended hnext, ?_, ?_, ?_⟩
    · exact ⟨ho, hdepth, hkeeps.depth.trans hdepth, hkeeps.deepest, nofun, fun _ => ⟨_, herrors⟩⟩
    · exact ⟨hkeeps.tokens, (hfirst.trans hlast).trans hindex, hkeeps.depth, hkeeps.deepest, hended⟩
    · exact .abandoned rfl (hafter.trans hrest.symm) herrors hfirst hget hposition
        (hresumes.imp_left (Nat.lt_of_le_of_lt hlast))

/-! ### Errors along the tokens -/

/-- Each error is at a token, and no later one is at this token or before it. -/
inductive Located (tokens : List Token) : Nat → List ParseError → Prop
  | nil {i : Nat} : Located tokens i []
  | cons {i k : Nat} {t : Token} {error : ParseError} {errors : List ParseError} (hfirst : i ≤ k)
      (hget : tokens[k]? = some t) (hposition : error.position = t.position)
      (h : Located tokens (k + 1) errors) : Located tokens i (error :: errors)

variable {tokens : List Token} {errors : List ParseError}

theorem Located.mono {i j : Nat} (h : Located tokens i errors) (hle : j ≤ i) :
    Located tokens j errors := by
  cases h with
  | nil => exact .nil
  | cons hfirst hget hposition hrest => exact .cons (hle.trans hfirst) hget hposition hrest

theorem Located.exists_token {i : Nat} (h : Located tokens i errors) : ∀ error ∈ errors,
    ∃ k t, i ≤ k ∧ tokens[k]? = some t ∧ error.position = t.position := by
  induction h with
  | nil => exact fun _ hmem => absurd hmem List.not_mem_nil
  | cons hfirst hget hposition _ ih =>
    refine List.forall_mem_cons.mpr ⟨⟨_, _, hfirst, hget, hposition⟩, fun error herror => ?_⟩
    obtain ⟨k, t, hk, hrest⟩ := ih error herror
    exact ⟨k, t, by omega, hrest⟩

/-- Where tokens stand one behind the other, so do the errors. -/
theorem Located.pairwise {i : Nat} (h : Located tokens i errors)
    (htokens : tokens.Pairwise fun t t' => t.position.offset < t'.position.offset) :
    errors.Pairwise fun e e' => e.position.offset < e'.position.offset := by
  induction h with
  | nil => exact .nil
  | @cons i k t error errors hfirst hget hposition hrest ih =>
    refine .cons (fun later hlater => ?_) ih
    obtain ⟨k', t', hk, hget', hposition'⟩ := hrest.exists_token later hlater
    obtain ⟨hlength, rfl⟩ := List.getElem?_eq_some_iff.mp hget
    obtain ⟨hlength', rfl⟩ := List.getElem?_eq_some_iff.mp hget'
    rw [hposition, hposition']
    exact List.pairwise_iff_getElem.mp htokens k k' hlength hlength' (by omega)

/-! ### Programs -/

theorem turns_of_eof (n : Nat) (hfront : s.front = t :: us) (ht : t.kind = .eof) :
    turns (n + 1) s = some ([], s) := by
  rw [turns, step_bind (current_eq hfront), if_pos ht]
  rfl

theorem turns_of_turn {n : Nat} {first : Turn} {more : List Turn} {last : Cursor}
    (hfront : s.front = t :: us) (ht : t.kind ≠ .eof) (hturn : turn s = some (first, s'))
    (hmore : turns n s' = some (more, last)) : turns (n + 1) s = some (first :: more, last) := by
  rw [turns, step_bind (current_eq hfront), if_neg ht, step_bind hturn, step_bind hmore]
  rfl

/-- What a program comes to: one turn for each statement, the errors in their order. -/
theorem turns_spec (n : Nat) : ∀ s : Cursor, s.Ready maxNesting → s.front.length ≤ n →
    ∃ turned last errors, turns n s = some (turned, last) ∧ s.Keeps last ∧
      (∀ x ∈ turned, x.Exact) ∧ last.errors = s.errors ++ errors ∧
      parseStatements n s.front = (turned.filterMap Turn.statement?, errors) ∧
      Located s.tokens s.index errors := by
  induction n with
  | zero =>
    intro s hready hn
    obtain ⟨t, us, hfront⟩ := hready.ended.exists_cons
    rw [hfront] at hn
    exact absurd hn (Nat.not_succ_le_zero _)
  | succ n ih =>
    intro s hready hn
    obtain ⟨t, us, hfront⟩ := hready.ended.exists_cons
    by_cases ht : t.kind = .eof
    · refine ⟨[], s, [], turns_of_eof n hfront ht, hready.keeps, by simp, by simp, ?_, .nil⟩
      exact parseStatements_of_eof (by rw [hfront]; exact ht) _
    · obtain ⟨x, s', hturn, hexact, hkeeps, hturned⟩ := turn_spec hready hfront
      have hstart : (firstToken s.front).kind ≠ .eof := by rwa [hfront]
      have hshorter : s'.front.length < s.front.length :=
        hkeeps.length_lt hready.ended hfront ht hturned.goesOn
      obtain ⟨turned, last, errors, hturns, hkeeps', hexacts, herrors', hrest, hlocated⟩ :=
        ih s' (hkeeps.ready hready) (by omega)
      rw [hkeeps.tokens] at hlocated
      have hexacts' := List.forall_mem_cons.mpr ⟨hexact, hexacts⟩
      have hturns' := turns_of_turn hfront ht hturn hturns
      generalize hread : Parser.statement (Parser.within maxNesting) s.front = r at hturned
      cases hturned with
      | kept hx hfront' hindex herrors =>
        refine ⟨_, last, errors, hturns', hkeeps.trans hkeeps', hexacts', herrors ▸ herrors', ?_,
          hlocated.mono hindex.le⟩
        rw [parseStatements_of_ok hstart hread, List.filterMap_cons_some hx, ← hfront', hrest]
      | @abandoned failure _ _ k _ hx hfront' herrors hfirst hget hposition hlast =>
        refine ⟨_, last, failure.error :: errors, hturns', hkeeps.trans hkeeps', hexacts', ?_, ?_,
          ?_⟩
        · rw [herrors', herrors, List.append_assoc, List.singleton_append]
        · rw [parseStatements_of_error hstart hread, List.filterMap_cons_none hx, ← hfront', hrest]
        · refine .cons hfirst hget hposition ?_
          rcases hlast with hindex | hlast
          · exact hlocated.mono hindex
          · rw [parseStatements_of_eof hlast] at hrest
            obtain ⟨-, rfl⟩ := Prod.mk.inj hrest
            exact .nil

end Cursor

/-! ### Whole texts -/

theorem Splits.ended {p : Position} {cs : List Char} (h : Splits p cs ts) : Ended ts := by
  induction h with
  | last => exact .last rfl
  | token _ _ hkind _ _ _ ih => exact .cons hkind ih

/-- Every token stands further on in the text than the one before it. -/
theorem Splits.pairwise_offset {p : Position} {cs : List Char} (h : Splits p cs ts) :
    (∀ t ∈ ts, p.offset ≤ t.position.offset) ∧
      ts.Pairwise fun t t' => t.position.offset < t'.position.offset := by
  induction h with
  | @last p blanks _ =>
    refine ⟨fun t ht => ?_, List.pairwise_singleton _ _⟩
    rw [List.mem_singleton.mp ht, Position.offset_after]
    omega
  | @token p blanks lexeme cs t ts _ hlexeme _ hposition _ _ ih =>
    obtain ⟨c, more, rfl⟩ := List.exists_cons_of_ne_nil hlexeme
    have hbehind : t.position.offset < (p.after (blanks ++ c :: more)).offset := by
      have hsize := c.utf8Size_pos
      rw [hposition, Position.after_append, Position.after_cons, Position.offset_after more,
        Position.offset_next]
      omega
    have hfirst : p.offset ≤ t.position.offset := by
      rw [hposition, Position.offset_after]
      omega
    refine ⟨List.forall_mem_cons.mpr ⟨hfirst, fun t' ht' => ?_⟩, .cons (fun t' ht' => ?_) ih.2⟩
    · exact (hfirst.trans hbehind.le).trans (ih.1 t' ht')
    · exact Nat.lt_of_lt_of_le hbehind (ih.1 t' ht')

/-- **Recovery is exact.** With a cursor, reading comes to an end on every text, and no token is
looked for behind the last one. Every statement is read at depth zero and leaves depth zero behind,
and no expression or block is entered beyond the limit; what is kept adds no error, and what is
given up adds one. The statements and errors are those of the readers of tokens, and every error is
further on in the text than the one before it. -/
theorem recovery_is_exact (source : String) : ∃ turned last,
    Cursor.readAll (tokens source) = some (turned, last) ∧
      parseTokens (tokens source) = (turned.filterMap Cursor.Turn.statement?, last.errors) ∧
      (∀ turn ∈ turned, turn.Exact) ∧ last.depth = 0 ∧ last.deepest ≤ maxNesting ∧
      last.errors.Pairwise fun e e' => e.position.offset < e'.position.offset := by
  have hsplits : Splits {} source.toList (tokens source) :=
    splits_tokensFrom (Scanner.ofString source)
  have hready : (Cursor.start (tokens source)).Ready maxNesting :=
    ⟨hsplits.ended, Nat.zero_add _, Nat.zero_le _⟩
  obtain ⟨turned, last, errors, hturns, hkeeps, hexact, herrors, hparse, hlocated⟩ :=
    Cursor.turns_spec (tokens source).length _ hready (Nat.le_refl _)
  obtain rfl : last.errors = errors := herrors
  exact ⟨turned, last, hturns, hparse, hexact, hkeeps.depth, hkeeps.deepest,
    hlocated.pairwise hsplits.pairwise_offset.2⟩

end NovelScript.Expr
