import NovelScript.Expr.Tree.Cursor
import NovelScript.Proofs.Parsing.Consumption

/-!
A cursor beside the list of tokens. Where a reader takes tokens off the list, a cursor goes on over
them, and where the reader gives up, the cursor has one more error. Main statement: whatever is read
with a cursor is what the readers read from the tokens behind it.
-/

namespace NovelScript.Expr

variable {α β : Type} {t t' : Token} {ts us rest : List Token} {kind : TokenKind}

/-! ### Tokens up to their end -/

/-- The last token is the end of the text, and no other one is. -/
inductive Ended : List Token → Prop
  | last {t : Token} (ht : t.kind = .eof) : Ended [t]
  | cons {t : Token} {ts : List Token} (ht : t.kind ≠ .eof) (hts : Ended ts) : Ended (t :: ts)

theorem Ended.tail (h : Ended (t :: ts)) (ht : t.kind ≠ .eof) : Ended ts := by
  cases h with
  | last heof => exact absurd heof ht
  | cons _ hts => exact hts

theorem Ended.eq_nil (h : Ended (t :: ts)) (ht : t.kind = .eof) : ts = [] := by
  cases h with
  | last => rfl
  | cons hne _ => exact absurd ht hne

theorem Ended.exists_cons (h : Ended ts) : ∃ t us, ts = t :: us := by
  cases h with
  | last => exact ⟨_, _, rfl⟩
  | cons => exact ⟨_, _, rfl⟩

/-- The kinds of token that reading after an error goes on from. -/
def stops : List TokenKind := [.semicolon, .eof]

theorem ne_eof_of_not_stop (h : kind ∉ stops) : kind ≠ .eof := by
  rintro rfl
  exact h (by decide)

theorem recover_cons (ht : t.kind ∉ stops) (ts : List Token) : recover (t :: ts) = recover ts := by
  have hgoes : t.kind ≠ .semicolon ∧ t.kind ≠ .eof := by simpa [stops] using ht
  rw [recover, List.dropWhile_cons_of_pos (by simpa using hgoes)]
  rfl

/-! ### Places of a cursor -/

namespace Cursor

variable {s s' s'' : Cursor} {levels : Nat}

/-- The current token and those behind it. -/
def front (s : Cursor) : List Token := s.tokens.drop s.index

/-- The cursor one token on. -/
def advanced (s : Cursor) : Cursor := { s with index := s.index + 1 }

/-- The place where reading would go on from after an error. -/
def stop (s : Cursor) : Nat := s.index + (s.front.takeWhile fun t => t.kind ∉ stops).length

theorem front_advanced (h : s.front = t :: us) : s.advanced.front = us := by
  show s.tokens.drop (s.index + 1) = us
  rw [← List.tail_drop, ← front, h]
  rfl

theorem getElem?_index (h : s.front = t :: us) : s.tokens[s.index]? = some t := by
  rw [← List.head?_drop, ← front, h]
  rfl

theorem current_eq (h : s.front = t :: us) : current s = some (t, s) := by
  rw [current, getElem?_index h]
  rfl

theorem peek_eq (h : s.front = t :: t' :: us) : peek s = some (t', s) := by
  have hget : s.tokens[s.index + 1]? = some t' := getElem?_index (front_advanced h)
  rw [peek, hget]
  rfl

theorem peekIs_eq (h : s.front = t :: t' :: us) (kind : TokenKind) :
    peekIs kind s = some (decide (t'.kind = kind), s) := by
  show (peek s).bind _ = _
  rw [peek_eq h]
  rfl

theorem length_tokens (h : s.front = t :: us) : s.tokens.length = s.index + us.length + 1 := by
  have hlength := congrArg List.length h
  rw [front, List.length_drop, List.length_cons] at hlength
  omega

theorem next_eq (h : s.front = t :: t' :: us) : next s = some ((), s.advanced) := by
  have hlength := length_tokens h
  rw [List.length_cons] at hlength
  show some ((), if s.index + 1 < s.tokens.length then s.advanced else s) = _
  rw [if_pos (by omega)]

theorem next_eq_of_last (h : s.front = [t]) : next s = some ((), s) := by
  have hlength := length_tokens h
  rw [List.length_nil] at hlength
  show some ((), if s.index + 1 < s.tokens.length then s.advanced else s) = _
  rw [if_neg (by omega)]

theorem remaining_eq (h : s.front = t :: us) : remaining s = some (us.length, s) := by
  have hlength : s.tokens.length - (s.index + 1) = us.length := by
    rw [length_tokens h]
    omega
  rw [remaining, hlength]

theorem index_le_stop (s : Cursor) : s.index ≤ s.stop := Nat.le_add_right _ _

theorem index_lt_stop (h : s.front = t :: us) (ht : t.kind ∉ stops) : s.index < s.stop := by
  rw [stop, h, List.takeWhile_cons_of_pos (by simpa using ht), List.length_cons]
  omega

/-! ### One attempt behind another -/

theorem bind_of_some {m : Attempt α} {a : α} (h : m s = some (some a, s'))
    (f : α → Attempt β) : (m >>= f) s = f a s' := by
  show (m s).bind _ = _
  rw [h]
  rfl

theorem bind_of_none {m : Attempt α} (h : m s = some (none, s')) (f : α → Attempt β) :
    (m >>= f) s = some (none, s') := by
  show (m s).bind _ = _
  rw [h]
  rfl

theorem lift_bind {m : Step α} {a : α} (h : m s = some (a, s')) (f : α → Attempt β) :
    ((liftM m : Attempt α) >>= f) s = f a s' := by
  have hlift : (liftM m : Attempt α) s = some (some a, s') := by
    show (m s).bind _ = _
    rw [h]
    rfl
  exact bind_of_some hlift f

/-! ### What an attempt leaves as it was -/

/-- Nothing but the place, the errors and the greatest depth has changed; the place is not before
the old one, and the greatest depth is within the limit. -/
structure Keeps (s s' : Cursor) : Prop where
  tokens : s'.tokens = s.tokens
  index : s.index ≤ s'.index
  depth : s'.depth = s.depth
  deepest : s'.deepest ≤ maxNesting
  ended : Ended s'.front

/-- As many levels are left, and the end of the text is ahead. -/
structure Ready (levels : Nat) (s : Cursor) : Prop where
  ended : Ended s.front
  depth : s.depth + levels = maxNesting
  deepest : s.deepest ≤ maxNesting

theorem Keeps.trans (h : s.Keeps s') (h' : s'.Keeps s'') : s.Keeps s'' :=
  ⟨h'.tokens.trans h.tokens, h.index.trans h'.index, h'.depth.trans h.depth, h'.deepest, h'.ended⟩

theorem Keeps.ready (h : s.Keeps s') (hready : s.Ready levels) : s'.Ready levels :=
  ⟨h.ended, by rw [h.depth, hready.depth], h.deepest⟩

theorem Ready.keeps (h : s.Ready levels) : s.Keeps s :=
  ⟨rfl, Nat.le_refl _, rfl, h.deepest, h.ended⟩

theorem Ready.keeps_errors (h : s.Ready levels) (errors : List ParseError) :
    s.Keeps { s with errors } :=
  ⟨rfl, Nat.le_refl _, rfl, h.deepest, h.ended⟩

/-- There is a token behind each but the last one. -/
theorem Ready.exists_next (h : s.Ready levels) (hfront : s.front = t :: us) (ht : t.kind ≠ .eof) :
    ∃ t' us', us = t' :: us' :=
  ((hfront ▸ h.ended).tail ht).exists_cons

theorem Ready.keeps_advanced (h : s.Ready levels) (hfront : s.front = t :: us)
    (ht : t.kind ≠ .eof) : s.Keeps s.advanced := by
  refine ⟨rfl, Nat.le_succ _, rfl, h.deepest, ?_⟩
  rw [front_advanced hfront]
  exact (hfront ▸ h.ended).tail ht

theorem Keeps.length_le (h : s.Keeps s') (hfront : s.front = t :: us)
    (hfront' : s'.front = t' :: rest) : rest.length ≤ us.length := by
  have hlength := length_tokens hfront
  have hlength' := length_tokens hfront'
  rw [h.tokens] at hlength'
  have hindex := h.index
  omega

/-- The error is at a token between the first place and where reading would go on from. -/
def Blames (s s' : Cursor) (error : ParseError) : Prop :=
  ∃ k t, s.index ≤ k ∧ k ≤ s'.stop ∧ s.tokens[k]? = some t ∧ error.position = t.position

/-- What an attempt comes to where a reader comes to the given result. If something has been read,
the current token is of none of the given kinds. -/
inductive Agrees (kinds : List TokenKind) (s : Cursor) :
    Except Failure (α × List Token) → Option (Option α × Cursor) → Prop
  | read {a : α} {s' : Cursor} {t : Token} {us : List Token} (hkeeps : s.Keeps s')
      (herrors : s'.errors = s.errors) (hfront : s'.front = t :: us) (ht : t.kind ∉ kinds) :
      Agrees kinds s (.ok (a, us)) (some (some a, s'))
  | abandoned {failure : Failure} {s' : Cursor} (hkeeps : s.Keeps s')
      (herrors : s'.errors = s.errors ++ [failure.error])
      (hrest : recover failure.rest = recover s'.front) (hblames : s.Blames s' failure.error) :
      Agrees kinds s (.error failure) (some (none, s'))

variable {kinds kinds' : List TokenKind} {r : Except Failure (α × List Token)}
  {o : Option (Option α × Cursor)}

/-- What agrees from a later place on, agrees from the earlier one. -/
theorem Agrees.after (h : Agrees kinds s' r o) (hkeeps : s.Keeps s')
    (herrors : s'.errors = s.errors) : Agrees kinds s r o := by
  cases h with
  | read hkeeps' herrors' hfront ht =>
    exact .read (hkeeps.trans hkeeps') (herrors'.trans herrors) hfront ht
  | abandoned hkeeps' herrors' hrest hblames =>
    obtain ⟨k, t, hk, hstop, hget, hposition⟩ := hblames
    rw [herrors] at herrors'
    rw [hkeeps.tokens] at hget
    exact .abandoned (hkeeps.trans hkeeps') herrors' hrest
      ⟨k, t, hkeeps.index.trans hk, hstop, hget, hposition⟩

theorem Agrees.bind {m : Parser α} {a : Attempt α} {f : α → Parser β} {g : α → Attempt β}
    (h : Agrees kinds s (m ts) (a s))
    (hnext : ∀ x s' t us, s.Keeps s' → s'.front = t :: us → t.kind ∉ kinds →
      Agrees kinds' s' (f x us) (g x s')) :
    Agrees kinds' s ((m >>= f) ts) ((a >>= g) s) := by
  generalize hm : m ts = r, ha : a s = o at h
  cases h with
  | read hkeeps herrors hfront ht =>
    rw [Parser.bind_ok _ hm, bind_of_some ha]
    exact (hnext _ _ _ _ hkeeps hfront ht).after hkeeps herrors
  | abandoned hkeeps herrors hrest hblames =>
    rw [Parser.bind_error hm, bind_of_none ha]
    exact .abandoned hkeeps herrors hrest hblames

/-- An error at the current token. -/
theorem agrees_abandon {error : ParseError} (hready : s.Ready levels) (hfront : s.front = t :: us)
    (hposition : error.position = t.position) (hrest : recover rest = recover (t :: us)) :
    Agrees kinds s (.error ⟨error, rest⟩ : Except Failure (α × List Token)) (abandon error s) :=
  .abandoned (hready.keeps_errors _) rfl (hrest.trans (congrArg recover hfront.symm))
    ⟨s.index, t, Nat.le_refl _, s.index_le_stop, getElem?_index hfront, hposition⟩

/-- An error at the next token. -/
theorem agrees_abandon_peek {error : ParseError} (hready : s.Ready levels)
    (hfront : s.front = t :: t' :: us) (ht : t.kind ∉ stops)
    (hposition : error.position = t'.position) :
    Agrees kinds s (.error ⟨error, t' :: us⟩ : Except Failure (α × List Token))
      (abandon error s) := by
  have hrest : recover (t' :: us) = recover s.front := by rw [hfront, recover_cons ht]
  exact .abandoned (hready.keeps_errors _) rfl hrest ⟨s.index + 1, t', Nat.le_succ _,
    index_lt_stop hfront ht, getElem?_index (front_advanced hfront), hposition⟩

/-- The cursor goes on to the next token. -/
theorem agrees_next {g : Unit → Attempt α} (hready : s.Ready levels)
    (hfront : s.front = t :: t' :: us) (ht : t.kind ≠ .eof)
    (h : ∀ s', s'.Ready levels → s'.front = t' :: us → Agrees kinds s' r (g () s')) :
    Agrees kinds s r (((next : Attempt Unit) >>= g) s) := by
  have hkeeps := hready.keeps_advanced hfront ht
  rw [lift_bind (next_eq hfront)]
  exact (h s.advanced (hkeeps.ready hready) (front_advanced hfront)).after hkeeps rfl

/-! ### Readers and attempts side by side -/

/-- With `t` as the current token of at most `n`, the attempt comes to what the reader comes to in
front of it. -/
def Front (levels n : Nat) (kinds : List TokenKind) (t : Token) (m : Parser α) (a : Attempt α) :
    Prop :=
  ∀ s us, s.Ready levels → s.front = t :: us → us.length < n → Agrees kinds s (m (t :: us)) (a s)

/-- With `t` as the current token and at most `n` others, the attempt comes to what the reader comes
to behind it. -/
def Behind (levels n : Nat) (kinds : List TokenKind) (t : Token) (m : Parser α) (a : Attempt α) :
    Prop :=
  ∀ s us, s.Ready levels → s.front = t :: us → us.length ≤ n → Agrees kinds s (m us) (a s)

variable {n : Nat} {m : Parser α} {a : Attempt α} {error : ParseError}

theorem Behind.mono {k : Nat} (h : Behind levels n kinds t m a) (hk : k ≤ n) :
    Behind levels k kinds t m a :=
  fun s us hready hfront hn => h s us hready hfront (hn.trans hk)

theorem Front.bind {f : α → Parser β} {g : α → Attempt β} (h : Front levels n kinds t m a)
    (hnext : ∀ x t', t'.kind ∉ kinds → Behind levels (n - 1) kinds' t' (f x) (g x)) :
    Front levels n kinds' t (m >>= f) (a >>= g) := by
  intro s us hready hfront hn
  refine (h s us hready hfront hn).bind fun x s' t' us' hkeeps hfront' ht' => ?_
  exact hnext x t' ht' s' us' (hkeeps.ready hready) hfront'
    ((hkeeps.length_le hfront hfront').trans (Nat.le_sub_one_of_lt hn))

theorem Behind.bind {f : α → Parser β} {g : α → Attempt β} (h : Behind levels n kinds t m a)
    (hnext : ∀ x t', t'.kind ∉ kinds → Behind levels n kinds' t' (f x) (g x)) :
    Behind levels n kinds' t (m >>= f) (a >>= g) := by
  intro s us hready hfront hn
  refine (h s us hready hfront hn).bind fun x s' t' us' hkeeps hfront' ht' => ?_
  exact hnext x t' ht' s' us' (hkeeps.ready hready) hfront'
    ((hkeeps.length_le hfront hfront').trans hn)

/-- Only the last token has none behind it. -/
theorem behind_zero (ht : t.kind ≠ .eof) : Behind levels 0 kinds t m a := by
  intro s us hready hfront hn
  obtain ⟨t', us', rfl⟩ := hready.exists_next hfront ht
  exact absurd hn (Nat.not_succ_le_zero _)

theorem behind_pure (x : α) (ht : t.kind ∉ kinds) : Behind levels n kinds t (pure x) (pure x) :=
  fun _ _ hready hfront _ => .read hready.keeps rfl hfront ht

theorem front_fail (hposition : error.position = t.position) :
    Front levels n kinds t (Parser.fail error : Parser α) (abandon error) :=
  fun _ _ hready hfront _ => agrees_abandon hready hfront hposition rfl

theorem behind_fail (ht : t.kind ∉ stops) (hposition : error.position = t.position) :
    Behind levels n kinds t (Parser.fail error : Parser α) (abandon error) :=
  fun _ us hready hfront _ => agrees_abandon hready hfront hposition (recover_cons ht us).symm

theorem front_peek {f : Token → Parser α} {g : Token → Attempt α}
    (h : Front levels n kinds t (f t) (g t)) :
    Front levels n kinds t (Parser.peek >>= f) ((current : Attempt Token) >>= g) := by
  intro s us hready hfront hn
  rw [Parser.peek_cons_bind, lift_bind (current_eq hfront)]
  exact h s us hready hfront hn

theorem front_advance {f : Unit → Parser α} (h : Behind levels (n - 1) kinds t (f ()) a) :
    Front levels n kinds t (Parser.advance >>= f) a :=
  fun s us hready hfront hn => h s us hready hfront (Nat.le_sub_one_of_lt hn)

theorem behind_current {g : Token → Attempt α} (h : Behind levels n kinds t m (g t)) :
    Behind levels n kinds t m ((current : Attempt Token) >>= g) := by
  intro s us hready hfront hn
  rw [lift_bind (current_eq hfront)]
  exact h s us hready hfront hn

/-- The cursor goes on to where the reader is. -/
theorem behind_next {g : Unit → Attempt α} (ht : t.kind ≠ .eof)
    (h : ∀ t', Front levels n kinds t' m (g ())) :
    Behind levels n kinds t m ((next : Attempt Unit) >>= g) := by
  intro s us hready hfront hn
  obtain ⟨t', us', rfl⟩ := hready.exists_next hfront ht
  exact agrees_next hready hfront ht fun s' hready' hfront' => h t' s' us' hready' hfront' hn

/-- A token of the given kind is taken, or something else is read. -/
theorem behind_peekIs {f : Token → Parser α} {m' : Parser α} {a' : Attempt α}
    (ht : t.kind ≠ .eof)
    (h : ∀ t', t'.kind = kind → Behind levels (n - 1) kinds t' (f t') a)
    (h' : Behind levels n kinds t m' a') :
    Behind levels n kinds t
      (Parser.peek >>= fun token => if token.kind = kind then Parser.advance >>= fun _ => f token
        else m')
      ((peekIs kind : Attempt Bool) >>= fun found =>
        if found then (next : Attempt Unit) >>= fun _ => a else a') := by
  intro s us hready hfront hn
  obtain ⟨t', us', rfl⟩ := hready.exists_next hfront ht
  rw [Parser.peek_cons_bind, lift_bind (peekIs_eq hfront kind)]
  by_cases hkind : t'.kind = kind
  · rw [if_pos hkind, if_pos (by simpa using hkind), Parser.advance_cons_bind]
    exact agrees_next hready hfront ht fun s' hready' hfront' =>
      h t' hkind s' us' hready' hfront' (Nat.le_sub_one_of_lt hn)
  · rw [if_neg hkind, if_neg (by simpa using hkind)]
    exact h' s _ hready hfront hn

theorem behind_accept {f : Bool → Parser α} {a' : Attempt α} (ht : t.kind ≠ .eof)
    (h : ∀ t', t'.kind = kind → Behind levels (n - 1) kinds t' (f true) a)
    (h' : Behind levels n kinds t (f false) a') :
    Behind levels n kinds t (Parser.accept kind >>= f)
      ((peekIs kind : Attempt Bool) >>= fun found =>
        if found then (next : Attempt Unit) >>= fun _ => a else a') := by
  have haccept : Parser.accept kind >>= f = Parser.peek >>= fun token =>
      if token.kind = kind then Parser.advance >>= fun _ => f true else f false := by
    rw [Parser.accept, bind_assoc]
    refine congrArg (Parser.peek >>= ·) (funext fun token => ?_)
    split <;> simp
  rw [haccept]
  exact behind_peekIs ht h h'

/-- A token of the given kind is taken, or there is an error at the one found instead. -/
theorem behind_expect {f : Token → Parser α} {g : Unit → Attempt α} (ht : t.kind ∉ stops)
    (h : ∀ t', t'.kind = kind → Behind levels (n - 1) kinds t' (f t') (g ())) :
    Behind levels n kinds t (Parser.expect kind >>= f) (expectPeek kind >>= g) := by
  intro s us hready hfront hn
  have hne := ne_eof_of_not_stop ht
  obtain ⟨t', us', rfl⟩ := hready.exists_next hfront hne
  rw [Parser.expect, expectPeek, bind_assoc, bind_assoc, Parser.peek_cons_bind,
    lift_bind (peek_eq hfront)]
  by_cases hkind : t'.kind = kind
  · rw [if_pos hkind, if_pos hkind, bind_assoc, Parser.advance_cons_bind, pure_bind]
    exact agrees_next hready hfront hne fun s' hready' hfront' =>
      h t' hkind s' us' hready' hfront' (Nat.le_sub_one_of_lt hn)
  · rw [if_neg hkind, if_neg hkind]
    exact agrees_abandon_peek hready hfront ht rfl

/-- A repetition that is bounded by the number of tokens left. -/
theorem behind_remaining {f : Nat → Parser α} {g : Nat → Attempt α}
    (h : ∀ k, Behind levels k kinds t (f k) (g k)) :
    Behind levels n kinds t (Parser.remaining >>= f) ((remaining : Attempt Nat) >>= g) := by
  intro s us hready hfront _
  rw [lift_bind (remaining_eq hfront)]
  exact h us.length s us hready hfront (Nat.le_refl _)

/-! ### Expressions -/

/-- Nested expressions and blocks are read alike. -/
structure Mirrored (levels : Nat) (inner : Inner) : Prop where
  expression : ∀ least n t, Front levels n stops t ((Parser.within levels).expression least)
    (inner.expression least)
  block : ∀ n t, t.kind = .leftBrace →
    Front levels n stops t (Parser.within levels).block inner.block

section Readers

variable {inner : Inner} (h : Mirrored levels inner)
include h

/-- An expression is read from the next token on. -/
theorem behind_expression (ht : t.kind ≠ .eof) {least : Precedence}
    {f : Expression → Parser α} {g : Expression → Attempt α}
    (hnext : ∀ e t', t'.kind ∉ stops → Behind levels n kinds t' (f e) (g e)) :
    Behind levels n kinds t ((Parser.within levels).expression least >>= f)
      ((next : Attempt Unit) >>= fun _ => inner.expression least >>= g) :=
  behind_next ht fun t' => (h.expression least n t').bind fun e t' ht' =>
    (hnext e t' ht').mono (Nat.sub_le n 1)

/-- A block is read from the next token on, which must be a brace. -/
theorem behind_braced (ht : t.kind ∉ stops) {f : Block → Parser α} {g : Block → Attempt α}
    (hnext : ∀ body t', t'.kind ∉ stops → Behind levels n kinds t' (f body) (g body)) :
    Behind levels n kinds t (Parser.braced (Parser.within levels) >>= f)
      (expectPeek .leftBrace >>= fun _ => inner.block >>= g) := by
  intro s us hready hfront hn
  have hne := ne_eof_of_not_stop ht
  obtain ⟨t', us', rfl⟩ := hready.exists_next hfront hne
  rw [Parser.braced, expectPeek, bind_assoc, bind_assoc, Parser.peek_cons_bind,
    lift_bind (peek_eq hfront)]
  by_cases hkind : t'.kind = .leftBrace
  · have hblock := (h.block n t' hkind).bind fun body t'' ht'' =>
      (hnext body t'' ht'').mono (Nat.sub_le n 1)
    rw [if_pos hkind, if_pos hkind]
    exact agrees_next hready hfront hne fun s' hready' hfront' => hblock s' us' hready' hfront' hn
  · rw [if_neg hkind, if_neg hkind]
    exact agrees_abandon_peek hready hfront ht rfl

omit h in
theorem behind_integer {text : String} (ht : t.kind ∉ stops) :
    Behind levels n stops t (Parser.integer text t.position) (integer text t.position) := by
  unfold Parser.integer integer
  cases Text.readInt32? text with
  | some z => exact behind_pure _ ht
  | none => exact behind_fail ht rfl

theorem behind_negative (ht : t.kind = .minus) :
    Behind levels n stops t (Parser.negative (Parser.within levels) t.position)
      (negative inner t.position) := by
  have hstop : t.kind ∉ stops := by simp [ht, stops]
  have hne := ne_eof_of_not_stop hstop
  intro s us hready hfront hn
  obtain ⟨t', us', rfl⟩ := hready.exists_next hfront hne
  rw [Parser.negative, negative, Parser.peek_cons_bind, lift_bind (peekIs_eq hfront .integer)]
  by_cases hkind : t'.kind = .integer
  · have hkeeps := hready.keeps_advanced hfront hne
    have hfront' := front_advanced hfront
    have ht' : t'.kind ∉ stops := by simp [hkind, stops]
    rw [if_pos hkind, if_pos (by simpa using hkind), Parser.advance_cons_bind,
      lift_bind (next_eq hfront), lift_bind (current_eq hfront'), Parser.integer, integer]
    cases Text.readInt32? ("-" ++ t'.text) with
    | some z => exact .read hkeeps rfl hfront' ht'
    | none =>
      -- the error is at the sign, and the digits have been taken
      have hrest : recover us' = recover s.advanced.front := by rw [hfront', recover_cons ht']
      exact .abandoned ⟨rfl, hkeeps.index, rfl, hkeeps.deepest, hkeeps.ended⟩ rfl hrest
        ⟨s.index, t, Nat.le_refl _, (Nat.le_succ _).trans s.advanced.index_le_stop,
          getElem?_index hfront, rfl⟩
  · rw [if_neg hkind, if_neg (by simpa using hkind)]
    exact behind_expression h hne (fun e t'' ht'' => behind_pure _ ht'') s _ hready hfront hn

theorem behind_conditional (ht : t.kind ∉ stops) :
    Behind levels n stops t (Parser.conditional (Parser.within levels)) (conditional inner) := by
  rw [conditional]
  refine behind_expect ht fun left hleft => ?_
  refine behind_expression h (by simp [hleft]) fun condition t₁ ht₁ => ?_
  refine behind_expect ht₁ fun right hright => ?_
  refine behind_braced h (by simp [hright, stops]) fun consequence t₂ ht₂ => ?_
  refine behind_accept (ne_eof_of_not_stop ht₂) (fun t₃ ht₃ => ?_) (behind_pure _ ht₂)
  exact behind_braced h (by simp [ht₃, stops]) fun alternative t₄ ht₄ => behind_pure _ ht₄

omit h in
theorem behind_moreParameters : ∀ k t, t.kind ∉ stops →
    Behind levels k stops t (Parser.moreParameters k) (moreParameters k) := by
  intro k
  induction k with
  | zero => exact fun t ht => behind_zero (ne_eof_of_not_stop ht)
  | succ k ih =>
    intro t ht
    rw [moreParameters]
    refine behind_accept (ne_eof_of_not_stop ht) (fun comma hcomma => ?_) ?_
    · refine behind_expect (by simp [hcomma, stops]) fun name hname => behind_current ?_
      have hmore := (ih name (by simp [hname, stops])).mono (Nat.sub_le k 1)
      exact hmore.bind fun names t' ht' => behind_pure _ ht'
    · exact behind_expect ht fun right hright => behind_pure _ (by simp [hright, stops])

omit h in
theorem behind_parameters (ht : t.kind ∉ stops) :
    Behind levels n stops t Parser.parameters parameters := by
  refine behind_accept (ne_eof_of_not_stop ht)
    (fun right hright => behind_pure _ (by simp [hright, stops])) ?_
  refine behind_expect ht fun name hname => behind_current ?_
  refine behind_remaining fun k => ?_
  exact (behind_moreParameters k name (by simp [hname, stops])).bind
    fun names t' ht' => behind_pure _ ht'

theorem behind_moreArguments : ∀ k t, t.kind ∉ stops →
    Behind levels k stops t (Parser.moreArguments (Parser.within levels) k)
      (moreArguments inner k) := by
  intro k
  induction k with
  | zero => exact fun t ht => behind_zero (ne_eof_of_not_stop ht)
  | succ k ih =>
    intro t ht
    rw [moreArguments]
    refine behind_accept (ne_eof_of_not_stop ht) (fun comma hcomma => ?_) ?_
    · refine behind_expression h (by simp [hcomma]) fun value t' ht' => ?_
      exact (ih t' ht').bind fun values t'' ht'' => behind_pure _ ht''
    · exact behind_expect ht fun right hright => behind_pure _ (by simp [hright, stops])

theorem behind_arguments (ht : t.kind ∉ stops) :
    Behind levels n stops t (Parser.arguments (Parser.within levels)) (arguments inner) := by
  rw [arguments]
  refine behind_accept (ne_eof_of_not_stop ht)
    (fun right hright => behind_pure _ (by simp [hright, stops])) ?_
  refine behind_expression h (ne_eof_of_not_stop ht) fun value t' ht' => ?_
  refine behind_remaining fun k => ?_
  exact (behind_moreArguments h k t' ht').bind fun values t'' ht'' => behind_pure _ ht''

theorem front_operand :
    Front levels n stops t (Parser.operand (Parser.within levels)) (operand inner) := by
  rw [operand]
  refine front_peek ?_
  obtain ⟨kind, text, p⟩ := t
  cases kind with
  | identifier | string | «true» | «false» =>
    exact front_advance (behind_pure _ (by simp [stops]))
  | integer => exact front_advance (behind_integer (t := ⟨.integer, text, p⟩) (by simp [stops]))
  | double =>
    refine front_advance ?_
    dsimp only
    cases Decimal.readFloat? text with
    | some x => exact behind_pure _ (by simp [stops])
    | none => exact behind_fail (by simp [stops]) rfl
  | bang => exact front_advance (behind_expression h (by simp) fun e t' ht' => behind_pure _ ht')
  | minus => exact front_advance (behind_negative h (t := ⟨.minus, text, p⟩) rfl)
  | leftParen =>
    refine front_advance (behind_expression h (by simp) fun e t' ht' => ?_)
    exact behind_expect ht' fun right hright => behind_pure _ (by simp [hright, stops])
  | «if» => exact front_advance (behind_conditional h (by simp [stops]))
  | function =>
    refine front_advance (behind_expect (by simp [stops]) fun left hleft => ?_)
    refine (behind_parameters (by simp [hleft, stops])).bind fun names t' ht' => ?_
    exact behind_braced h ht' fun body t'' ht'' => behind_pure _ ht''
  | _ => exact front_fail rfl

theorem front_extend {left : Expression} (hoperator : .lowest < t.kind.precedence) :
    Front levels n stops t (Parser.extend (Parser.within levels) left) (extend inner left) := by
  rw [extend]
  refine front_peek ?_
  obtain ⟨kind, text, p⟩ := t
  cases kind with
  | assign =>
    cases left with
    | identifier name =>
      exact front_advance (behind_expression h (by simp) fun e t' ht' => behind_pure _ ht')
    | _ => exact front_fail rfl
  | leftParen =>
    refine front_advance ((behind_arguments h (by simp [stops])).bind fun values t' ht' => ?_)
    exact behind_pure _ ht'
  | plus | minus | asterisk | slash | less | greater | lessEqual | greaterEqual | equal | notEqual
  | and | or =>
    exact front_advance (behind_expression h (by simp) fun e t' ht' => behind_pure _ ht')
  | _ => exact absurd hoperator (Nat.not_lt_zero _)

omit h in
theorem not_stop_of_operator {least : Precedence} (h : least < kind.precedence) :
    kind ∉ stops := by
  intro hstop
  have hlowest : ∀ kind ∈ stops, kind.precedence = .lowest := by decide
  rw [hlowest kind hstop] at h
  exact absurd h (Nat.not_lt_zero _)

theorem behind_moreOperators (least : Precedence) : ∀ k t left, t.kind ∉ stops →
    Behind levels k stops t (Parser.operators (Parser.within levels) least k left)
      (moreOperators inner least k left) := by
  intro k
  induction k with
  | zero => exact fun t left ht => behind_zero (ne_eof_of_not_stop ht)
  | succ k ih =>
    intro t left ht s us hready hfront hn
    have hne := ne_eof_of_not_stop ht
    obtain ⟨t', us', rfl⟩ := hready.exists_next hfront hne
    rw [moreOperators, Parser.operators, Parser.peek_cons_bind, lift_bind (peek_eq hfront)]
    by_cases hbinds : least < t'.kind.precedence
    · have hsemicolon : t'.kind ≠ .semicolon := fun heq =>
        not_stop_of_operator hbinds (by simp [heq, stops])
      have hmore : Front levels (k + 1) stops t'
          (Parser.extend (Parser.within levels) left >>=
            Parser.operators (Parser.within levels) least k)
          (extend inner left >>= moreOperators inner least k) :=
        (front_extend h (Nat.zero_lt_of_lt hbinds)).bind fun e t'' ht'' => ih t'' e ht''
      rw [if_pos hbinds, if_pos ⟨hsemicolon, hbinds⟩]
      exact agrees_next hready hfront hne fun s' hready' hfront' => hmore s' us' hready' hfront' hn
    · rw [if_neg hbinds, if_neg (fun hboth => hbinds hboth.2)]
      exact .read hready.keeps rfl hfront ht

theorem front_operators (least : Precedence) :
    Front levels n stops t (Parser.expression (Parser.within levels) least)
      (operators inner least) := by
  rw [operators]
  refine (front_operand h).bind fun left t' ht' => behind_remaining fun k => ?_
  exact behind_moreOperators h least k t' left ht'

/-! ### Statements -/

omit h in
/-- A semicolon may follow. -/
theorem behind_skipSemicolon (ht : t.kind ∉ stops) (st : Statement) :
    Behind levels n [.eof] t (Parser.accept .semicolon >>= fun _ => pure st)
      ((skipSemicolon : Attempt Unit) >>= fun _ => pure st) := by
  have hne := ne_eof_of_not_stop ht
  intro s us hready hfront hn
  obtain ⟨t', us', rfl⟩ := hready.exists_next hfront hne
  by_cases hkind : t'.kind = .semicolon
  · have hskip : skipSemicolon s = some ((), s.advanced) := by
      show (peekIs .semicolon s).bind _ = _
      rw [peekIs_eq hfront, decide_eq_true hkind]
      exact next_eq hfront
    rw [Parser.bind_ok _ (Parser.accept_cons hkind us'), lift_bind hskip]
    exact .read (hready.keeps_advanced hfront hne) rfl (front_advanced hfront) (by simp [hkind])
  · have hskip : skipSemicolon s = some ((), s) := by
      show (peekIs .semicolon s).bind _ = _
      rw [peekIs_eq hfront, decide_eq_false hkind]
      rfl
    rw [Parser.bind_ok _ (Parser.accept_cons_of_ne hkind us'), lift_bind hskip]
    exact .read hready.keeps rfl hfront (by simpa using hne)

theorem front_statement : Front levels n [.eof] t (Parser.statement (Parser.within levels))
    (statement inner) := by
  rw [statement]
  refine front_peek ?_
  have hexpression : Front levels n [.eof] t
      ((Parser.within levels).expression .lowest >>= fun value =>
        Parser.accept .semicolon >>= fun _ => pure (Statement.expression value))
      (inner.expression .lowest >>= fun value => (skipSemicolon : Attempt Unit) >>= fun _ =>
        pure (Statement.expression value)) :=
    (h.expression .lowest n t).bind fun value t' ht' => behind_skipSemicolon ht' _
  obtain ⟨kind, text, p⟩ := t
  cases kind with
  | «let» =>
    refine front_advance (behind_expect (by simp [stops]) fun name hname => behind_current ?_)
    refine behind_expect (by simp [hname, stops]) fun sign hsign => ?_
    exact behind_expression h (by simp [hsign]) fun value t' ht' => behind_skipSemicolon ht' _
  | «return» =>
    exact front_advance (behind_expression h (by simp) fun value t' ht' =>
      behind_skipSemicolon ht' _)
  | leftBrace =>
    refine (h.block n _ rfl).bind fun body t' ht' => behind_pure _ ?_
    simpa using ne_eof_of_not_stop ht'
  | _ => exact hexpression

theorem front_statements : ∀ k t,
    Front levels k stops t (Parser.statements (Parser.within levels) k)
      (statements inner k) := by
  intro k
  induction k with
  | zero => exact fun t s us _ _ hn => absurd hn (Nat.not_lt_zero _)
  | succ k ih =>
    intro t
    rw [statements]
    refine front_peek ?_
    have hmore : Front levels (k + 1) stops t
        (Parser.statement (Parser.within levels) >>= fun first =>
          Parser.statements (Parser.within levels) k >>= fun more => pure (first :: more))
        (statement inner >>= fun first => (next : Attempt Unit) >>= fun _ =>
          statements inner k >>= fun more => pure (first :: more)) := by
      refine (front_statement h).bind fun first t' ht' => ?_
      refine behind_next (by simpa using ht') fun t'' => ?_
      exact (ih t'').bind fun more t₃ ht₃ => behind_pure _ ht₃
    obtain ⟨kind, text, p⟩ := t
    cases kind with
    | rightBrace => exact front_advance (behind_pure _ (by simp [stops]))
    | eof => exact front_fail rfl
    | _ => exact hmore

theorem front_blockBody (ht : t.kind ≠ .eof) :
    Front levels n stops t (Parser.block (Parser.within levels)) (blockBody inner) := by
  rw [blockBody]
  exact front_advance (behind_remaining fun k => behind_next ht fun t' => front_statements h k t')

end Readers

/-! ### Levels -/

/-- The cursor one level deeper. -/
def entered (s : Cursor) : Cursor :=
  { s with depth := s.depth + 1, deepest := max s.deepest (s.depth + 1) }

theorem enter_eq (h : s.depth < maxNesting) : enter s = some (some (), s.entered) := by
  show (if s.depth ≥ maxNesting then _ else (set s.entered : Attempt Unit)) s = _
  rw [if_neg (by omega)]
  rfl

theorem enter_eq_abandon (h : s.depth = maxNesting) (hfront : s.front = t :: us) :
    enter s = abandon (.tooDeep t.position) s := by
  show (if s.depth ≥ maxNesting then (current : Attempt Token) >>= fun token =>
    abandon (.tooDeep token.position) else _ : Attempt Unit) s = _
  rw [if_pos (by omega), lift_bind (current_eq hfront)]

theorem leaving_eq {body : Attempt α} {read : Option α} {depth : Nat}
    (h : body s = some (read, s')) (hdepth : s'.depth = depth + 1) :
    leaving body s = some (read, { s' with depth }) := by
  have hleave : leave s' = some ((), { s' with depth }) := by rw [leave, hdepth]
  show (body s).bind _ = _
  rw [h]
  show (leave s').bind _ = _
  rw [hleave]
  rfl

/-- Inside of an expression or a block, one level less is left, and behind it as many as before. -/
theorem front_nested {body : Attempt α} (h : Front levels n kinds t m body) :
    Front (levels + 1) n kinds t m (enter >>= fun _ => leaving body) := by
  intro s us hready hfront hn
  have hlevels := hready.depth
  have hready' : s.entered.Ready levels := by
    refine ⟨hready.ended, ?_, Nat.max_le.mpr ⟨hready.deepest, ?_⟩⟩
    · show s.depth + 1 + levels = maxNesting
      omega
    · omega
  rw [bind_of_some (enter_eq (by omega))]
  have hagrees := h s.entered us hready' hfront hn
  generalize hm : m (t :: us) = r, ho : body s.entered = o at hagrees
  cases hagrees with
  | read hkeeps herrors hfront' ht' =>
    rw [leaving_eq ho hkeeps.depth]
    exact .read ⟨hkeeps.tokens, hkeeps.index, rfl, hkeeps.deepest, hkeeps.ended⟩ herrors hfront' ht'
  | abandoned hkeeps herrors hrest hblames =>
    rw [leaving_eq ho hkeeps.depth]
    exact .abandoned ⟨hkeeps.tokens, hkeeps.index, rfl, hkeeps.deepest, hkeeps.ended⟩ herrors hrest
      hblames

/-- Where no level is left, nothing is entered. -/
theorem front_refuse {body : Attempt α} :
    Front 0 n kinds t Parser.refuse (enter >>= fun _ => leaving body) := by
  intro s us hready hfront _
  have herror := enter_eq_abandon hready.depth hfront
  have hrefused : (enter >>= fun _ => leaving body) s = abandon (.tooDeep t.position) s := by
    rw [bind_of_none herror]
    rfl
  rw [hrefused]
  exact agrees_abandon hready hfront rfl rfl

/-- **A cursor comes to what the readers come to**, as long as both may go as deep. It asks for one
more level, which is refused. -/
theorem mirrored (levels : Nat) : Mirrored levels (within (levels + 1)) := by
  induction levels with
  | zero => exact ⟨fun _ _ _ => front_refuse, fun _ _ _ => front_refuse⟩
  | succ levels ih =>
    constructor
    · exact fun least n t => front_nested (front_operators ih least)
    · exact fun n t ht => front_nested (front_blockBody ih (by simp [ht]))

end Cursor
end NovelScript.Expr
