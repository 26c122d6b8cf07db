import NovelScript.Proofs.Parsing.Words

/-!
What readers of tokens take. What a reader gives, it has read from tokens at the front, which it
takes; it looks at no more than the token behind them, and not at places, so that it gives the same
again wherever the same tokens stand. This is so of the readers of single tokens, of one reader
behind another, and of repetitions.
-/

namespace NovelScript.Expr

variable {α β : Type} {t t' : Token} {ts us used rest used' rest' : List Token}
  {ws vs : List Word} {left : Token} {right : TokenKind}

/-! ### Tokens up to the end of the text -/

/-- The same token stands at another place. -/
theorem Token.exists_place (h : t.unplaced = t'.unplaced) : ∃ p, t' = { t with position := p } := by
  obtain ⟨kind, text, p⟩ := t'
  obtain ⟨rfl, rfl⟩ : t.kind = kind ∧ t.text = text :=
    ⟨congrArg Prod.fst h, congrArg Prod.snd h⟩
  exact ⟨p, rfl⟩

/-- The end of the text is among the tokens. -/
def HasEnd (ts : List Token) : Prop := ∃ t ∈ ts, t.kind = .eof

theorem HasEnd.tail (h : HasEnd (t :: ts)) (ht : t.kind ≠ .eof) : HasEnd ts := by
  obtain ⟨last, hlast, heof⟩ := h
  rcases List.mem_cons.mp hlast with rfl | hlast
  · exact absurd heof ht
  · exact ⟨last, hlast, heof⟩

theorem HasEnd.exists_cons (h : HasEnd ts) : ∃ t us, ts = t :: us :=
  List.exists_cons_of_ne_nil (List.ne_nil_of_mem h.choose_spec.1)

theorem HasEnd.append (h : HasEnd us) (ts : List Token) : HasEnd (ts ++ us) := by
  obtain ⟨t, ht, heof⟩ := h
  exact ⟨t, List.mem_append_right ts ht, heof⟩

/-- Tokens that have the end among them reach up to the last one of all. -/
theorem HasEnd.exists_behind {last : Token} (h : HasEnd rest)
    (hsplit : ts ++ [last] = used ++ rest) :
    ∃ behind, ts = used ++ behind ∧ rest = behind ++ [last] := by
  obtain ⟨t, us, rfl⟩ := h.exists_cons
  rw [← List.dropLast_concat_getLast (List.cons_ne_nil t us), ← List.append_assoc] at hsplit
  obtain ⟨rfl, hlast⟩ := List.append_inj' hsplit rfl
  obtain rfl := (List.cons.inj hlast).1
  exact ⟨_, rfl, (List.dropLast_concat_getLast _).symm⟩

/-- The same tokens stand in front, and the same token is behind them, places aside. -/
structure SameFront (used rest used' rest' : List Token) : Prop where
  used : used.map Token.unplaced = used'.map Token.unplaced
  next : rest.head?.map Token.unplaced = rest'.head?.map Token.unplaced

theorem SameFront.of_unplaced (hused : used.map Token.unplaced = used'.map Token.unplaced)
    (hrest : rest.map Token.unplaced = rest'.map Token.unplaced) :
    SameFront used rest used' rest' :=
  ⟨hused, by rw [← List.head?_map, ← List.head?_map, hrest]⟩

theorem SameFront.length (h : SameFront used rest used' rest') : used.length = used'.length := by
  simpa using congrArg List.length h.used

theorem SameFront.exists_cons (h : SameFront used rest used' rest') (hend : HasEnd rest) :
    ∃ t us, rest' = t :: us := by
  obtain ⟨t, us, rfl⟩ := hend.exists_cons
  have hnext := h.next
  cases rest' with
  | nil => cases hnext
  | cons t' us' => exact ⟨t', us', rfl⟩

/-- In two steps, the tokens taken in the second one are behind those taken in the first. -/
theorem SameFront.split (h : SameFront (used ++ us) rest used' rest') :
    ∃ first second, used' = first ++ second ∧
      SameFront used (us ++ rest) first (second ++ rest') ∧ SameFront us rest second rest' := by
  have hused := h.used
  rw [List.map_append] at hused
  obtain ⟨first, second, rfl, hfirst, hsecond⟩ := List.map_eq_append_iff.mp hused.symm
  refine ⟨first, second, rfl, ⟨hfirst.symm, ?_⟩, ⟨hsecond.symm, h.next⟩⟩
  cases us with
  | nil =>
    obtain rfl := List.map_eq_nil_iff.mp hsecond
    exact h.next
  | cons t us =>
    obtain ⟨t', us', rfl, ht, -⟩ := List.map_eq_cons_iff.mp hsecond
    exact congrArg some ht.symm

theorem SameFront.cons (h : SameFront (t :: us) rest used' rest') :
    ∃ t' us', used' = t' :: us' ∧ t.unplaced = t'.unplaced ∧ SameFront us rest us' rest' := by
  obtain ⟨t', us', rfl, ht, hus⟩ := List.map_eq_cons_iff.mp h.used.symm
  exact ⟨t', us', rfl, ht.symm, ⟨hus.symm, h.next⟩⟩

theorem SameFront.firstToken (h : SameFront used rest used' rest') (hend : HasEnd rest) :
    (firstToken (used ++ rest)).unplaced = (firstToken (used' ++ rest')).unplaced := by
  cases used with
  | nil =>
    obtain rfl := List.map_eq_nil_iff.mp h.used.symm
    obtain ⟨t, us, rfl⟩ := hend.exists_cons
    obtain ⟨t', us', rfl⟩ := h.exists_cons hend
    exact Option.some.inj h.next
  | cons t us =>
    obtain ⟨t', us', rfl, ht, -⟩ := h.cons
    exact ht

namespace Parser

/-! ### What a reader takes -/

variable {n n' : Nat} {m m' : Parser α} {P : List Token → α → Prop} {Q : List Token → β → Prop}

/-- Of at most `n` tokens, the first of which is `t`, the reader `m` takes those at the front that
have the property together with what it gives; and of at most `n'` tokens that begin with `t'`, the
reader `m'` takes the same and gives the same. -/
structure TakesAt (t t' : Token) (n n' : Nat) (m m' : Parser α) (P : List Token → α → Prop) :
    Prop where
  front : ∀ {ts a rest}, HasEnd ts → firstToken ts = t → ts.length ≤ n → m ts = .ok (a, rest) →
    ∃ used, ts = used ++ rest ∧ HasEnd rest ∧ P used a
  again : ∀ {used a rest used' rest'}, HasEnd (used ++ rest) → firstToken (used ++ rest) = t →
    (used ++ rest).length ≤ n → m (used ++ rest) = .ok (a, rest) →
    SameFront used rest used' rest' → firstToken (used' ++ rest') = t' →
    (used' ++ rest').length ≤ n' → m' (used' ++ rest') = .ok (a, rest')

/-- The same for all first tokens. -/
def Takes (n n' : Nat) (m m' : Parser α) (P : List Token → α → Prop) : Prop :=
  ∀ t t', t.unplaced = t'.unplaced → TakesAt t t' n n' m m' P

theorem TakesAt.imp {P' : List Token → α → Prop} (h : TakesAt t t' n n' m m' P)
    (himp : ∀ used a, P used a → P' used a) : TakesAt t t' n n' m m' P' := by
  refine ⟨fun hend hfirst hn hread => ?_, h.again⟩
  obtain ⟨used, hts, hrest, hP⟩ := h.front hend hfirst hn hread
  exact ⟨used, hts, hrest, himp _ _ hP⟩

theorem TakesAt.mono {k k' : Nat} (h : TakesAt t t' n n' m m' P) (hk : k ≤ n) (hk' : k' ≤ n') :
    TakesAt t t' k k' m m' P where
  front hend hfirst hn hread := h.front hend hfirst (hn.trans hk) hread
  again hend hfirst hn hread hsame hfirst' hn' :=
    h.again hend hfirst (hn.trans hk) hread hsame hfirst' (hn'.trans hk')

theorem Takes.mono {k k' : Nat} (h : Takes n n' m m' P) (hk : k ≤ n) (hk' : k' ≤ n') :
    Takes k k' m m' P :=
  fun t t' ht => (h t t' ht).mono hk hk'

theorem takesAt_zero (t t' : Token) (n' : Nat) (m m' : Parser α) (P : List Token → α → Prop) :
    TakesAt t t' 0 n' m m' P := by
  constructor
  · intro ts a rest hend _ hn
    obtain ⟨t, us, rfl⟩ := hend.exists_cons
    exact absurd hn (Nat.not_succ_le_zero _)
  · intro used a rest used' rest' hend _ hn
    obtain ⟨t, us, heq⟩ := hend.exists_cons
    rw [heq] at hn
    exact absurd hn (Nat.not_succ_le_zero _)

theorem TakesAt.zero_right {m'' : Parser α} (h : TakesAt t t' n n' m m' P) :
    TakesAt t t' n 0 m m'' P := by
  refine ⟨h.front, fun hend hfirst hn hread hsame _ hn' => ?_⟩
  obtain ⟨used, hts, hrest, -⟩ := h.front hend hfirst hn hread
  obtain ⟨t, us, rfl⟩ := hsame.exists_cons hrest
  simp at hn'

theorem takes_pure {a : α} (h : P [] a) : Takes n n' (pure a) (pure a) P := by
  intro t t' _
  constructor
  · intro ts a' rest hend _ _ hread
    obtain ⟨rfl, rfl⟩ := Prod.mk.inj (Except.ok.inj hread)
    exact ⟨[], rfl, hend, h⟩
  · intro used a' rest used' rest' _ _ _ hread hsame _ _
    obtain ⟨rfl, hrest⟩ := Prod.mk.inj (Except.ok.inj hread)
    obtain rfl := List.append_left_eq_self.mp hrest
    obtain rfl := List.map_eq_nil_iff.mp hsame.used.symm
    rfl

theorem takes_fail (error : ParseError) (m' : Parser α) : Takes n n' (fail error) m' P :=
  fun _ _ _ => ⟨fun _ _ _ hread => (nomatch hread), fun _ _ _ hread => (nomatch hread)⟩

/-- A reader that gives something is one that gives something and goes on. -/
theorem bind_eq_ok {m : Parser β} {f : β → Parser α} {a : α} (h : (m >>= f) ts = .ok (a, rest)) :
    ∃ b us, m ts = .ok (b, us) ∧ f b us = .ok (a, rest) := by
  have h' : (m ts >>= fun read => f read.1 read.2) = .ok (a, rest) := h
  cases hfirst : m ts with
  | error failure =>
    rw [hfirst] at h'
    cases h'
  | ok read =>
    rw [hfirst] at h'
    exact ⟨read.1, read.2, rfl, h'⟩

/-- A reader that has given up does not go on. -/
theorem bind_error {m : Parser β} {failure : Failure} (h : m ts = .error failure)
    (f : β → Parser α) : (m >>= f) ts = .error failure := by
  show (m ts >>= fun read => f read.1 read.2) = _
  rw [h]
  rfl

theorem TakesAt.bind {m m' : Parser β} {f f' : β → Parser α} (hm : TakesAt t t' n n' m m' Q)
    (hf : ∀ b used, Q used b → Takes (n - used.length) (n' - used.length) (f b) (f' b)
      fun us a => P (used ++ us) a) : TakesAt t t' n n' (m >>= f) (m' >>= f') P := by
  constructor
  · intro ts a rest hend hfirst hn hread
    obtain ⟨b, mid, hb, ha⟩ := bind_eq_ok hread
    obtain ⟨used, rfl, hmid, hQ⟩ := hm.front hend hfirst hn hb
    rw [List.length_append] at hn
    obtain ⟨us, rfl, hrest, hP⟩ := (hf b used hQ _ _ rfl).front hmid rfl (by omega) ha
    exact ⟨used ++ us, (List.append_assoc used us rest).symm, hrest, hP⟩
  · intro used a rest used' rest' hend hfirst hn hread hsame hfirst' hn'
    obtain ⟨b, mid, hb, ha⟩ := bind_eq_ok hread
    obtain ⟨first, hts, hmid, hQ⟩ := hm.front hend hfirst hn hb
    have hlength := congrArg List.length hts
    simp only [List.length_append] at hlength hn hn'
    obtain ⟨second, rfl, hrest, -⟩ := (hf b first hQ _ _ rfl).front hmid rfl (by omega) ha
    rw [← List.append_assoc] at hts
    obtain rfl := List.append_cancel_right hts
    obtain ⟨first', second', rfl, hsame₁, hsame₂⟩ := hsame.split
    rw [List.append_assoc] at hb hend hfirst hfirst' ⊢
    have hsize := hsame₁.length
    simp only [List.length_append] at hn hn' hlength
    rw [bind_ok _ (hm.again hend hfirst (by simp; omega) hb hsame₁ hfirst' (by simp; omega))]
    exact (hf b first hQ _ _ (hsame₂.firstToken hrest)).again hmid rfl (by simp; omega) ha hsame₂
      rfl (by simp; omega)

theorem Takes.bind {m m' : Parser β} {f f' : β → Parser α} (hm : Takes n n' m m' Q)
    (hf : ∀ b used, Q used b → Takes (n - used.length) (n' - used.length) (f b) (f' b)
      fun us a => P (used ++ us) a) : Takes n n' (m >>= f) (m' >>= f') P :=
  fun t t' ht => (hm t t' ht).bind hf

/-! ### Single tokens -/

theorem takesAt_peek {f f' : Token → Parser α} (h : TakesAt t t' n n' (f t) (f' t') P) :
    TakesAt t t' n n' (peek >>= f) (peek >>= f') P := by
  constructor
  · rintro ts a rest hend rfl hn hread
    exact h.front hend rfl hn hread
  · rintro used a rest used' rest' hend rfl hn hread hsame rfl hn'
    exact h.again hend rfl hn hread hsame rfl hn'

theorem takes_peek {f f' : Token → Parser α}
    (h : ∀ t t', t.unplaced = t'.unplaced → TakesAt t t' n n' (f t) (f' t') P) :
    Takes n n' (peek >>= f) (peek >>= f') P :=
  fun t t' ht => takesAt_peek (h t t' ht)

/-- The first token is taken. -/
theorem takesAt_advance {f f' : Unit → Parser α} (ht : t.kind ≠ .eof)
    (h : Takes (n - 1) (n' - 1) (f ()) (f' ()) fun us a => P (t :: us) a) :
    TakesAt t t' n n' (advance >>= f) (advance >>= f') P := by
  constructor
  · intro ts a rest hend hfirst hn hread
    obtain ⟨t, us, rfl⟩ := hend.exists_cons
    obtain rfl : t = _ := hfirst
    rw [List.length_cons] at hn
    obtain ⟨used, rfl, hrest, hP⟩ :=
      (h _ _ rfl).front (hend.tail ht) rfl (by omega) (show f () us = _ from hread)
    exact ⟨t :: used, rfl, hrest, hP⟩
  · intro used a rest used' rest' hend hfirst hn hread hsame hfirst' hn'
    obtain ⟨first, us, hts⟩ := hend.exists_cons
    rw [hts] at hend hfirst hn hread
    obtain rfl : first = t := hfirst
    rw [List.length_cons] at hn
    have hread' : f () us = .ok (a, rest) := hread
    obtain ⟨more, rfl, hrest, -⟩ := (h _ _ rfl).front (hend.tail ht) rfl (by omega) hread'
    rw [← List.cons_append] at hts
    obtain rfl := List.append_cancel_right hts
    obtain ⟨first', more', rfl, -, hsame'⟩ := hsame.cons
    rw [List.cons_append, List.length_cons] at hn'
    exact (h _ _ (hsame'.firstToken hrest)).again (hend.tail ht) rfl (by omega) hread' hsame' rfl
      (by omega)

theorem takes_expect {kind : TokenKind} {f f' : Token → Parser α} (hkind : kind ≠ .eof)
    (h : ∀ t t', t.kind = kind → t.unplaced = t'.unplaced →
      Takes (n - 1) (n' - 1) (f t) (f' t') fun us a => P (t :: us) a) :
    Takes n n' (expect kind >>= f) (expect kind >>= f') P := by
  intro t t' ht
  have hkinds : t.kind = t'.kind := congrArg Prod.fst ht
  unfold expect
  rw [bind_assoc, bind_assoc]
  refine takesAt_peek ?_
  rw [← hkinds]
  by_cases hfound : t.kind = kind
  · rw [if_pos hfound, if_pos hfound, bind_assoc, bind_assoc]
    refine takesAt_advance (hfound ▸ hkind) ?_
    rw [pure_bind, pure_bind]
    exact h t t' hfound ht
  · rw [if_neg hfound]
    exact takes_fail _ _ t t' ht

theorem takes_accept {kind : TokenKind} {f f' : Bool → Parser α} (hkind : kind ≠ .eof)
    (htrue : ∀ t, t.kind = kind →
      Takes (n - 1) (n' - 1) (f true) (f' true) fun us a => P (t :: us) a)
    (hfalse : Takes n n' (f false) (f' false) P) :
    Takes n n' (accept kind >>= f) (accept kind >>= f') P := by
  intro t t' ht
  have hkinds : t.kind = t'.kind := congrArg Prod.fst ht
  unfold accept
  rw [bind_assoc, bind_assoc]
  refine takesAt_peek ?_
  rw [← hkinds]
  by_cases hfound : t.kind = kind
  · rw [if_pos hfound, bind_assoc, bind_assoc]
    refine takesAt_advance (hfound ▸ hkind) ?_
    rw [pure_bind, pure_bind]
    exact htrue t hfound
  · rw [if_neg hfound, pure_bind, pure_bind]
    exact hfalse t t' ht

/-- A repetition that is bounded by the number of tokens left is bounded by any greater one. -/
theorem takes_remaining {f f' : Nat → Parser α} (h : ∀ k k', Takes k k' (f k) (f' k') P) :
    Takes n n' (remaining >>= f) (remaining >>= f') P := by
  intro t t' ht
  constructor
  · intro ts a rest hend hfirst _ hread
    exact (h ts.length 0 t t' ht).front hend hfirst (Nat.le_refl _) hread
  · intro used a rest used' rest' hend hfirst _ hread hsame hfirst' _
    exact (h _ (used' ++ rest').length t t' ht).again hend hfirst (Nat.le_refl _) hread hsame
      hfirst' (Nat.le_refl _)

/-- What a repetition takes that starts from something, by induction on the bound of the one that is
known to read. -/
theorem takes_repeated_from {ι : Type} {f : Nat → ι → Parser α} {P : ι → List Token → α → Prop}
    (h : ∀ k k' i, (∀ j, Takes k k' (f k j) (f k' j) (P j)) →
      Takes (k + 1) (k' + 1) (f (k + 1) i) (f (k' + 1) i) (P i)) :
    ∀ k k' i, Takes k k' (f k i) (f k' i) (P i) := by
  intro k
  induction k with
  | zero => exact fun k' i t t' _ => takesAt_zero t t' k' _ _ (P i)
  | succ k ih =>
    intro k' i t t' ht
    cases k' with
    | zero => exact (h k 0 i (ih 0) t t' ht).zero_right
    | succ k' => exact h k k' i (ih k') t t' ht

theorem takes_repeated {f : Nat → Parser α}
    (h : ∀ k k', Takes k k' (f k) (f k') P → Takes (k + 1) (k' + 1) (f (k + 1)) (f (k' + 1)) P)
    (k k' : Nat) : Takes k k' (f k) (f k') P :=
  takes_repeated_from (f := fun k (_ : Unit) => f k) (P := fun _ => P)
    (fun k k' _ ih => h k k' (ih ())) k k' ()

end Parser

end NovelScript.Expr
