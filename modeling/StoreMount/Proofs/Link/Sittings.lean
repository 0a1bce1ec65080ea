import StoreMount.Proofs.Link.Trace

/-!
# Sessions are closed

Sessions are numbered as the server opens them. What an action writes down of a session that it
opens begins with its opening, goes on with calls in it and ends with its closing; of older sessions
it writes down nothing, unless it was given one, in which it makes calls and which it leaves open.
So actions can be put together: one after the other, and one inside a session that another opens and
closes. As many sessions are open afterwards as before.
-/
namespace StoreMount

namespace Event

def session? : Event → Option Session
  | .asked _ => none
  | .opened session | .called session _ | .closed session => some session

def about (id : Nat) (e : Event) : Bool := decide (e.session?.map Session.id = some id)

section About
variable (id : Nat) (s : Session)

@[simp] theorem about_opened : (opened s).about id = decide (s.id = id) := by simp [about, session?]
@[simp] theorem about_called (call : Call) : (called s call).about id = decide (s.id = id) := by
  simp [about, session?]
@[simp] theorem about_closed : (closed s).about id = decide (s.id = id) := by simp [about, session?]

end About

end Event

namespace Link

/-- All there is about one session, from its opening to its closing. -/
def Sitting (id : Nat) (events : List Event) : Prop :=
  ∃ (session : Session) (calls : List Call), session.id = id ∧
    events.filter (Event.about id) =
      .opened session :: (calls.map (.called session) ++ [.closed session])

/-- What is written down while the sessions from `first` up to `next` are opened, by an action that
was given a session or none. -/
structure Sittings (session : Option Session) (first : Nat) (events : List Event)
    (next : Nat) : Prop where
  le : first ≤ next
  given : ∀ id < first, events.filter (Event.about id) = [] ∨
    ∃ (s : Session) (calls : List Call), session = some s ∧ s.id = id ∧
      events.filter (Event.about id) = calls.map (.called s)
  opened : ∀ id, first ≤ id → id < next → Sitting id events
  unopened : ∀ id, next ≤ id → events.filter (Event.about id) = []

variable {session : Option Session} {s : Session} {l l' l'' : Link}

namespace Sittings

variable {first next last : Nat} {events events' : List Event}

theorem nil (session : Option Session) (first : Nat) : Sittings session first [] first where
  le := Nat.le_refl _
  given _ _ := .inl rfl
  opened _ h h' := absurd h' (Nat.not_lt.2 h)
  unopened _ _ := rfl

theorem asked (session : Option Session) (first : Nat) (user : String) :
    Sittings session first [.asked user] first where
  le := Nat.le_refl _
  given _ _ := .inl rfl
  opened _ h h' := absurd h' (Nat.not_lt.2 h)
  unopened _ _ := rfl

theorem called (hs : s.id < first) (call : Call) :
    Sittings (some s) first [.called s call] first where
  le := Nat.le_refl _
  given id _ := by
    by_cases hid : s.id = id
    · exact .inr ⟨s, [call], rfl, hid, by simp [hid]⟩
    · exact .inl (by simp [hid])
  opened _ h h' := absurd h' (Nat.not_lt.2 h)
  unopened id h := by
    have hid : s.id ≠ id := Nat.ne_of_lt (Nat.lt_of_lt_of_le hs h)
    simp [hid]

theorem untouched (h : Sittings session first events next) {id : Nat} (hid : id < first)
    (hs : ∀ s, session = some s → s.id ≠ id) : events.filter (Event.about id) = [] := by
  refine (h.given id hid).resolve_right ?_
  rintro ⟨s, -, hs', he, -⟩
  exact hs s hs' he

theorem append (hs : ∀ s, session = some s → s.id < first) (h : Sittings session first events next)
    (h' : Sittings session next events' last) :
    Sittings session first (events ++ events') last where
  le := Nat.le_trans h.le h'.le
  given id hid := by
    rw [List.filter_append]
    obtain he | ⟨s, calls, rfl, hsid, he⟩ := h.given id hid
    · rw [he, List.nil_append]
      exact h'.given id (Nat.lt_of_lt_of_le hid h.le)
    · obtain he' | ⟨s', calls', hs', -, he'⟩ := h'.given id (Nat.lt_of_lt_of_le hid h.le)
      · exact .inr ⟨s, calls, rfl, hsid, by rw [he, he', List.append_nil]⟩
      · obtain rfl := Option.some.inj hs'
        exact .inr ⟨s, calls ++ calls', rfl, hsid, by rw [he, he', List.map_append]⟩
  opened id hle hlt := by
    unfold Sitting
    rw [List.filter_append]
    -- a session of the first part is not the one that was given, so the second part does nothing in
    -- it
    by_cases hid : id < next
    · rw [h'.untouched hid fun s hs' he => absurd (hs s hs') (Nat.not_lt.2 (he ▸ hle)),
        List.append_nil]
      exact h.opened id hle hid
    · rw [h.unopened id (Nat.not_lt.1 hid), List.nil_append]
      exact h'.opened id (Nat.not_lt.1 hid) hlt
  unopened id hid := by
    rw [List.filter_append, h.unopened id (Nat.le_trans h'.le hid), h'.unopened id hid,
      List.append_nil]

theorem visit (hs : s.id = first) (h : Sittings (some s) (first + 1) events next) :
    Sittings session first (.opened s :: (events ++ [.closed s])) next where
  le := Nat.le_of_succ_le h.le
  given id hid := by
    have hne : s.id ≠ id := hs ▸ (Nat.ne_of_lt hid).symm
    have hnone : events.filter (Event.about id) = [] :=
      h.untouched (Nat.lt_succ_of_lt hid) fun s' hs' => Option.some.inj hs' ▸ hne
    exact .inl (by simp [hne, hnone])
  opened id hle hlt := by
    by_cases hid : s.id = id
    · obtain ⟨calls, hcalls⟩ : ∃ calls : List Call,
          events.filter (Event.about id) = calls.map (.called s) := by
        obtain he | ⟨s', calls, hs', -, he⟩ := h.given id (hid ▸ hs ▸ Nat.lt_succ_self _)
        · exact ⟨[], he⟩
        · exact ⟨calls, Option.some.inj hs' ▸ he⟩
      exact ⟨s, calls, hid, by simp [hid, hcalls]⟩
    · have hlater : first + 1 ≤ id := Nat.lt_of_le_of_ne hle fun he => hid (hs.trans he)
      obtain ⟨s', calls, hid', he⟩ := h.opened id hlater hlt
      exact ⟨s', calls, hid', by simp [hid, he]⟩
  unopened id hid := by
    have hne : s.id ≠ id := fun he => by
      have := h.le
      omega
    simp [hne, h.unopened id hid]

end Sittings

/-- From one link to the other sessions have been opened and closed, and the one that was given, if
any, has been used. -/
structure Tidy (session : Option Session) (l l' : Link) : Prop where
  written : ∃ events, l'.trace = l.trace ++ events ∧
    Sittings session l.server.opened events l'.server.opened
  openNow : l'.server.openNow = l.server.openNow

def Given (session : Option Session) (l : Link) : Prop :=
  ∀ s, session = some s → s.id < l.server.opened

theorem given_none (l : Link) : Given none l := fun _ hs => nomatch hs

namespace Tidy

theorem of_eq (ht : l'.trace = l.trace) (hs : l'.server.opened = l.server.opened)
    (hn : l'.server.openNow = l.server.openNow) :
    Tidy session l l' := ⟨⟨[], by rw [ht, List.append_nil], hs ▸ .nil session _⟩, hn⟩

theorem refl (session : Option Session) (l : Link) : Tidy session l l := .of_eq rfl rfl rfl

theorem given (h : Tidy session l l') (hg : Given session l) : Given session l' := fun s hs => by
  obtain ⟨events, -, he⟩ := h.written
  exact Nat.lt_of_lt_of_le (hg s hs) he.le

theorem trans (hg : Given session l) (h : Tidy session l l') (h' : Tidy session l' l'') :
    Tidy session l l'' where
  written := by
    obtain ⟨events, ht, he⟩ := h.written
    obtain ⟨events', ht', he'⟩ := h'.written
    exact ⟨events ++ events', by rw [ht', ht, List.append_assoc], he.append hg he'⟩
  openNow := h'.openNow.trans h.openNow

end Tidy

/-- Every session that the server opened in between was closed once and not used afterwards, no
other session was used or closed, and as many are open as before. -/
structure Balances (l l' : Link) : Prop where
  written : ∃ events, l'.trace = l.trace ++ events ∧ ∀ id,
    if l.server.opened ≤ id ∧ id < l'.server.opened then Sitting id events
      else events.filter (Event.about id) = []
  openNow : l'.server.openNow = l.server.openNow

theorem Tidy.balances (h : Tidy none l l') : l.Balances l' where
  written := by
    obtain ⟨events, ht, he⟩ := h.written
    refine ⟨events, ht, fun id => ?_⟩
    split
    · next hid => exact he.opened id hid.1 hid.2
    · next hid =>
      by_cases hlt : id < l.server.opened
      · exact he.untouched hlt fun _ hs => nomatch hs
      · exact he.unopened id (Nat.not_lt.1 fun hnext => hid ⟨Nat.not_lt.1 hlt, hnext⟩)
  openNow := h.openNow

structure Entered (l : Link) (s : Session) (l' : Link) : Prop where
  trace : l'.trace = l.trace ++ [.opened s]
  id : s.id = l.server.opened
  notClosed : s.closed = false
  opened : l'.server.opened = l.server.opened + 1
  openNow : l'.server.openNow = l.server.openNow + 1

theorem Entered.given (h : Entered l s l') : Given (some s) l' := by
  rintro _ ⟨⟩
  rw [h.id, h.opened]
  exact Nat.lt_succ_self _

theorem server_close (h : s.closed = false) (l : Link) :
    (l.close s).server = { l.server with openNow := l.server.openNow - 1 } := by
  rw [close, record, Server.close, h]
  rfl

theorem Entered.closed (h : Entered l s l') (h' : Tidy (some s) l' l'') :
    Tidy session l (l''.close s) where
  written := by
    obtain ⟨events, ht, he⟩ := h'.written
    refine ⟨.opened s :: (events ++ [.closed s]), ?_, ?_⟩
    · change l''.trace ++ [.closed s] = _
      rw [ht, h.trace, List.append_assoc, List.append_assoc]
      rfl
    · rw [server_close h.notClosed]
      exact .visit h.id (h.opened ▸ he)
  openNow := by
    rw [server_close h.notClosed, h'.openNow, h.openNow]
    rfl

/-! ## Actions -/

def Tidies {σ ε α : Type} (link : σ → Link) (session : Option Session)
    (m : ExceptT ε (StateM σ) α) : Prop :=
  ∀ s, Given session (link s) → Tidy session (link s) (link (m s).2)

namespace Tidies

variable {σ ε α β : Type} {link : σ → Link} {m : ExceptT ε (StateM σ) α}

theorem of_keeps (h : Keeps link m) : Tidies link session m := fun s _ => h s ▸ .refl session _

theorem bind {rest : α → ExceptT ε (StateM σ) β} (hm : Tidies link session m)
    (hr : ∀ a, Tidies link session (rest a)) :
    Tidies link session (m >>= rest) := by
  intro s hs
  have := hm s hs
  rw [bind_apply]
  rcases h : (m s : Except ε α × σ) with ⟨e | a, s'⟩ <;> rw [h] at this
  · exact this
  · exact this.trans hs (hr a s' (this.given hs))

theorem of_catch {handler : ε → ExceptT ε (StateM σ) α} (hm : Tidies link session m)
    (hh : ∀ e, Tidies link session (handler e)) :
    Tidies link session (tryCatch m handler) := by
  intro s hs
  have := hm s hs
  rw [tryCatch_apply]
  rcases h : (m s : Except ε α × σ) with ⟨e | a, s'⟩ <;> rw [h] at this
  · exact this.trans hs (hh e s' (this.given hs))
  · exact this

end Tidies

variable {ε α β : Type}

theorem perform_tidies (s : Session) (call : Call)
    (action : Store → Except StoreError (α × Store)) :
    Tidies id (some s) (perform s call action) := by
  intro l hl
  have hcount : (perform s call action l).2.server.opened = l.server.opened ∧
      (perform s call action l).2.server.openNow = l.server.openNow := by
    rw [perform_apply]
    split
    · exact ⟨rfl, rfl⟩
    · split <;> exact ⟨rfl, rfl⟩
  refine ⟨⟨[.called s call], trace_perform s call action l, ?_⟩, hcount.2⟩
  exact hcount.1.symm ▸ .called (hl s rfl) call

theorem Within.tidies {D : Store → Store → Prop} {action : LinkM StoreError α}
    (h : Within s D action) :
    Tidies id (some s) action := by
  induction h with
  | looks h => exact .of_keeps h
  | asks call question => exact perform_tidies s call _
  | performs call => exact perform_tidies s call _
  | bind _ _ ih ih' => exact ih.bind ih'

theorem announce_tidies (account : Account) : Tidies id session (announce account) := by
  refine .bind (fun l _ => ⟨⟨[.asked account.clientUser], rfl, .asked session _ _⟩, rfl⟩)
    fun _ l _ => ?_
  unfold check
  split <;> exact .of_eq rfl rfl rfl

theorem announce_tidy (account : Account) (l : Link) : Tidy none l (announce account l).2 :=
  announce_tidies account l (given_none l)

theorem enter_entered (account : Account) (l : Link) :
    Triple (· = l) (enter account) (fun s l' => Entered l s l') fun _ l' => l' = l := by
  rintro l rfl
  simp only [enter, bind_apply, get_apply, lift_apply, set_apply, modify_apply, pure_apply]
  cases hc : l.server.connect account with
  | error e => rfl
  | ok opened =>
    obtain ⟨s, v⟩ := opened
    obtain ⟨rfl, rfl⟩ := connect_eq_ok hc
    exact ⟨rfl, rfl, rfl, rfl, rfl⟩

def Connected (session : Option Session) (l : Link) (s : Session) (l'' : Link) : Prop :=
  ∃ l', Tidy session l l' ∧ Entered l' s l''

theorem connect_connected (account : Account) (hl : Given session l) :
    Triple (· = l) (connect account) (Connected session l) fun _ l' => Tidy session l l' := by
  rintro l rfl
  have hasked := announce_tidies account l hl
  rw [connect, bind_apply]
  rcases ha : (announce account l : Except StoreError Unit × Link) with ⟨e | a, l'⟩
    <;> rw [ha] at hasked
  · exact hasked
  · refine (enter_entered account l').weaken (fun _ h => h)
      (fun s l'' h => ⟨l', hasked, h⟩) ?_ l' rfl
    rintro _ _ rfl
    exact hasked

theorem Tidies.visit {σ : Type} {link : σ → Link} {opening : ExceptT ε (StateM σ) Session}
    {body : Session → ExceptT ε (StateM σ) α} (shut : Session → σ → σ)
    (hopening : ∀ x, Given session (link x) →
      Triple (· = x) opening (fun s x' => Connected session (link x) s (link x')) fun _ x' =>
        Tidy session (link x) (link x')) (hbody : ∀ s, Tidies link (some s) (body s))
    (hshut : ∀ s x, link (shut s x) = (link x).close s) :
    Tidies link session (opening >>= fun s x => ((body s x).1, shut s (body s x).2)) := by
  intro x hx
  have hopened := hopening x hx x rfl
  rw [bind_apply]
  rcases ho : (opening x : Except ε Session × σ) with ⟨e | s, x'⟩ <;> rw [ho] at hopened
  · exact hopened
  · obtain ⟨l, hasked, hentered⟩ := hopened
    change Tidy session (link x) (link (shut s (body s x').2))
    rw [hshut]
    exact hasked.trans hx (hentered.closed (hbody s x' hentered.given))

theorem during_tidies {account : Account} {convert : StoreError → ε} {body : Session → LinkM ε α}
    (h : ∀ s, Tidies id (some s) (body s)) : Tidies id session (during account convert body) :=
  .visit close (fun _ hl => Triple.failingAs (connect_connected account hl)) h fun _ _ => rfl

end Link
end StoreMount
