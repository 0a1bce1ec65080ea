import StoreMount.Link
import StoreMount.Proofs.Store.Changes
import StoreMount.Proofs.Triple

/-!
# What the link does to the store

A call that a fault fails does not reach the store, and one that reaches it does there what the
store's own call does: if that fails nothing has changed. Sessions come and go without a trace in
the store.
-/
namespace StoreMount.Link

def store (l : Link) : Store := l.server.store

variable {ε α β : Type}

theorem perform_apply (session : Session) (call : Call)
    (action : Store → Except StoreError (α × Store)) (l : Link) :
    perform session call action l =
      match Fault.strike? l.faults call.method call.subject with
      | some (e, faults) => (.error e, { l.record (.called session call) with faults })
      | none =>
        match action l.server.store with
        | .error e => (.error e, l.record (.called session call))
        | .ok (a, store) =>
          (.ok a, { l.record (.called session call) with server := { l.server with store } }) := by
  simp only [perform, bind_apply, modify_apply, check, get_apply, lift_apply, set_apply, pure_apply]
  cases hf : Fault.strike? l.faults call.method call.subject with
  | some f => simp [record, hf]
  | none =>
    cases ha : action l.server.store with
    | error e => simp [record, hf, ha]
    | ok a => simp [record, hf, ha]

/-! ## Sessions -/

@[simp] theorem store_record (e : Event) (l : Link) : (l.record e).store = l.store := rfl

@[simp] theorem store_close (session : Session) (l : Link) : (l.close session).store = l.store := by
  unfold close Server.close
  split <;> rfl

theorem keeps_check (method subject : String) : Keeps store (check method subject) := by
  intro l
  unfold check
  split <;> rfl

theorem keeps_announce (account : Account) : Keeps store (announce account) := by
  unfold announce
  exact Keeps.bind (Keeps.of_modify (store_record _)) fun _ => keeps_check _ _

theorem connect_eq_ok {v v' : Server} {account : Account} {session : Session}
    (h : v.connect account = .ok (session, v')) :
    session = ⟨v.opened, account.clientUser, false⟩ ∧
      v' = { v with opened := v.opened + 1, openNow := v.openNow + 1 } := by
  unfold Server.connect at h
  obtain ⟨_, -, h⟩ := Store.bind_eq_ok h
  cases h
  exact ⟨rfl, rfl⟩

theorem store_connect {v v' : Server} {account : Account} {session : Session}
    (h : v.connect account = .ok (session, v')) : v'.store = v.store := by
  rw [(connect_eq_ok h).2]

theorem keeps_enter (account : Account) : Keeps store (enter account) := by
  intro l
  simp only [enter, bind_apply, get_apply, lift_apply]
  cases h : l.server.connect account with
  | error e => rfl
  | ok c => exact store_connect h

theorem keeps_connect (account : Account) : Keeps store (connect account) :=
  (keeps_announce account).bind fun _ => keeps_enter account

theorem Keeps.failingAs {convert : StoreError → ε} {action : LinkM StoreError α}
    (h : Keeps store action) :
    Keeps store (failingAs convert action) := h

theorem keeps_during {account : Account} {convert : StoreError → ε} {body : Session → LinkM ε α}
    (h : ∀ session, Keeps store (body session)) : Keeps store (during account convert body) :=
  (Keeps.failingAs (keeps_connect account)).bind fun session l =>
    (store_close session _).trans (h session l)

/-- Opening and closing a session are not seen from the store, so only its use counts. -/
theorem during_triple {account : Account} {convert : StoreError → ε} {body : Session → LinkM ε α}
    {s : Store} {Q : α → Store → Prop} {E : Store → Prop} (h : ∀ session, Triple (store · = s)
      (body session) (fun a l => Q a l.store) (fun _ l => E l.store)) (hs : E s) :
    Triple (store · = s) (during account convert body) (fun a l => Q a l.store)
      (fun _ l => E l.store) := by
  refine Keeps.then_triple (Keeps.failingAs (keeps_connect account))
    (fun _ _ h => h ▸ hs) fun session l hl => ?_
  have := h session l hl
  rcases hb : (body session l : Except ε α × Link) with ⟨e | a, l'⟩ <;> rw [hb] at this
  · exact (congrArg E (store_close session l')).mpr this
  · exact (congrArg (Q a) (store_close session l')).mpr this

theorem during_answers {account : Account} {convert : StoreError → ε} {body : Session → LinkM ε α}
    {C : α → Prop}
    (h : ∀ session, Triple (fun _ => True) (body session) (fun a _ => C a) (fun _ _ => True)) :
    Triple (fun _ => True) (during account convert body) (fun a _ => C a) (fun _ _ => True) := by
  refine Triple.trivial.bind fun session l hl => ?_
  have := h session l hl
  rcases hb : (body session l : Except ε α × Link) with ⟨e | a, l'⟩ <;> rw [hb] at this
    <;> exact this

/-! ## Calls -/

section Calls
variable (session : Session) (call : Call)

theorem perform_triple (action : Store → Except StoreError (α × Store)) (s : Store) :
    Triple (store · = s) (perform session call action) (fun a l => action s = .ok (a, l.store))
      (fun _ l => l.store = s) := by
  rintro l rfl
  rw [perform_apply]
  cases Fault.strike? l.faults call.method call.subject with
  | some f => rfl
  | none =>
    cases h : action l.server.store with
    | error e => rfl
    | ok a => exact h

theorem ask_triple (question : Store → Except StoreError α) (s : Store) :
    Triple (store · = s) (ask session call question) (fun a l => l.store = s ∧ question s = .ok a)
      (fun _ l => l.store = s) := by
  refine (perform_triple session call _ s).weaken (fun _ h => h) (fun a l h => ?_) fun _ _ h => h
  cases hq : question s with
  | error e => simp [hq, Except.map] at h
  | ok b =>
    simp only [hq, Except.map, Except.ok.injEq, Prod.mk.injEq] at h
    exact ⟨h.2.symm, by rw [h.1]⟩

theorem tell_triple (action : Store → Except StoreError Store) (s : Store) :
    Triple (store · = s) (tell session call action) (fun _ l => action s = .ok l.store)
      (fun _ l => l.store = s) := by
  refine (perform_triple session call _ s).weaken (fun _ h => h) (fun a l h => ?_) fun _ _ h => h
  cases hq : action s with
  | error e => simp [hq, Except.map] at h
  | ok s' =>
    simp only [hq, Except.map, Except.ok.injEq, Prod.mk.injEq] at h
    rw [h.2]

theorem Triple.keeps {action : LinkM ε α}
    (h : ∀ s, Triple (store · = s) action (fun _ l => l.store = s) (fun _ l => l.store = s)) :
    Keeps store action := by
  intro l
  have := h l.store l rfl
  split at this <;> simp_all

theorem keeps_ask (question : Store → Except StoreError α) :
    Keeps store (ask session call question) :=
  Triple.keeps fun s =>
    (ask_triple session call question s).weaken (fun _ h => h) (fun _ _ h => h.1) fun _ _ h => h

theorem stat_triple (path : Path) (s : Store) :
    Triple (store · = s) (stat session path)
      (fun status l => l.store = s ∧ ∃ kind base,
        s.stat path = .ok base ∧ status = { base with kind })
      (fun _ l => l.store = s) := by
  refine (ask_triple session _ _ s).bind fun status => Triple.of_get.bind fun l => ?_
  split
  · next kind _ => exact Triple.of_pure fun l h => ⟨h.2.1, kind, status, h.2.2, rfl⟩
  · exact Triple.of_pure fun l h => ⟨h.2.1, status.kind, status, h.2.2, rfl⟩

theorem keeps_stat (path : Path) : Keeps store (stat session path) :=
  Triple.keeps fun s =>
    (stat_triple session path s).weaken (fun _ h => h) (fun _ _ h => h.1) fun _ _ h => h

theorem Triple.failingAs {action : LinkM StoreError α} {P : Link → Prop} {Q : α → Link → Prop}
    {E : Link → Prop} {convert : StoreError → ε} (h : Triple P action Q (fun _ => E)) :
    Triple P (failingAs convert action) Q (fun _ => E) := by
  intro l hl
  have := h l hl
  simp only [Link.failingAs]
  rcases ha : (action l : Except StoreError α × Link) with ⟨e | a, l'⟩ <;> rw [ha] at this
    <;> exact this

theorem keeps_findUser (name : String) : Keeps store (findUser session name) :=
  (keeps_ask session _ _).bind fun _ => Keeps.of_get.bind fun _ => Keeps.of_pure

end Calls

/-! ## A link that nobody interferes with

Without faults, kinds reported otherwise and hidden accounts, the outcome of a call is settled by
the store alone. Which session it is made in does not matter, only for whom.
-/

structure Serves (l : Link) (s : Store) : Prop where
  store : l.store = s
  faults : l.faults = []
  kinds : l.kinds = .empty
  hidden : l.hidden = []

section Serves
variable {l : Link} {s s' : Store} {account : Account} {session : Session} {call : Call}

theorem Serves.record (h : l.Serves s) (e : Event) : (l.record e).Serves s :=
  ⟨h.store, h.faults, h.kinds, h.hidden⟩

theorem Serves.close (h : l.Serves s) (session : Session) : (l.close session).Serves s :=
  ⟨(store_close session l).trans h.store, h.faults, h.kinds, h.hidden⟩

theorem perform_gives_ok {action : Store → Except StoreError (α × Store)} {a : α}
    (ha : action s = .ok (a, s')) :
    Gives (Serves · s) (perform session call action) (.ok a) (Serves · s') := by
  intro l hl
  have ha : action l.server.store = .ok (a, s') := (congrArg action hl.store).trans ha
  rw [perform_apply, hl.faults, Fault.strike?]
  simp only [ha, true_and]
  exact ⟨rfl, hl.faults, hl.kinds, hl.hidden⟩

theorem perform_gives_error {action : Store → Except StoreError (α × Store)} {e : StoreError}
    (he : action s = .error e) :
    Gives (Serves · s) (perform session call action) (.error e) (Serves · s) := by
  intro l hl
  have he : action l.server.store = .error e := (congrArg action hl.store).trans he
  rw [perform_apply, hl.faults, Fault.strike?]
  simp only [he, true_and]
  exact hl.record _

theorem tell_gives_ok {action : Store → Except StoreError Store} (ha : action s = .ok s') :
    Gives (Serves · s) (tell session call action) (.ok ()) (Serves · s') :=
  perform_gives_ok (by rw [ha]; rfl)

theorem tell_gives_error {action : Store → Except StoreError Store} {e : StoreError}
    (he : action s = .error e) :
    Gives (Serves · s) (tell session call action) (.error e) (Serves · s) :=
  perform_gives_error (by rw [he]; rfl)

theorem ask_gives (question : Store → Except StoreError α) :
    Gives (Serves · s) (ask session call question) (question s) (Serves · s) := by
  cases h : question s with
  | ok a => exact perform_gives_ok (by rw [h]; rfl)
  | error e => exact perform_gives_error (by rw [h]; rfl)

theorem stat_gives (path : Path) :
    Gives (Serves · s) (stat session path) (s.stat path) (Serves · s) := by
  have hask : Gives (Serves · s) (ask session (.stat path) (·.stat path)) (s.stat path)
      (Serves · s) :=
    ask_gives (·.stat path)
  cases h : s.stat path with
  | error e => exact (h ▸ hask).bind_error
  | ok status =>
    refine (h ▸ hask).bind_ok (Gives.bind_get fun l hl => ?_)
    rw [hl.kinds, Table.get?_empty]
    exact Gives.of_pure

theorem findUser_gives (name : String) :
    Gives (Serves · s) (findUser session name) (.ok (s.findUser name)) (Serves · s) := by
  refine (ask_gives (fun s => .ok (s.findUser name))).bind_ok (Gives.bind_get fun l hl => ?_)
  rw [hl.hidden]
  exact Gives.of_pure

theorem announce_gives (account : Account) :
    Gives (Serves · s) (announce account) (.ok ()) (Serves · s) := by
  unfold announce
  refine Gives.bind_ok (I := (Serves · s)) (Gives.of_modify fun l hl => hl.record _) fun l hl => ?_
  rw [check, hl.faults, Fault.strike?]
  exact ⟨rfl, hl⟩

theorem enter_gives_error {e : StoreError} (h : s.admits account = .error e) :
    Gives (Serves · s) (enter account) (.error e) (Serves · s) := by
  intro l hl
  have hc : l.server.connect account = .error e := by
    rw [Server.connect, show l.server.store = s from hl.store, h]
    rfl
  simp only [enter, bind_apply, get_apply, lift_apply, hc, true_and]
  exact hl

theorem connect_gives_error {e : StoreError} (h : s.admits account = .error e) :
    Gives (Serves · s) (connect account) (.error e) (Serves · s) :=
  (announce_gives account).bind_ok (enter_gives_error h)

theorem connect_ok {l : Link} (h : s.admits account = .ok ()) (hl : l.Serves s) :
    ∃ session l', connect account l = (.ok session, l') ∧ session.user = account.clientUser ∧
      l'.Serves s := by
  obtain ⟨hok, hl'⟩ := announce_gives account l hl
  rcases ha : (announce account l : Except StoreError Unit × Link) with ⟨x, l'⟩
  rw [ha] at hok hl'
  obtain rfl : x = .ok () := hok
  have hc : l'.server.connect account = .ok (⟨l'.server.opened, account.clientUser, false⟩,
      { l'.server with opened := l'.server.opened + 1, openNow := l'.server.openNow + 1 }) := by
    have hadmits : l'.server.store.admits account = .ok () :=
      (congrArg (Store.admits · account) hl'.store).trans h
    rw [Server.connect, hadmits]
    rfl
  refine ⟨_, _, by simp only [connect, bind_apply, ha, enter, get_apply, lift_apply, hc]; rfl,
    rfl, ?_⟩
  exact ⟨hl'.store, hl'.faults, hl'.kinds, hl'.hidden⟩

theorem during_gives_error {convert : StoreError → ε} {body : Session → LinkM ε α} {e : StoreError}
    (h : s.admits account = .error e) :
    Gives (Serves · s) (during account convert body) (.error (convert e)) (Serves · s) := by
  refine Gives.bind_error fun l hl => ?_
  obtain ⟨he, hl'⟩ := connect_gives_error h l hl
  exact ⟨congrArg (Except.mapError convert) he, hl'⟩

theorem during_gives {convert : StoreError → ε} {body : Session → LinkM ε α} {r : Except ε α}
    (h : s.admits account = .ok ()) (hbody : ∀ session, session.user = account.clientUser →
      Gives (Serves · s) (body session) r (Serves · s')) :
    Gives (Serves · s) (during account convert body) r (Serves · s') := by
  intro l hl
  obtain ⟨session, l', hconnect, huser, hl'⟩ := connect_ok h hl
  obtain ⟨hr, hs'⟩ := hbody session huser l' hl'
  simp only [during, bind_apply, failingAs, hconnect]
  exact ⟨hr, hs'.close session⟩

theorem Gives.failingAs {action : LinkM StoreError α} {P P' : Link → Prop} {r : Except StoreError α}
    {convert : StoreError → ε} (h : Gives P action r P') :
    Gives P (failingAs convert action) (r.mapError convert) P' :=
  fun l hl => ⟨congrArg (Except.mapError convert) (h l hl).1, (h l hl).2⟩

end Serves

end StoreMount.Link
