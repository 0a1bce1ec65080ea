import StoreMount.AclExchange
import StoreMount.Proofs.Link
import StoreMount.Proofs.Resolver

/-!
# What is written down

The link writes down whom a session was asked for, the session if it was opened, every call made in
it, and that it was closed. An action of one session writes down nothing but calls of it. Opening a
session for an account, using it and closing it again writes down a visit.
-/
namespace StoreMount

namespace Event

def user : Event → String
  | .asked user => user
  | .opened session | .called session _ | .closed session => session.user

end Event

/-- The action writes down events of a kind, however it ends. -/
def Writes {σ ε α : Type} (trace : σ → List Event) (E : List Event → Prop)
    (m : ExceptT ε (StateM σ) α) : Prop :=
  ∀ s, ∃ events, trace (m s).2 = trace s ++ events ∧ E events

namespace Writes

variable {σ ε α β : Type} {trace : σ → List Event} {E E' E'' : List Event → Prop}
    {m : ExceptT ε (StateM σ) α}

theorem of_keeps (h : Keeps trace m) (hE : E []) : Writes trace E m :=
  fun s => ⟨[], by rw [h s, List.append_nil], hE⟩

theorem weaken (h : Writes trace E m) (hE : ∀ events, E events → E' events) :
    Writes trace E' m := fun s => by
  obtain ⟨events, hevents, he⟩ := h s
  exact ⟨events, hevents, hE events he⟩

theorem bind {f : α → ExceptT ε (StateM σ) β} (hm : Writes trace E m)
    (hf : ∀ a, Writes trace E (f a)) (happend : ∀ events events',
      E events → E events' → E (events ++ events')) : Writes trace E (m >>= f) := by
  intro s
  obtain ⟨events, hevents, he⟩ := hm s
  rw [bind_apply]
  rcases h : (m s : Except ε α × σ) with ⟨e | a, s'⟩ <;> rw [h] at hevents
  · exact ⟨events, hevents, he⟩
  · obtain ⟨events', hevents', he'⟩ := hf a s'
    refine ⟨events ++ events', ?_, happend _ _ he he'⟩
    rw [hevents', hevents, List.append_assoc]

theorem of_catch {handler : ε → ExceptT ε (StateM σ) α} (hm : Writes trace E m)
    (hh : ∀ e, Writes trace E (handler e)) (happend : ∀ events events',
      E events → E events' → E (events ++ events')) : Writes trace E (tryCatch m handler) := by
  intro s
  obtain ⟨events, hevents, he⟩ := hm s
  rw [tryCatch_apply]
  rcases h : (m s : Except ε α × σ) with ⟨e | a, s'⟩ <;> rw [h] at hevents
  · obtain ⟨events', hevents', he'⟩ := hh e s'
    refine ⟨events ++ events', ?_, happend _ _ he he'⟩
    rw [hevents', hevents, List.append_assoc]
  · exact ⟨events, hevents, he⟩

end Writes

namespace Link

/-! ## Calls of one session -/

/-- The action looks at the link, asks the store in calls of the session, and changes it there in
ways of a kind. -/
inductive Within (session : Session) (Does : Store → Store → Prop) :
    {α : Type} → LinkM StoreError α → Prop
  | looks {α : Type} {action : LinkM StoreError α} (h : Keeps id action) :
      Within session Does action
  | asks {α : Type} (call : Call) (question : Store → Except StoreError α) :
      Within session Does (ask session call question)
  | performs {α : Type} (call : Call) {action : Store → Except StoreError (α × Store)}
      (h : ∀ s a s', action s = .ok (a, s') → Does s s') :
        Within session Does (perform session call action)
  | bind {α β : Type} {action : LinkM StoreError α} {rest : α → LinkM StoreError β}
      (head : Within session Does action)
      (tail : ∀ a, Within session Does (rest a)) : Within session Does (action >>= rest)

namespace Within

variable (session : Session) {Does : Store → Store → Prop}

theorem tells (call : Call) {action : Store → Except StoreError Store}
    (h : ∀ s s', action s = .ok s' → Does s s') :
    Within session Does (tell session call action) := .performs call fun s _ s' hs => by
  cases ha : action s with
  | error e => simp [ha, Except.map] at hs
  | ok t =>
    simp only [ha, Except.map, Except.ok.injEq, Prod.mk.injEq] at hs
    exact h s s' (hs.2 ▸ ha)

theorem stat (path : Path) : Within session Does (Link.stat session path) := by
  refine .bind (.asks _ _) fun status => .bind (.looks Keeps.of_get) fun l => .looks ?_
  split <;> exact Keeps.of_pure

theorem findUser (name : String) : Within session Does (Link.findUser session name) :=
  .bind (.asks _ _) fun _ => .bind (.looks Keeps.of_get) fun _ => .looks Keeps.of_pure

theorem toEntries (r : Resolver) (ids : Identities) (aces : List Ace) :
    Within session Does (AclExchange.toEntries r ids session aces) := by
  induction aces with
  | nil => exact .looks Keeps.of_pure
  | cons ace aces ih =>
    refine .bind ?_ fun _ => .bind ih fun _ => .looks Keeps.of_pure
    unfold AclExchange.toEntry
    split
    · exact .looks Keeps.of_pure
    · refine .bind (findUser session _) fun found => .looks ?_
      cases found <;> exact Keeps.of_pure

theorem sustains {session : Session} {C : Store → Prop} (hC : ∀ s s', Does s s' → C s → C s')
    {α : Type} {action : LinkM StoreError α} (h : Within session Does action) :
    Sustains (fun l : Link => C l.store) action := by
  induction h with
  | looks h => exact .of_keeps fun l => congrArg store (h l)
  | asks call question => exact .of_keeps (keeps_ask session call question)
  | @performs _ call action h =>
    intro l hl
    have hdone := perform_triple session call action l.store l rfl
    rcases hp : (perform session call action l : Except StoreError _ × Link) with ⟨e | a, l'⟩
      <;> rw [hp] at hdone
    · exact hdone ▸ hl
    · exact hC _ _ (h _ _ _ hdone) hl
  | bind _ _ ih ih' => exact ih.bind ih'

end Within

def CallsOf (session : Session) (events : List Event) : Prop :=
  ∃ calls : List Call, events = calls.map (.called session)

theorem CallsOf.append {session : Session} {events events' : List Event}
    (h : CallsOf session events) (h' : CallsOf session events') :
    CallsOf session (events ++ events') := by
  obtain ⟨calls, rfl⟩ := h
  obtain ⟨calls', rfl⟩ := h'
  exact ⟨calls ++ calls', List.map_append.symm⟩

theorem trace_perform {α : Type} (session : Session) (call : Call)
    (action : Store → Except StoreError (α × Store)) (l : Link) :
    (perform session call action l).2.trace = l.trace ++ [.called session call] := by
  rw [perform_apply]
  split
  · rfl
  · split <;> rfl

theorem Within.writes {session : Session} {D : Store → Store → Prop} {α : Type}
    {action : LinkM StoreError α} (h : Within session D action) :
    Writes Link.trace (CallsOf session) action := by
  induction h with
  | looks h => exact .of_keeps (fun l => congrArg Link.trace (h l)) ⟨[], rfl⟩
  | asks call => exact fun l =>
    ⟨[.called session call], trace_perform session call _ l, [call], rfl⟩
  | performs call => exact fun l =>
    ⟨[.called session call], trace_perform session call _ l, [call], rfl⟩
  | bind _ _ ih ih' => exact ih.bind ih' fun _ _ => CallsOf.append

/-! ## Visits -/

/-- All that is written down of one session for an account, from asking for it to closing it. -/
inductive Visit (account : Account) (Inside : Session → List Event → Prop) : List Event → Prop
  | refused : Visit account Inside [.asked account.clientUser]
  | made {session : Session} {events : List Event} (owner : session.user = account.clientUser)
      (inside : Inside session events) :
      Visit account Inside
        (.asked account.clientUser :: .opened session :: (events ++ [.closed session]))

theorem connect_writes (account : Account) (trace : List Event) :
    Triple (fun l : Link => l.trace = trace) (connect account)
      (fun session l => session.user = account.clientUser ∧
        l.trace = trace ++ [.asked account.clientUser, .opened session])
      (fun _ l => l.trace = trace ++ [.asked account.clientUser]) := by
  rintro l rfl
  simp only [connect, announce, check, enter, bind_apply, modify_apply, get_apply, lift_apply,
    set_apply, pure_apply]
  cases Fault.strike?
    (l.record (.asked account.clientUser)).faults "connect" account.clientUser with
  | some struck => rfl
  | none =>
    dsimp only
    cases hc : (l.record (.asked account.clientUser)).server.connect account with
    | error e => rfl
    | ok opened =>
      obtain ⟨session, server⟩ := opened
      exact ⟨by rw [(connect_eq_ok hc).1], List.append_assoc ..⟩

theorem during_writes {ε α : Type} {account : Account} {convert : StoreError → ε}
    {body : Session → LinkM ε α} {Inside : Session → List Event → Prop}
    (h : ∀ session, session.user = account.clientUser →
      Writes Link.trace (Inside session) (body session)) :
    Writes Link.trace (Visit account Inside) (during account convert body) := by
  intro l
  have hconnect := connect_writes account l.trace l rfl
  simp only [during, bind_apply, failingAs]
  rcases hc : (connect account l : Except StoreError Session × Link) with ⟨e | session, l'⟩
    <;> rw [hc] at hconnect
  · exact ⟨_, hconnect, .refused⟩
  · obtain ⟨howner, htrace⟩ := hconnect
    obtain ⟨events, hevents, hinside⟩ := h session howner l'
    refine ⟨_, ?_, .made howner hinside⟩
    dsimp only [Except.mapError]
    change (body session l').2.trace ++ [.closed session] = _
    rw [hevents, htrace]
    simp only [List.append_assoc, List.cons_append, List.nil_append]

end Link

namespace Resolver

theorem load_writes (admin : Account) (ids : Identities) (uid : UInt32) :
    Writes Link.trace (fun events => events = [] ∨ ∃ person, identify ids uid = .ok person ∧
      Link.Visit (admin.actingAs person.name) Link.CallsOf events) (load admin ids uid) := by
  intro l
  unfold load
  cases hi : identify ids uid with
  | error e => exact ⟨[], (List.append_nil _).symm, .inl rfl⟩
  | ok person =>
    have hconfirm : ∀ session,
        Writes Link.trace (Link.CallsOf session) (confirm admin uid person session) := by
      intro session
      have hfind : Writes Link.trace (Link.CallsOf session)
          (Link.failingAs (loadError uid) (Link.findUser session person.name)) :=
        Link.Within.writes (D := fun _ _ => False) (.findUser session person.name)
      refine hfind.bind (fun found => ?_) fun _ _ => Link.CallsOf.append
      cases found with
      | none => exact .of_keeps Keeps.of_throw ⟨[], rfl⟩
      | some user => exact .of_keeps Keeps.of_pure ⟨[], rfl⟩
    have hwrites : Writes Link.trace (Link.Visit (admin.actingAs person.name) Link.CallsOf)
        (Link.during (admin.actingAs person.name) (loadError uid) (confirm admin uid person)) :=
      Link.during_writes fun session _ => hconfirm session
    obtain ⟨events, hevents, hvisit⟩ := hwrites l
    exact ⟨events, hevents, .inr ⟨person, rfl, hvisit⟩⟩

/-- The name that a number stands for: the known principal's, and for as long as nobody is known the
name it is bound to. -/
def callerName? (r : Resolver) (ids : Identities) (uid : UInt32) : Option String :=
  match r.known.get? uid with
  | some p => some p.name
  | none =>
    match identify ids uid with
    | .ok person => some person.name
    | .error _ => none

theorem resolve_writes (r : Resolver) (ids : Identities) (uid : UInt32) (l : Link) :
    ∃ events, (r.resolve ids uid l).2.2.trace = l.trace ++ events ∧
      (events = [] ∨ ∃ name, r.callerName? ids uid = some name ∧
        Link.Visit (r.admin.actingAs name) Link.CallsOf events) := by
  unfold resolve
  cases hk : r.known.get? uid with
  | some p => exact ⟨[], (List.append_nil _).symm, .inl rfl⟩
  | none =>
    obtain ⟨events, hevents, hkind⟩ := load_writes r.admin ids uid l
    have hname : events = [] ∨ ∃ name, r.callerName? ids uid = some name ∧
        Link.Visit (r.admin.actingAs name) Link.CallsOf events := by
      refine hkind.imp_right ?_
      rintro ⟨person, hperson, hvisit⟩
      exact ⟨person.name, by simp only [callerName?, hk, hperson], hvisit⟩
    rcases hl : (load r.admin ids uid l : Except FacadeError Principal × Link) with ⟨e | p, l'⟩
      <;> rw [hl] at hevents <;>
      exact ⟨events, hevents, hname⟩

theorem callerName?_of_resolve {r : Resolver} {ids : Identities} {uid : UInt32}
    {l : Link} {p : Principal} (h : (r.resolve ids uid l).1 = .ok p) :
    r.callerName? ids uid = some p.name := by
  unfold callerName?
  cases hk : r.known.get? uid with
  | some q =>
    rw [resolve, hk] at h
    rw [Except.ok.inj h]
  | none =>
    rcases resolve_cases r ids uid l with ⟨-, hknown⟩ | ⟨person, hperson, hr, -⟩
    · exact absurd (hknown p h) (by simp [hk])
    · rw [hr] at h
      rw [hperson, ← Except.ok.inj h]
      rfl

end Resolver
end StoreMount
