import StoreMount.Proofs.Link.Calls
import StoreMount.Proofs.Resolver

/-!
# When calls succeed

Whether a call succeeds does not depend on which sessions are open or on what has been asked for,
but only on the store, on the faults that are lined up, and on what is reported otherwise or kept
out of sight. This is the stance of a link; it also counts the calls that change something. A call
that succeeds has not been struck by a fault, so the faults are afterwards what they were, and the
same call passes them again. For every call it is said exactly when it succeeds and which stance it
leaves.
-/
namespace StoreMount
namespace Link

/-- What of a link decides how a call ends, and the calls made so far that were to change something.
-/
structure Stance where
  store : Store
  faults : List Fault
  kinds : Table String ObjectKind
  hidden : List String
  edits : List Call

def edits (l : Link) : List Call := l.calls.filter Call.mutates

def stance (l : Link) : Stance := ⟨l.store, l.faults, l.kinds, l.hidden, l.edits⟩

namespace Stance

/-- No fault strikes. -/
def Passes (v : Stance) (method subject : String) : Prop :=
  Fault.strike? v.faults method subject = none

theorem passes_of_nil {v : Stance} (h : v.faults = []) (method subject : String) :
    v.Passes method subject := by
  rw [Passes, h]
  rfl

def find? (v : Stance) (name : String) : Option KnownUser :=
  if v.hidden.contains name then none else v.store.findUser name

theorem find?_eq_some {v : Stance} {name : String} {user : KnownUser}
    (h : v.find? name = some user) :
    v.store.users.contains name = true ∧ user.name = name ∧ user.zone = v.store.zone := by
  unfold find? at h
  split at h
  · cases h
  · obtain ⟨record, hrecord, rfl⟩ := Option.map_eq_some_iff.1 h
    exact ⟨by simp [Table.contains, hrecord], rfl, rfl⟩

def stat (v : Stance) (path : Path) : Except StoreError Status :=
    (v.store.stat path).map fun status =>
  { status with kind := (v.kinds.get? path.text).getD status.kind }

/-- A connection for the account can be made. -/
structure Admits (v : Stance) (account : Account) : Prop where
  passes : v.Passes "connect" account.clientUser
  admits : v.store.admits account = .ok ()

end Stance

variable {ε α β : Type} {v : Stance} {session : Session} {call : Call}

theorem stance_record (l : Link) (session : Session) (call : Call) :
    (l.record (.called session call)).stance =
      { l.stance with edits := l.edits ++ [call].filter Call.mutates } := by
  rw [stance, edits, calls_record, List.filter_append]
  rfl

theorem edits_of_calls {l l' : Link} (h : l'.calls = l.calls) : l'.edits = l.edits := by
  rw [edits, edits, h]

@[simp] theorem stance_close (session : Session) (l : Link) :
    (l.close session).stance = l.stance := by
  rw [stance, store_close, edits_of_calls (calls_close session l)]
  rfl

/-! ## Calls -/

theorem perform_meets (action : Store → Except StoreError (α × Store)) :
    Meets stance v (perform session call action) fun a v' => v.Passes call.method call.subject ∧
      ∃ s', action v.store = .ok (a, s') ∧
      v' = { v with store := s', edits := v.edits ++ [call].filter Call.mutates } := by
  rintro l rfl a v'
  have hstance := stance_record l session call
  rw [perform_apply, Stance.Passes]
  cases hf : Fault.strike? l.stance.faults call.method call.subject with
  | some struck =>
    rw [show Fault.strike? l.faults call.method call.subject = some struck from hf]
    exact iff_of_false (fun h => by cases h.1) fun h => by cases h.1
  | none =>
    rw [show Fault.strike? l.faults call.method call.subject = none from hf]
    cases ha : action l.stance.store with
    | error e =>
      rw [show action l.server.store = .error e from ha]
      refine iff_of_false (fun h => by cases h.1) ?_
      rintro ⟨-, s', h, -⟩
      cases h
    | ok b =>
      rw [show action l.server.store = .ok b from ha]
      have hafter :
          stance { l.record (.called session call) with server := { l.server with store := b.2 } } =
          { l.stance with store := b.2, edits := l.edits ++ [call].filter Call.mutates } :=
        congrArg (fun v : Stance => { v with store := b.2 }) hstance
      constructor
      · rintro ⟨hb, rfl⟩
        obtain rfl := Except.ok.inj hb
        exact ⟨rfl, b.2, rfl, hafter⟩
      · rintro ⟨-, s', hb, rfl⟩
        obtain rfl := Except.ok.inj hb
        exact ⟨rfl, hafter⟩

theorem ask_observes (hc : call.mutates = false) (question : Store → Except StoreError α) :
    Observes stance v (ask session call question) fun a =>
      v.Passes call.method call.subject ∧ question v.store = .ok a := by
  refine (perform_meets _).congr fun a v' => ?_
  rw [and_assoc, List.filter_singleton, hc]
  refine and_congr_right fun _ => ?_
  cases question v.store <;> simp [Except.map]

theorem tell_meets (hc : call.mutates = true) (action : Store → Except StoreError Store) :
    Meets stance v (tell session call action) fun _ v' => v.Passes call.method call.subject ∧
      ∃ s', action v.store = .ok s' ∧ v' = { v with store := s', edits := v.edits ++ [call] } := by
  refine (perform_meets _).congr fun a v' => ?_
  rw [List.filter_singleton, hc]
  refine and_congr_right fun _ => exists_congr fun s' => ?_
  cases action v.store <;> simp [Except.map]

theorem reported_observes (path : Path) (base : Status) : Observes stance v (do
      match (← get).kinds.get? path.text with
      | some kind => return { base with kind }
      | none => return base : LinkM StoreError Status)
    (· = { base with kind := (v.kinds.get? path.text).getD base.kind }) := by
  refine Observes.bind_get fun l hl => ?_
  rw [show l.kinds = v.kinds from congrArg Stance.kinds hl]
  cases v.kinds.get? path.text <;> exact Observes.of_pure

theorem stat_observes (path : Path) : Observes stance v (stat session path) fun status =>
    v.Passes "stat" path.text ∧ v.stat path = .ok status := by
  refine ((ask_observes rfl (·.stat path)).bind fun base _ => reported_observes path base).congr
    fun status => ?_
  rw [Stance.stat]
  cases v.store.stat path <;> simp [Except.map, and_assoc, eq_comm, Call.method, Call.subject]

theorem findUser_observes (name : String) : Observes stance v (findUser session name) fun found =>
    v.Passes "find_user" name ∧ found = v.find? name := by
  have hseen : ∀ found, Observes stance v (do
      return if (← get).hidden.contains name then none
        else found : LinkM StoreError (Option KnownUser))
        (· = if v.hidden.contains name then none else found) := fun found =>
    Observes.bind_get fun l hl => by
      rw [show l.hidden = v.hidden from congrArg Stance.hidden hl]
      exact Observes.of_pure
  refine ((ask_observes rfl fun s => .ok (s.findUser name)).bind fun found _ => hseen found).congr
    fun seen => ?_
  simp [and_assoc, Stance.find?, Call.method, Call.subject]

/-! ## Sessions -/

theorem announce_apply (account : Account) (l : Link) :
    announce account l = match Fault.strike? l.faults "connect" account.clientUser with
      | some (e, faults) => (.error e, { l.record (.asked account.clientUser) with faults })
      | none => (.ok (), l.record (.asked account.clientUser)) := by
  simp only [announce, bind_apply, modify_apply, check]
  rfl

theorem connect_cases (account : Account) (l : Link) :
    (¬l.stance.Admits account ∧ ∃ e l', connect account l = (.error e, l')) ∨
      (l.stance.Admits account ∧ ∃ session l',
        connect account l = (.ok session, l') ∧ session.user = account.clientUser ∧
        l'.stance = l.stance) := by
  rw [connect, bind_apply, announce_apply]
  cases hf : Fault.strike? l.faults "connect" account.clientUser with
  | some struck => exact .inl ⟨fun h => (by cases h.passes.symm.trans hf), struck.1, _, rfl⟩
  | none =>
    simp only [enter, bind_apply, get_apply, lift_apply]
    cases ha : l.store.admits account with
    | error e =>
      have hc : (l.record (.asked account.clientUser)).server.connect account = .error e := by
        rw [Server.connect, show (l.record (.asked account.clientUser)).server.store.admits
          account = .error e from ha]
        rfl
      rw [hc]
      exact .inl ⟨fun h => (by cases h.admits.symm.trans ha), e, _, rfl⟩
    | ok _ =>
      have hc : (l.record (.asked account.clientUser)).server.connect account =
          .ok (⟨l.server.opened, account.clientUser, false⟩,
          { l.server with opened := l.server.opened + 1, openNow := l.server.openNow + 1 }) := by
        rw [Server.connect,
          show (l.record (.asked account.clientUser)).server.store.admits account = .ok () from ha]
        rfl
      refine .inr ⟨⟨hf, ha⟩, ⟨l.server.opened, account.clientUser, false⟩, ?_⟩
      rw [hc]
      refine ⟨_, rfl, rfl, ?_⟩
      simp [stance, store, edits, calls, record, Event.call?]

theorem during_meets {account : Account} {convert : StoreError → ε} {body : Session → LinkM ε α}
    {R : α → Stance → Prop}
    (h : ∀ session, session.user = account.clientUser → Meets stance v (body session) R) :
    Meets stance v (during account convert body) fun a v' => v.Admits account ∧ R a v' := by
  rintro l rfl a v'
  simp only [during, bind_apply, failingAs]
  rcases connect_cases account l with ⟨hrefused, e, l', hconnect⟩ |
    ⟨hadmits, session, l', hconnect, huser, hl'⟩
  · rw [hconnect]
    exact iff_of_false (fun h => by cases h.1) fun h => hrefused h.1
  · rw [hconnect]
    refine Iff.trans ?_ ((h session huser l' hl' a v').trans (and_iff_right hadmits).symm)
    exact and_congr_right fun _ =>
      iff_of_eq (congrArg (· = v') (stance_close session (body session l').2))

theorem failingAs_meets {convert : StoreError → ε} {action : LinkM StoreError α}
    {R : α → Stance → Prop} (h : Meets stance v action R) :
    Meets stance v (failingAs convert action) R := by
  intro l hl a v'
  rw [← h l hl a v', failingAs]
  rcases action l with ⟨e | b, l'⟩ <;> simp [Except.mapError]

end Link

/-! ## Looking accounts up -/

namespace AclExchange

variable {v : Link.Stance} {r : Resolver} {ids : Identities} {find? : String → Option KnownUser}
    {ace : Ace} {aces : List Ace}
  {e : PermissionEntry}

def entryFor? (r : Resolver) (ids : Identities) (find? : String → Option KnownUser) (ace : Ace) :
    Option PermissionEntry :=
  (request? r ids ace).bind fun request =>
    (find? request.1).map fun user => ⟨user.name, ace.subjectKind, user.zone, request.2⟩

def entries (r : Resolver) (ids : Identities) (find? : String → Option KnownUser)
    (aces : List Ace) : List PermissionEntry :=
  aces.filterMap (entryFor? r ids find?)

def Finds (v : Link.Stance) (r : Resolver) (ids : Identities) (ace : Ace) : Prop :=
  ∀ request, request? r ids ace = some request → v.Passes "find_user" request.1

theorem toEntry_observes (session : Session) :
    Observes Link.stance v (toEntry r ids session ace) fun found =>
    Finds v r ids ace ∧ found = entryFor? r ids v.find? ace := by
  unfold toEntry Finds entryFor?
  cases request? r ids ace with
  | none => exact Observes.of_pure.congr fun found => by simp
  | some request =>
    refine ((Link.findUser_observes request.1).bind (S := fun found entry =>
      entry = found.map fun user =>
        ⟨user.name, ace.subjectKind, user.zone, request.2⟩) fun found _ => ?_).congr fun entry => ?_
    · cases found <;> exact Observes.of_pure
    · simp

theorem toEntries_observes (session : Session) (aces : List Ace) :
    Observes Link.stance v (toEntries r ids session aces) fun found =>
      (∀ ace ∈ aces, Finds v r ids ace) ∧ found = entries r ids v.find? aces := by
  induction aces with
  | nil => exact Observes.of_pure.congr fun found => by simp [entries]
  | cons ace aces ih =>
    have hcons : entries r ids v.find? (ace :: aces) = (entryFor? r ids v.find? ace).toList ++
        entries r ids v.find? aces := by
      rw [entries, List.filterMap_cons]
      cases entryFor? r ids v.find? ace <;> rfl
    refine ((toEntry_observes session).bind fun entry _ =>
        ih.bind fun found _ => Observes.of_pure).congr fun found => ?_
    rw [List.forall_mem_cons, hcons]
    constructor
    · rintro ⟨entry, ⟨hfirst, rfl⟩, found, ⟨hrest, rfl⟩, rfl⟩
      exact ⟨⟨hfirst, hrest⟩, rfl⟩
    · rintro ⟨⟨hfirst, hrest⟩, rfl⟩
      exact ⟨_, ⟨hfirst, rfl⟩, _, ⟨hrest, rfl⟩, rfl⟩

theorem request?_congr {r' : Resolver} (h : r'.admin = r.admin) (ace : Ace) :
    request? r' ids ace = request? r ids ace := by
  simp only [request?, subjectName?, Resolver.nameForUid?, h]

theorem entries_congr {r' : Resolver} (h : r'.admin = r.admin) :
    entries r' ids find? aces = entries r ids find? aces :=
  List.filterMap_congr fun ace _ => by rw [entryFor?, entryFor?, request?_congr h]

theorem finds_congr {r' : Resolver} (h : r'.admin = r.admin) :
    Finds v r' ids ace ↔ Finds v r ids ace := by
  rw [Finds, Finds, request?_congr h]

theorem known_of_mem_entries (h : e ∈ entries r ids v.find? aces) :
    v.store.users.contains e.name = true ∧ e.zone = v.store.zone := by
  obtain ⟨ace, -, he⟩ := List.mem_filterMap.1 h
  obtain ⟨request, -, he⟩ := Option.bind_eq_some_iff.1 he
  obtain ⟨user, huser, rfl⟩ := Option.map_eq_some_iff.1 he
  obtain ⟨hknown, hname, hzone⟩ := Link.Stance.find?_eq_some huser
  exact ⟨hname.symm ▸ hknown, hzone⟩

end AclExchange

namespace Resolver

variable {v : Link.Stance} {ids : Identities} {uid : UInt32}

def Loads (v : Link.Stance) (admin : Account) (ids : Identities) (uid : UInt32)
    (p : Principal) : Prop :=
  ∃ person, identify ids uid = .ok person ∧ v.Admits (admin.actingAs person.name) ∧
    v.Passes "find_user" person.name ∧
    (v.find? person.name).isSome = true ∧ p = principalOf admin person

theorem confirm_observes (admin : Account) (person : Person) (session : Session) :
    Observes Link.stance v (confirm admin uid person session) fun p =>
      v.Passes "find_user" person.name ∧ (v.find? person.name).isSome = true ∧
      p = principalOf admin person := by
  have hfind : Observes Link.stance v
      (Link.failingAs (loadError uid) (Link.findUser session person.name)) fun found =>
      v.Passes "find_user" person.name ∧ found = v.find? person.name :=
        Link.failingAs_meets (Link.findUser_observes _)
  refine (hfind.bind (S := fun found p => found.isSome = true ∧ p = principalOf admin person)
    fun found _ => ?_).congr
    fun p => by simp
  cases found with
  | none => exact Meets.of_throw.congr fun p _ => by simp
  | some user => exact Observes.of_pure.congr fun p => by simp [principalOf]

theorem load_observes (admin : Account) :
    Observes Link.stance v (load admin ids uid) (Loads v admin ids uid) := by
  unfold load Loads
  cases identify ids uid with
  | error e => exact fun l _ p v' =>
    iff_of_false (fun h => by cases h.1) fun ⟨⟨_, h, _⟩, _⟩ => by cases h
  | ok person =>
    have hduring : Meets Link.stance v
        (Link.during (admin.actingAs person.name) (loadError uid) (confirm admin uid person)) _ :=
      Link.during_meets fun session _ => confirm_observes admin person session
    exact hduring.congr fun p v' => by simp [and_assoc]

end Resolver
end StoreMount
