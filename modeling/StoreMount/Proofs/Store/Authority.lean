import StoreMount.Proofs.Store.Rights
import StoreMount.Proofs.Store.Spared
import StoreMount.Store.Server

/-!
# What a user can do to the store

All that can be asked in a session, as data, and what it can change when the user is no
administrator. Two things meet. What a request does to the objects is confined to the places that it
names and, for a move, to what lies below them. And a request that does anything has been checked:
data changes with level write on the object, an access list with level own, objects go with level
write on what is removed or moved, and come with level write on the collection that they are put
into. So nobody gains anything by the way in which the checks are arranged: not the bytes or the
lines of what may not be read, and no change anywhere else.
-/
namespace StoreMount

inductive Request
  | stat (path : Path)
  | list (path : Path)
  | createDataObject (path : Path) (overwrite : Bool)
  | createCollection (path : Path)
  | remove (path : Path)
  | rename (source target : Path)
  | read (path : Path) (offset count : Nat)
  | write (path : Path) (offset : Nat) (bytes : List UInt8)
  | permissions (path : Path)
  | grant (path : Path) (entry : PermissionEntry)
  | revoke (path : Path) (entry : PermissionEntry)
  | findUser (name : String)
  | userGroups (name : String)
  | usersWithMetadata (key : String)
  | close

inductive Reply
  | done
  | status (status : Status)
  | lines (lines : List ListingEntry)
  | bytes (bytes : List UInt8)
  | written (count : Nat)
  | entries (entries : List PermissionEntry)
  | user (user : Option KnownUser)
  | groups (groups : List String)
  | pairs (pairs : List (String × String))

namespace Store

def serve (s : Store) (user : String) : Request → Except StoreError (Reply × Store)
  | .stat path => return (.status (← s.stat path), s)
  | .list path => return (.lines (← s.list user path), s)
  | .createDataObject path overwrite => return (.done, ← s.createDataObject user path overwrite)
  | .createCollection path => return (.done, ← s.createCollection user path)
  | .remove path => return (.done, ← s.remove user path)
  | .rename source target => return (.done, ← s.rename user source target)
  | .read path offset count => return (.bytes (← s.read user path offset count), s)
  | .write path offset bytes => do
    let (count, s) ← s.write user path offset bytes
    return (.written count, s)
  | .permissions path => return (.entries (← s.permissions path), s)
  | .grant path entry => return (.done, ← s.grant user path entry)
  | .revoke path entry => return (.done, ← s.revoke user path entry)
  | .findUser name => return (.user (s.findUser name), s)
  | .userGroups name => return (.groups (← s.userGroups name), s)
  | .usersWithMetadata key => return (.pairs (s.usersWithMetadata key), s)
  | .close => return (.done, s)

end Store

/-- A request that fails leaves the store as it is; closing is seen from the sessions only. -/
def Server.serve (v : Server) (session : Session) (request : Request) :
    Except StoreError Reply × Session × Server :=
  match v.store.serve session.user request with
  | .error e => (.error e, session, v)
  | .ok (reply, store) =>
    match request with
    | .close =>
      let (session, v) := { v with store }.close session
      (.ok reply, session, v)
    | _ => (.ok reply, session, { v with store })

namespace Store

variable {s s' : Store} {user : String} {path : Path} {place : Place} {request : Request}
    {reply : Reply}

/-! ## Where a change is seen -/

/-- What becomes of the objects, with the places where data changes, where access lists change, from
which objects go and to which they come. -/
structure Bounded (s s' : Store) (data acl left made : Place → Prop) : Prop where
  users : s'.users = s.users
  identity : ∀ k o o', s.objects.get? k = some o → s'.objects.get? k = some o' →
    o'.id = o.id ∧ o'.kind = o.kind ∧ o'.owner = o.owner ∧ o'.createdAt = o.createdAt
  data : ∀ k o o', s.objects.get? k = some o → s'.objects.get? k = some o' →
    o'.contents ≠ o.contents → data k
  acl : ∀ k o o', s.objects.get? k = some o → s'.objects.get? k = some o' → o'.acl ≠ o.acl → acl k
  left : ∀ k o, s.objects.get? k = some o → s'.objects.get? k = none → left k
  made : ∀ k o', s.objects.get? k = none → s'.objects.get? k = some o' → made k

section Bounded
variable {data acl left made : Place → Prop}

theorem Bounded.of_map (hu : s'.users = s.users) (found : Place → Option StoredObject)
    (form : Place → StoredObject → StoredObject)
    (hget : ∀ k, s'.objects.get? k = (found k).map (form k))
    (hfound : ∀ k, found k = s.objects.get? k ∨
      (found k = none ∧ left k) ∨ (s.objects.get? k = none ∧ made k))
    (hkept : ∀ k o, (form k o).id = o.id ∧ (form k o).kind = o.kind ∧ (form k o).owner = o.owner ∧
      (form k o).createdAt = o.createdAt) (hdata : ∀ k o, (form k o).contents = o.contents ∨ data k)
    (hacl : ∀ k o, (form k o).acl = o.acl ∨ acl k) :
    s.Bounded s' data acl left made := by
  have hstays : ∀ k o o', s.objects.get? k = some o → s'.objects.get? k = some o' →
      o' = form k o := by
    intro k o o' ho ho'
    rw [hget] at ho'
    obtain h | ⟨h, -⟩ | ⟨h, -⟩ := hfound k
    · rw [h, ho, Option.map_some] at ho'
      exact (Option.some.inj ho').symm
    · rw [h] at ho'
      cases ho'
    · rw [h] at ho
      cases ho
  refine ⟨hu, fun k o o' ho ho' => ?_, fun k o o' ho ho' hne => ?_, fun k o o' ho ho' hne => ?_,
    fun k o ho hn => ?_, fun k o' hn ho' => ?_⟩
  · rw [hstays k o o' ho ho']
    exact hkept k o
  · rw [hstays k o o' ho ho'] at hne
    exact (hdata k o).resolve_left hne
  · rw [hstays k o o' ho ho'] at hne
    exact (hacl k o).resolve_left hne
  · rw [hget, Option.map_eq_none_iff] at hn
    obtain h | ⟨-, h⟩ | ⟨h, -⟩ := hfound k
    · rw [h, ho] at hn
      cases hn
    · exact h
    · rw [h] at ho
      cases ho
  · rw [hget] at ho'
    obtain h | ⟨h, -⟩ | ⟨-, h⟩ := hfound k
    · rw [h, hn] at ho'
      cases ho'
    · rw [h] at ho'
      cases ho'
    · exact h

theorem Bounded.refl (s : Store) : s.Bounded s data acl left made :=
  .of_map rfl s.objects.get? (fun _ o => o) (fun k => by rw [Option.map_id']) (fun _ => .inl rfl)
    (fun _ _ => ⟨rfl, rfl, rfl, rfl⟩)
    (fun _ _ => .inl rfl) (fun _ _ => .inl rfl)

theorem Bounded.rewritten (h : data place) (contents : Contents → Contents) :
    s.Bounded (s.rewritten place contents) data acl left made := by
  refine .of_map (Effect.rewritten place contents).users s.objects.get? _
    (fun k => get?_rewritten s place k contents)
    (fun _ => .inl rfl) (fun k o => ?_) (fun k o => ?_) (fun k o => ?_)
  · split <;> exact ⟨rfl, rfl, rfl, rfl⟩
  · split
    · next hk => exact .inr (hk ▸ h)
    · exact .inl rfl
  · split <;> exact .inl rfl

theorem Bounded.changeAcl (h : acl place) (f : AccessList → AccessList) :
    s.Bounded (s.changeAcl place f) data acl left made := by
  refine .of_map (Effect.regranted place f).users s.objects.get? _
    (fun k => get?_changeAcl s place k f)
    (fun _ => .inl rfl) (fun k o => ?_) (fun k o => ?_) (fun k o => ?_)
  · split <;> exact ⟨rfl, rfl, rfl, rfl⟩
  · split <;> exact .inl rfl
  · split
    · next hk => exact .inr (hk ▸ h)
    · exact .inl rfl

theorem Bounded.insertObject (hv : s.Vacant place) (h : made place) (kind : ObjectKind)
    (owner : String) (contents : Contents) :
    s.Bounded (s.insertObject place kind owner contents) data acl left made := by
  refine .of_map (users_insertObject ..) _ _
    (fun k => get?_insertObject s place k kind owner contents) (fun k => ?_)
    (fun k o => by simp) (fun k o => by simp) (fun k o => by simp)
  split
  · next hk => exact .inr (.inr (hk ▸ ⟨hv.free, h⟩))
  · exact .inl rfl

theorem Bounded.removed (h : left place) : s.Bounded (s.removed place) data acl left made := by
  refine .of_map (by simp [Store.removed]) _ _ (fun k => get?_removed s place k) (fun k => ?_)
    (fun k o => by simp) (fun k o => by simp) (fun k o => by simp)
  split
  · next hk => exact .inr (.inl ⟨rfl, hk ▸ h⟩)
  · exact .inl rfl

theorem Bounded.renamed (hs : s.Rooted) {source target : Place} (hm : s.Movable source target)
    (hleft : ∀ k, source <+: k → left k) (hmade : ∀ k, target <+: k → made k) :
    s.Bounded (s.renamed source target) data acl left made := by
  obtain ⟨-, helse⟩ := hm.get?_relocate hs
  refine .of_map (by simp [Store.renamed]) _ _ (fun k => get?_renamed k) (fun k => ?_)
    (fun k o => by simp [restamped]) (fun k o => by simp [restamped])
    (fun k o => by simp [restamped])
  by_cases ht : target <+: k
  · obtain ⟨r, rfl⟩ := ht
    exact .inr (.inr ⟨hm.get?_target hs r, hmade _ (List.prefix_append ..)⟩)
  · rw [helse k ht]
    split
    · next hk => exact .inr (.inl ⟨rfl, hleft k hk⟩)
    · exact .inl rfl

end Bounded

/-! ## What was checked -/

def Holds (s : Store) (user : String) (k : Place) (level : Level) : Prop :=
  ∃ o held, s.objects.get? k = some o ∧ s.levelOf? user o = some held ∧ level ≤ held

def HoldsAbove (s : Store) (user : String) (k : Place) : Prop :=
  ∃ up, k.parent? = some up ∧ s.Holds user up .write

theorem holds_of_require (hu : s.isAdmin user = false) {level : Level}
    (h : s.require user path level = .ok ()) :
    s.Holds user path.place level := by
  obtain ⟨o, ho, hp⟩ := require_eq_ok h
  rw [permits, hu, Bool.false_or, Option.any_eq_true] at hp
  obtain ⟨held, hheld, hle⟩ := hp
  exact ⟨o, held, ho, hheld, of_decide_eq_true hle⟩

theorem holds_of_requireParent (hu : s.isAdmin user = false)
    (h : s.requireParent user path .write = .ok ()) :
    s.HoldsAbove user path.place := by
  have hplace := Path.place_parent? path
  unfold requireParent at h
  cases hup : path.parent? with
  | none => rw [hup] at h; cases h
  | some up =>
    rw [hup] at h hplace
    exact ⟨up.place, hplace.symm, holds_of_require hu h⟩

theorem require_of_read {offset count : Nat} {bytes : List UInt8}
    (h : s.read user path offset count = .ok bytes) :
    s.require user path .read = .ok () := by
  obtain ⟨o, -, h⟩ := bind_eq_ok h
  obtain ⟨-, h⟩ := guard_eq_ok h
  obtain ⟨_, hr, -⟩ := bind_eq_ok h
  exact hr

theorem require_of_list {lines : List ListingEntry} (h : s.list user path = .ok lines) :
    s.require user path .read = .ok () := by
  obtain ⟨o, -, h⟩ := bind_eq_ok h
  obtain ⟨-, h⟩ := guard_eq_ok h
  obtain ⟨_, hr, -⟩ := bind_eq_ok h
  exact hr

/-! ## Every request -/

/-- When a user may have the object at a place taken from there. -/
def MayTake (s : Store) (user : String) (k : Place) : Request → Prop
  | .remove path => path.place = k ∧ s.Holds user k .write
  | .rename source _ => source.place <+: k ∧ s.Holds user source.place .write
  | _ => False

/-- When a user may have an object put at a free place. -/
def MayMake (s : Store) (user : String) (k : Place) : Request → Prop
  | .createDataObject path _ | .createCollection path => path.place = k ∧ s.HoldsAbove user k
  | .rename _ target => target.place <+: k ∧ s.HoldsAbove user target.place
  | _ => False

theorem answered_eq_ok {α : Type} {x : Except StoreError α} {f : α → Reply}
    (h : (do return (f (← x), s)) = .ok (reply, s')) : ∃ a, x = .ok a ∧ reply = f a ∧ s' = s := by
  obtain ⟨a, ha, h⟩ := bind_eq_ok h
  cases h
  exact ⟨a, ha, rfl, rfl⟩

theorem done_eq_ok {x : Except StoreError Store}
    (h : (do return (Reply.done, ← x)) = .ok (reply, s')) :
    x = .ok s' ∧ reply = .done := by
  obtain ⟨a, ha, h⟩ := bind_eq_ok h
  cases h
  exact ⟨ha, rfl⟩

theorem bounded_serve (hs : s.Rooted) (hu : s.isAdmin user = false)
    (h : s.serve user request = .ok (reply, s')) :
    s.Bounded s' (s.Holds user · .write) (s.Holds user · .own) (s.MayTake user · request)
      (s.MayMake user · request) := by
  cases request with
  | createDataObject path overwrite =>
    obtain ⟨o, -, -, -, hr, rfl⟩ | ⟨hn, hp, rfl⟩ := createDataObject_eq_ok (done_eq_ok h).1
    · exact .rewritten (holds_of_require hu hr) _
    · exact .insertObject (vacant_of_checkNewChild hn) ⟨rfl, holds_of_requireParent hu hp⟩ ..
  | createCollection path =>
    obtain ⟨hn, hp, rfl⟩ := createCollection_eq_ok (done_eq_ok h).1
    exact .insertObject (vacant_of_checkNewChild hn) ⟨rfl, holds_of_requireParent hu hp⟩ ..
  | remove path =>
    obtain ⟨hr, -, rfl⟩ := remove_eq_ok (done_eq_ok h).1
    exact .removed ⟨rfl, holds_of_require hu hr⟩
  | rename source target =>
    have hm := movable_of_rename (done_eq_ok h).1
    obtain ⟨hr, -, -, hp, rfl⟩ := rename_eq_ok (done_eq_ok h).1
    exact .renamed hs hm (fun k hk => ⟨hk, holds_of_require hu hr⟩) fun k hk =>
      ⟨hk, holds_of_requireParent hu hp⟩
  | write path offset bytes =>
    obtain ⟨⟨count, t⟩, hw, h⟩ := bind_eq_ok h
    cases h
    obtain ⟨o, -, -, hr, -, -, rfl⟩ := write_eq_ok hw
    exact .rewritten (holds_of_require hu hr) _
  | grant path entry =>
    obtain ⟨hr, -, rfl⟩ := grant_eq_ok (done_eq_ok h).1
    exact .changeAcl (holds_of_require hu hr) _
  | revoke path entry =>
    obtain ⟨hr, rfl⟩ := revoke_eq_ok (done_eq_ok h).1
    exact .changeAcl (holds_of_require hu hr) _
  | stat path => obtain ⟨-, -, -, rfl⟩ := answered_eq_ok h; exact .refl s'
  | list path => obtain ⟨-, -, -, rfl⟩ := answered_eq_ok h; exact .refl s'
  | read path offset count => obtain ⟨-, -, -, rfl⟩ := answered_eq_ok h; exact .refl s'
  | permissions path => obtain ⟨-, -, -, rfl⟩ := answered_eq_ok h; exact .refl s'
  | userGroups name => obtain ⟨-, -, -, rfl⟩ := answered_eq_ok h; exact .refl s'
  | findUser name => cases h; exact .refl s
  | usersWithMetadata key => cases h; exact .refl s
  | close => cases h; exact .refl s

theorem seen_of_serve (h : s.serve user request = .ok (reply, s')) :
    (∀ bytes, reply = .bytes bytes → ∃ path offset count,
      request = .read path offset count ∧ s.require user path .read = .ok ()) ∧
    ∀ lines, reply = .lines lines → ∃ path, request = .list path ∧
      s.require user path .read = .ok () := by
  cases request with
  | read path offset count =>
    obtain ⟨a, ha, rfl, -⟩ := answered_eq_ok h
    exact ⟨fun _ _ => ⟨path, offset, count, rfl, require_of_read ha⟩, nofun⟩
  | list path =>
    obtain ⟨a, ha, rfl, -⟩ := answered_eq_ok h
    exact ⟨nofun, fun _ _ => ⟨path, rfl, require_of_list ha⟩⟩
  | stat path => obtain ⟨a, -, rfl, -⟩ := answered_eq_ok h; exact ⟨nofun, nofun⟩
  | permissions path => obtain ⟨a, -, rfl, -⟩ := answered_eq_ok h; exact ⟨nofun, nofun⟩
  | userGroups name => obtain ⟨a, -, rfl, -⟩ := answered_eq_ok h; exact ⟨nofun, nofun⟩
  | write path offset bytes => obtain ⟨a, -, h⟩ := bind_eq_ok h; cases h; exact ⟨nofun, nofun⟩
  | findUser name => cases h; exact ⟨nofun, nofun⟩
  | usersWithMetadata key => cases h; exact ⟨nofun, nofun⟩
  | close => cases h; exact ⟨nofun, nofun⟩
  | _ => obtain ⟨-, rfl⟩ := done_eq_ok h; exact ⟨nofun, nofun⟩

end Store

/-! ## Sessions -/

namespace Server

variable {v : Server} {session : Session} {request : Request}

theorem store_close (v : Server) (session : Session) : (v.close session).2.store = v.store := by
  unfold close
  split <;> rfl

theorem serve_of_error {e : StoreError} (h : v.store.serve session.user request = .error e) :
    (v.serve session request).1 = .error e ∧ (v.serve session request).2.2.store = v.store := by
  simp [serve, h]

theorem serve_of_ok {reply : Reply} {s' : Store}
    (h : v.store.serve session.user request = .ok (reply, s')) :
    (v.serve session request).1 = .ok reply ∧ (v.serve session request).2.2.store = s' := by
  unfold serve
  rw [h]
  cases request with
  | close => exact ⟨rfl, store_close _ session⟩
  | _ => exact ⟨rfl, rfl⟩

/-- What a user who is no administrator sees and changes by one request, answered or refused. -/
theorem session_bounded (v : Server) (session : Session) (request : Request) (hs : v.store.Rooted)
    (hu : v.store.isAdmin session.user = false) :
    let answer := (v.serve session request).1
    let s' := (v.serve session request).2.2.store
    (∀ bytes, answer = .ok (.bytes bytes) →
      ∃ path offset count, request = .read path offset count ∧
        v.store.Holds session.user path.place .read) ∧
    (∀ lines, answer = .ok (.lines lines) →
      ∃ path, request = .list path ∧ v.store.Holds session.user path.place .read) ∧
    v.store.Bounded s' (v.store.Holds session.user · .write) (v.store.Holds session.user · .own)
      (v.store.MayTake session.user · request) (v.store.MayMake session.user · request) := by
  intro answer s'
  cases h : v.store.serve session.user request with
  | error e =>
    obtain ⟨ha, hs'⟩ := serve_of_error h
    refine ⟨fun bytes hb => ?_, fun lines hl => ?_, ?_⟩
    · exact absurd (ha.symm.trans hb) (by simp)
    · exact absurd (ha.symm.trans hl) (by simp)
    · rw [show s' = v.store from hs']
      exact .refl v.store
  | ok a =>
    obtain ⟨reply, t⟩ := a
    obtain ⟨ha, hs'⟩ := serve_of_ok h
    obtain ⟨hread, hlist⟩ := Store.seen_of_serve h
    refine ⟨fun bytes hb => ?_, fun lines hl => ?_, ?_⟩
    · obtain ⟨path, offset, count, hr, hc⟩ := hread bytes (Except.ok.inj (ha.symm.trans hb))
      exact ⟨path, offset, count, hr, Store.holds_of_require hu hc⟩
    · obtain ⟨path, hr, hc⟩ := hlist lines (Except.ok.inj (ha.symm.trans hl))
      exact ⟨path, hr, Store.holds_of_require hu hc⟩
    · rw [show s' = t from hs']
      exact Store.bounded_serve hs hu h

def homeServer : Server := .ofStore ((Store.new "z" "rods").addUser "alice" .regular)

theorem made_with_authority :
    homeServer.store.Rooted ∧ homeServer.store.isAdmin "alice" = false ∧
      (∃ o, (homeServer.serve ⟨0, "alice", false⟩
        (.createCollection ⟨"/z/home/alice/d"⟩)).2.2.store.object? ⟨"/z/home/alice/d"⟩ =
        some o) ∧ homeServer.store.HoldsAbove "alice" (Path.place ⟨"/z/home/alice/d"⟩) := by
  have hs : homeServer.store.Rooted := by decide +kernel
  have hu : homeServer.store.isAdmin "alice" = false := by decide +kernel
  have hfree : homeServer.store.objects.get? (Path.place ⟨"/z/home/alice/d"⟩) = none := by
    decide +kernel
  have hmade : ((homeServer.serve ⟨0, "alice", false⟩
      (.createCollection ⟨"/z/home/alice/d"⟩)).2.2.store.object?
      ⟨"/z/home/alice/d"⟩).isSome = true := by decide +kernel
  obtain ⟨o, ho⟩ := Option.isSome_iff_exists.1 hmade
  have hbounded := (session_bounded homeServer ⟨0, "alice", false⟩
    (.createCollection ⟨"/z/home/alice/d"⟩) hs hu).2.2
  exact ⟨hs, hu, ⟨o, ho⟩, (hbounded.made _ o hfree ho).2⟩

end Server
end StoreMount
