import StoreMount.Facade.Basic
import StoreMount.Proofs.Cache
import StoreMount.Proofs.Registry.Interleaving
import StoreMount.Proofs.Resolver
import StoreMount.Proofs.Store.Spared

/-!
# Caches that tell the truth

What an operation can see of a facade besides its caches is called its world. The caches are
truthful when what they remember of attributes, access lists and profiles is what the world shows:
attributes up to the times of a collection, which move when its children change, and with the
assurance that the handle is the one that the path has now and that the store lets the account in.
Entries that are too old to be used are held to this as well, so that nothing has to be said about
time. Kinds, listings and decisions are not spoken of: no answer but that of an access decision is
read off them.
-/
namespace StoreMount

/-- The same but for the times of a collection. -/
structure Attributes.Agrees (a b : Attributes) : Prop where
  handle : a.handle = b.handle
  kind : a.kind = b.kind
  mode : a.mode = b.mode
  linkCount : a.linkCount = b.linkCount
  uid : a.uid = b.uid
  gid : a.gid = b.gid
  size : a.size = b.size
  changedAt : a.changedAt = b.changedAt
  times : a.kind = .dataObject → a.accessedAt = b.accessedAt ∧ a.modifiedAt = b.modifiedAt

theorem Attributes.Agrees.refl (a : Attributes) : a.Agrees a :=
  ⟨rfl, rfl, rfl, rfl, rfl, rfl, rfl, rfl, fun _ => ⟨rfl, rfl⟩⟩

theorem Attributes.Agrees.symm {a b : Attributes} (h : a.Agrees b) : b.Agrees a :=
  ⟨h.handle.symm, h.kind.symm, h.mode.symm, h.linkCount.symm, h.uid.symm, h.gid.symm, h.size.symm,
    h.changedAt.symm,
    fun hk => ⟨(h.times (h.kind.trans hk)).1.symm, (h.times (h.kind.trans hk)).2.symm⟩⟩

theorem Attributes.Agrees.trans {a b c : Attributes} (h : a.Agrees b)
    (h' : b.Agrees c) : a.Agrees c :=
  ⟨h.handle.trans h'.handle, h.kind.trans h'.kind, h.mode.trans h'.mode,
    h.linkCount.trans h'.linkCount,
    h.uid.trans h'.uid, h.gid.trans h'.gid, h.size.trans h'.size, h.changedAt.trans h'.changedAt,
    fun hk => ⟨(h.times hk).1.trans (h'.times (h.kind.symm.trans hk)).1,
      (h.times hk).2.trans (h'.times (h.kind.symm.trans hk)).2⟩⟩

def Store.statusOf (s : Store) (o : StoredObject) : Status where
  kind := o.kind
  size := o.contents.size
  ownerName := o.owner
  ownerZone := s.zone
  createdAt := o.createdAt
  modifiedAt := o.modifiedAt
  objectId := o.id

theorem Store.stat_eq (s : Store) (path : Path) : s.stat path = match s.object? path with
    | some o => .ok (s.statusOf o)
    | none => .error (.notFound path) := by
  rw [Store.stat, Store.find]
  cases s.object? path <;> rfl

theorem Store.permissions_eq (s : Store) (path : Path) :
    s.permissions path = match s.object? path with
    | some o => .ok o.acl
    | none => .error (.notFound path) := by
  rw [Store.permissions, Store.find]
  cases s.object? path <;> rfl

def Store.profile (s : Store) (name : String) : UserProfile :=
  match s.users.get? name with
  | some r => ⟨r.type, r.groups⟩
  | none => ⟨.regular, []⟩

theorem Store.profile_congr {s s' : Store} (hu : s'.users = s.users) (name : String) :
    s'.profile name = s.profile name := by
  rw [Store.profile, Store.profile, hu]

theorem Store.admits_congr {s s' : Store} (hu : s'.users = s.users) (account : Account) :
    s'.admits account = s.admits account := by
  unfold Store.admits Store.isAdmin
  rw [hu]

structure World where
  store : Store
  registry : Registry
  resolver : Resolver
  identities : Identities
  allowList : AllowList
  mountPoint : Path
  zone : String
  allowOverwrite : Bool

def Facade.world (f : Facade) : World where
  store := f.link.store
  registry := f.registry
  resolver := f.resolver
  identities := f.identities
  allowList := f.allowList
  mountPoint := f.options.mountPoint
  zone := f.options.zone
  allowOverwrite := f.options.allowOverwrite

namespace World

def attributes (w : World) (user : String) (handle : Handle) (path : Path)
    (o : StoredObject) : Attributes :=
  let isOpen := path.structural w.zone
  let level := if isOpen then none else AccessList.levelOf? o.acl user (w.store.profile user).groups
  let numbers := w.resolver.idsForName w.identities o.owner
  .ofStatus handle (w.store.statusOf o) isOpen level numbers.1 numbers.2

theorem attributes_congr (w : World) (user : String) (handle : Handle)
    {p q : Path} (h : p.place = q.place) (o : StoredObject) :
    w.attributes user handle p o = w.attributes user handle q o := by
  have hs : p.structural w.zone = q.structural w.zone := by simp only [Path.structural, h]
  simp only [attributes, hs]

structure Sound (w : World) : Prop where
  rooted : w.store.Rooted
  inverse : w.registry.Inverse
  made : w.identities.Made
  faithful : w.resolver.Faithful w.identities

end World

namespace Cache

structure Truthful (c : Cache) (w : World) : Prop where
  attributes : ∀ user place a, c.attributesFor.get? (user, place) = some a →
    ∃ path o, path.place = place ∧ w.store.object? path = some o ∧
      w.registry.handleOf? path = some a.value.handle ∧
      a.value.Agrees (w.attributes user a.value.handle path o) ∧
      w.store.admits (w.resolver.admin.actingAs user) = .ok ()
  permissions : ∀ place entries, c.permissionsOf.get? place = some entries →
    ∃ o, w.store.objects.get? place = some o ∧ o.acl = entries.value
  profiles : ∀ user profile, c.profileOf.get? user = some profile →
    profile.value = w.store.profile user

variable {c c' : Cache} {w : World}

theorem truthful_new (lifetimes : Lifetimes) (w : World) : (Cache.new lifetimes).Truthful w where
  attributes user place a h := by simp [Cache.new] at h
  permissions place entries h := by simp [Cache.new] at h
  profiles user profile h := by simp [Cache.new] at h

namespace Truthful

theorem attributes?_eq_some (h : c.Truthful w) {user : String} {path : Path}
    {handle : Handle} {a : Attributes} (hfound : c.attributes? user path = some a)
    (hh : w.registry.handleOf? path = some handle) :
    w.store.admits (w.resolver.admin.actingAs user) = .ok () ∧
      ∃ o, w.store.object? path = some o ∧ a.Agrees (w.attributes user handle path o) := by
  obtain ⟨since, hsince⟩ := fresh_eq_some hfound
  obtain ⟨p, o, hplace, ho, hp, hagrees, hadmits⟩ := h.attributes _ _ _ hsince
  have ho : w.store.object? path = some o := by rw [← ho, Store.object?, Store.object?, hplace]
  have hhandle : a.handle = handle := by
    rw [Registry.handleOf?, hplace, ← Registry.handleOf?, hh] at hp
    exact (Option.some.inj hp).symm
  refine ⟨hadmits, o, ho, ?_⟩
  rw [w.attributes_congr user a.handle hplace, hhandle] at hagrees
  exact hagrees

theorem sleep (h : c.Truthful w) (milliseconds : Nat) : (c.sleep milliseconds).Truthful w :=
  ⟨h.attributes, h.permissions, h.profiles⟩

theorem putObjectType (h : c.Truthful w) (path : Path) (kind : ObjectKind) :
    (c.putObjectType path kind).Truthful w :=
  ⟨h.attributes, h.permissions, h.profiles⟩

theorem putAccess (h : c.Truthful w) (uid : UInt32) (mask : Mask) (path : Path)
    (decision : Decision) :
    (c.putAccess uid mask path decision).Truthful w := ⟨h.attributes, h.permissions, h.profiles⟩

theorem putUserProfile (h : c.Truthful w) (user : String) :
    (c.putUserProfile user (w.store.profile user)).Truthful w where
  attributes := h.attributes
  permissions := h.permissions
  profiles user' profile hp := by
    simp only [Cache.putUserProfile, Table.get?_insert] at hp
    split at hp
    · next hu =>
      obtain rfl := Option.some.inj hp
      rw [hu]
      rfl
    · exact h.profiles user' profile hp

theorem putPermissions (h : c.Truthful w) {path : Path} {o : StoredObject}
    (ho : w.store.object? path = some o) :
    (c.putPermissions path o.acl).Truthful w where
  attributes := h.attributes
  permissions place entries hp := by
    simp only [Cache.putPermissions, Table.get?_insert] at hp
    split at hp
    · next hk =>
      obtain rfl := Option.some.inj hp
      exact ⟨o, hk ▸ ho, rfl⟩
    · exact h.permissions place entries hp
  profiles := h.profiles

theorem putAttributes (h : c.Truthful w) {user : String} {path : Path}
    {handle : Handle} {o : StoredObject} (ho : w.store.object? path = some o)
    (hh : w.registry.handleOf? path = some handle)
    (hadmits : w.store.admits (w.resolver.admin.actingAs user) = .ok ()) :
    (c.putAttributes user path (w.attributes user handle path o)).Truthful w where
  attributes user' place a ha := by
    simp only [Cache.putAttributes, Table.get?_insert] at ha
    split at ha
    · next hk =>
      obtain ⟨rfl, rfl⟩ := Prod.mk.inj hk
      obtain rfl := Option.some.inj ha
      exact ⟨path, o, rfl, ho, hh, .refl _, hadmits⟩
    · exact h.attributes user' place a ha
  permissions := h.permissions
  profiles := h.profiles

theorem resolved (h : c.Truthful w) {r : Resolver} (hadmin : r.admin = w.resolver.admin)
    (hids : ∀ name, r.idsForName w.identities name = w.resolver.idsForName w.identities name) :
    c.Truthful { w with resolver := r } where
  attributes user place a ha := by
    obtain ⟨path, o, hp, ho, hh, hagrees, hadmits⟩ := h.attributes user place a ha
    refine ⟨path, o, hp, ho, hh, ?_, hadmin ▸ hadmits⟩
    simpa only [World.attributes, hids] using hagrees
  permissions := h.permissions
  profiles := h.profiles

end Truthful

/-! ## When the store changes -/

theorem agrees_of_alike {s' : Store} {r' : Registry} (hu : s'.users = w.store.users) (user : String)
    (handle : Handle) (path : Path) {o o' : StoredObject} (ho : o.Alike o') :
    (w.attributes user handle path o).Agrees
      (World.attributes { w with store := s', registry := r' } user handle path o') := by
  obtain ⟨now, ht, rfl⟩ := ho
  refine ⟨rfl, rfl, ?_, rfl, rfl, rfl, rfl, rfl, fun hk => ?_⟩
  · simp only [World.attributes, Attributes.ofStatus, Store.statusOf, Store.profile_congr hu]
  · have hnow := ht hk
    subst hnow
    exact ⟨rfl, rfl⟩

theorem Truthful.changed (h : c.Truthful w) {s : Store} {r : Registry}
    (hu : s.users = w.store.users) {C D : Place → Prop} (hC : w.store.Spares s C)
    (hD : w.store.SparesAcl s D) (hr : ∀ path handle, C path.place → w.registry.handleOf? path =
      some handle → r.handleOf? path = some handle) (ha : ∀ user place a, c'.attributesFor.get?
      (user, place) = some a → c.attributesFor.get? (user, place) = some a ∧ C place)
    (hp : ∀ place entries, c'.permissionsOf.get? place = some entries → c.permissionsOf.get? place =
      some entries ∧ D place) (hprofiles : c'.profileOf = c.profileOf) :
    c'.Truthful { w with store := s, registry := r } where
  attributes user place a h' := by
    obtain ⟨hfound, hplace⟩ := ha user place a h'
    obtain ⟨path, o, rfl, ho, hh, hagrees, hadmits⟩ := h.attributes user place a hfound
    obtain ⟨o', ho', halike⟩ := hC _ o hplace ho
    refine ⟨path, o', rfl, ho', hr path _ hplace hh,
      hagrees.trans (agrees_of_alike hu _ _ _ halike), ?_⟩
    exact (Store.admits_congr hu _).trans hadmits
  permissions place entries h' := by
    obtain ⟨hfound, hplace⟩ := hp place entries h'
    obtain ⟨o, ho, hacl⟩ := h.permissions place entries hfound
    obtain ⟨o', ho', hacl'⟩ := hD _ o hplace ho
    exact ⟨o', ho', hacl'.trans hacl⟩
  profiles user profile h' := by
    rw [hprofiles] at h'
    exact (h.profiles user profile h').trans (Store.profile_congr hu user).symm

end Cache
end StoreMount
