import StoreMount.Store.Session
import StoreMount.Proofs.Path
import Mathlib.Tactic.Common

/-!
# The changes a store can undergo

Everything that changes a store is one of fourteen calls: seven of direct administration and seven
of sessions. A state is reachable if a new store comes to it by such calls, those that fail changing
nothing. What a successful call has checked and what it has done is read off its definition here,
once for each call; what holds of all stores is then proved by going through these cases. A
successful call does one of six things: it changes who is known, inserts an object, empties or
overwrites a data object, changes an access list, removes an object, or moves a subtree.
-/
namespace StoreMount.Store

inductive Change
  | addUser (name : String) (type : UserType)
  | addGroup (name : String) (members : List String)
  | addCollection (path : Path) (owner : String)
  | addDataObject (path : Path) (owner : String) (bytes : List UInt8)
  | grantPermission (path : Path) (entry : PermissionEntry)
  | setMetadata (name key value : String)
  | removeMetadata (name key : String)
  | createDataObject (user : String) (path : Path) (overwrite : Bool)
  | createCollection (user : String) (path : Path)
  | remove (user : String) (path : Path)
  | rename (user : String) (source target : Path)
  | write (user : String) (path : Path) (offset : Nat) (bytes : List UInt8)
  | grant (user : String) (path : Path) (entry : PermissionEntry)
  | revoke (user : String) (path : Path) (entry : PermissionEntry)

def apply (s : Store) : Change → Except StoreError Store
  | .addUser name type => .ok (s.addUser name type)
  | .addGroup name members => .ok (s.addGroup name members)
  | .addCollection path owner => s.addCollection path owner
  | .addDataObject path owner bytes => s.addDataObject path owner bytes
  | .grantPermission path entry => s.grantPermission path entry
  | .setMetadata name key value => .ok (s.setMetadata name key value)
  | .removeMetadata name key => .ok (s.removeMetadata name key)
  | .createDataObject user path overwrite => s.createDataObject user path overwrite
  | .createCollection user path => s.createCollection user path
  | .remove user path => s.remove user path
  | .rename user source target => s.rename user source target
  | .write user path offset bytes => (s.write user path offset bytes).map Prod.snd
  | .grant user path entry => s.grant user path entry
  | .revoke user path entry => s.revoke user path entry

inductive Reachable : Store → Prop
  | new (zone admin : String) : Reachable (Store.new zone admin)
  | step {s s' : Store} (change : Change) (hs : Reachable s)
      (h : s.apply change = .ok s') : Reachable s'

variable {s s' : Store} {user : String} {path : Path}

theorem bind_eq_ok {ε α β : Type} {x : Except ε α} {f : α → Except ε β} {b : β}
    (h : x >>= f = .ok b) :
    ∃ a, x = .ok a ∧ f a = .ok b := by
  cases x with
  | error e => cases h
  | ok a => exact ⟨a, rfl, h⟩

theorem guard_eq_ok {ε β : Type} {c : Prop} [Decidable c] {e : ε} {f : Unit → Except ε β} {b : β}
    (h : (if c then throw e >>= f else f ()) = .ok b) : ¬c ∧ f () = .ok b := by
  split at h
  · cases h
  · next hc => exact ⟨hc, h⟩

/-! ## What was checked -/

theorem find_eq_ok {o : StoredObject} (h : s.find path = .ok o) : s.object? path = some o := by
  unfold find at h
  cases ho : s.object? path with
  | none => rw [ho] at h; cases h
  | some o' => rw [ho] at h; cases h; rfl

theorem require_eq_ok {level : Level} (h : s.require user path level = .ok ()) :
    ∃ o, s.object? path = some o ∧ s.permits user o level = true := by
  obtain ⟨o, ho, h⟩ := bind_eq_ok h
  refine ⟨o, find_eq_ok ho, ?_⟩
  split at h
  · cases h
  · next hp => simpa using hp

theorem object?_of_require {level : Level} (h : s.require user path level = .ok ()) :
    ∃ o, s.object? path = some o :=
  (require_eq_ok h).imp fun _ ho => ho.1

theorem checkNewChild_eq_ok (h : s.checkNewChild path = .ok ()) :
    s.object? path = none ∧ ∃ up o, path.place.parent? = some up ∧ s.objects.get? up = some o ∧
      o.kind.isCollection = true := by
  unfold checkNewChild at h
  obtain ⟨hc, h⟩ := guard_eq_ok h
  have hplace := Path.place_parent? path
  cases hup : path.parent? with
  | none => simp only [hup] at h; cases h
  | some up =>
    simp only [hup] at h
    obtain ⟨o, ho, h⟩ := bind_eq_ok h
    rw [hup, Option.map_some] at hplace
    refine ⟨Option.not_isSome_iff_eq_none.1 hc, up.place, o, hplace.symm, find_eq_ok ho, ?_⟩
    split at h
    · cases h
    · next hk => simpa using hk

/-! ## What was done -/

def rewritten (s : Store) (place : Place) (contents : Contents → Contents) : Store :=
  { s.tick.2 with objects := s.objects.adjust place fun o =>
      { o with contents := contents o.contents, modifiedAt := s.clock + 1 } }

def removed (s : Store) (place : Place) : Store :=
  { s with objects := s.objects.erase place }.touchParent place

def renamed (s : Store) (source target : Place) : Store :=
  ({ s with objects := relocate s.objects source target (s.subtree source) }.touchParent
    source).touchParent target

theorem addCollection_eq_ok {owner : String} (h : s.addCollection path owner = .ok s') :
    s.checkNewChild path = .ok () ∧ s' = s.insertObject path.place .collection owner .empty := by
  obtain ⟨_, hc, h⟩ := bind_eq_ok h
  cases h
  exact ⟨hc, rfl⟩

theorem addDataObject_eq_ok {owner : String} {bytes : List UInt8}
    (h : s.addDataObject path owner bytes = .ok s') :
    s.checkNewChild path = .ok () ∧
      s' = s.insertObject path.place .dataObject owner (.ofList bytes) := by
  obtain ⟨_, hc, h⟩ := bind_eq_ok h
  cases h
  exact ⟨hc, rfl⟩

theorem grantPermission_eq_ok {entry : PermissionEntry}
    (h : s.grantPermission path entry = .ok s') :
    s' = s.changeAcl path.place (·.grant entry) := by
  obtain ⟨_, -, h⟩ := bind_eq_ok h
  cases h
  rfl

theorem createCollection_eq_ok (h : s.createCollection user path = .ok s') :
    s.checkNewChild path = .ok () ∧ s.requireParent user path .write = .ok () ∧
      s' = s.insertObject path.place .collection user .empty := by
  obtain ⟨_, hc, h⟩ := bind_eq_ok h
  obtain ⟨_, hr, h⟩ := bind_eq_ok h
  cases h
  exact ⟨hc, hr, rfl⟩

theorem createDataObject_eq_ok {overwrite : Bool}
    (h : s.createDataObject user path overwrite = .ok s') :
    (∃ o, s.object? path = some o ∧ o.kind = .dataObject ∧ overwrite = true ∧
      s.require user path .write = .ok () ∧ s' = s.rewritten path.place fun _ => .empty) ∨
    (s.checkNewChild path = .ok () ∧ s.requireParent user path .write = .ok () ∧
      s' = s.insertObject path.place .dataObject user .empty) := by
  unfold createDataObject at h
  split at h
  · next o ho =>
    left
    obtain ⟨hc, h⟩ := guard_eq_ok h
    obtain ⟨hw, hk⟩ : overwrite = true ∧ o.kind = .dataObject := by simpa using hc
    obtain ⟨_, hr, h⟩ := bind_eq_ok h
    cases h
    exact ⟨o, ho, hk, hw, hr, rfl⟩
  · right
    obtain ⟨_, hc, h⟩ := bind_eq_ok h
    obtain ⟨_, hr, h⟩ := bind_eq_ok h
    cases h
    exact ⟨hc, hr, rfl⟩

theorem remove_eq_ok (h : s.remove user path = .ok s') :
    s.require user path .write = .ok () ∧ s.hasChildren path.place = false ∧
      s' = s.removed path.place := by
  obtain ⟨_, hr, h⟩ := bind_eq_ok h
  obtain ⟨hc, h⟩ := guard_eq_ok h
  cases h
  exact ⟨hr, by simpa using hc, rfl⟩

theorem rename_eq_ok {source target : Path} (h : s.rename user source target = .ok s') :
    s.require user source .write = .ok () ∧ target.within source = false ∧
      s.checkNewChild target = .ok () ∧ s.requireParent user target .write = .ok () ∧
      s' = s.renamed source.place target.place := by
  obtain ⟨_, hr, h⟩ := bind_eq_ok h
  obtain ⟨-, h⟩ := guard_eq_ok h
  obtain ⟨hw, h⟩ := guard_eq_ok h
  obtain ⟨_, hn, h⟩ := bind_eq_ok h
  obtain ⟨_, hp, h⟩ := bind_eq_ok h
  cases h
  exact ⟨hr, by simpa using hw, hn, hp, rfl⟩

theorem write_eq_ok {offset n : Nat} {bytes : List UInt8}
    (h : s.write user path offset bytes = .ok (n, s')) :
    ∃ o, s.object? path = some o ∧ o.kind.isCollection = false ∧
      s.require user path .write = .ok () ∧
      offset + bytes.length ≤ maxObjectSize ∧ n = bytes.length ∧
      s' = s.rewritten path.place (·.write offset bytes) := by
  obtain ⟨o, ho, h⟩ := bind_eq_ok h
  obtain ⟨hk, h⟩ := guard_eq_ok h
  obtain ⟨_, hr, h⟩ := bind_eq_ok h
  obtain ⟨hs, h⟩ := guard_eq_ok h
  cases h
  exact ⟨o, find_eq_ok ho, by simpa using hk, hr, Nat.not_lt.1 hs, rfl, rfl⟩

theorem grant_eq_ok {entry : PermissionEntry} (h : s.grant user path entry = .ok s') :
    s.require user path .own = .ok () ∧ s.users.contains entry.name = true ∧
      s' = s.changeAcl path.place (·.grant entry) := by
  obtain ⟨_, hr, h⟩ := bind_eq_ok h
  obtain ⟨hc, h⟩ := guard_eq_ok h
  cases h
  exact ⟨hr, by simpa using hc, rfl⟩

theorem revoke_eq_ok {entry : PermissionEntry} (h : s.revoke user path entry = .ok s') :
    s.require user path .own = .ok () ∧ s' = s.changeAcl path.place (·.revoke entry) := by
  obtain ⟨_, hr, h⟩ := bind_eq_ok h
  cases h
  exact ⟨hr, rfl⟩

/-! ## What it comes to -/

structure Vacant (s : Store) (place : Place) : Prop where
  free : s.objects.get? place = none
  home : ∃ up o, place.parent? = some up ∧ s.objects.get? up = some o ∧ o.kind.isCollection = true

structure Movable (s : Store) (source target : Place) : Prop extends s.Vacant target where
  present : ∃ o, s.objects.get? source = some o
  outside : ¬source <+: target

/-- What a successful call can do to the objects. -/
inductive Effect (s : Store) : Store → Prop
  | rewritten (place : Place) (contents : Contents → Contents) :
      Effect s (s.rewritten place contents)
  | regranted (place : Place) (f : AccessList → AccessList) : Effect s (s.changeAcl place f)
  | inserted (path : Path) (kind : ObjectKind) (owner : String) (contents : Contents)
      (vacant : s.Vacant path.place) : Effect s (s.insertObject path.place kind owner contents)
  | removed (place : Place) (childless : s.hasChildren place = false) : Effect s (s.removed place)
  | renamed (source target : Path) (movable : s.Movable source.place target.place) :
      Effect s (s.renamed source.place target.place)

theorem vacant_of_checkNewChild (h : s.checkNewChild path = .ok ()) : s.Vacant path.place := by
  obtain ⟨hfree, hhome⟩ := checkNewChild_eq_ok h
  exact ⟨hfree, hhome⟩

theorem movable_of_rename {source target : Path} (h : s.rename user source target = .ok s') :
    s.Movable source.place target.place := by
  obtain ⟨hr, hw, hn, -, -⟩ := rename_eq_ok h
  exact ⟨vacant_of_checkNewChild hn, object?_of_require hr,
    fun hp => by simp [Path.within_iff.2 hp] at hw⟩

theorem effect_createDataObject {overwrite : Bool}
    (h : s.createDataObject user path overwrite = .ok s') :
    s.Effect s' := by
  obtain ⟨o, -, -, -, -, rfl⟩ | ⟨hn, -, rfl⟩ := createDataObject_eq_ok h
  · exact .rewritten ..
  · exact .inserted path _ _ _ (vacant_of_checkNewChild hn)

theorem effect_createCollection (h : s.createCollection user path = .ok s') : s.Effect s' := by
  obtain ⟨hn, -, rfl⟩ := createCollection_eq_ok h
  exact .inserted path _ _ _ (vacant_of_checkNewChild hn)

theorem effect_remove (h : s.remove user path = .ok s') : s.Effect s' := by
  obtain ⟨-, hc, rfl⟩ := remove_eq_ok h
  exact .removed _ hc

theorem effect_rename {source target : Path} (h : s.rename user source target = .ok s') :
    s.Effect s' := by
  have hm := movable_of_rename h
  obtain ⟨-, -, -, -, rfl⟩ := rename_eq_ok h
  exact .renamed source target hm

theorem effect_write {offset n : Nat} {bytes : List UInt8}
    (h : s.write user path offset bytes = .ok (n, s')) :
    s.Effect s' := by
  obtain ⟨o, -, -, -, -, -, rfl⟩ := write_eq_ok h
  exact .rewritten ..

theorem effect_grant {entry : PermissionEntry} (h : s.grant user path entry = .ok s') :
    s.Effect s' := by
  obtain ⟨-, -, rfl⟩ := grant_eq_ok h
  exact .regranted ..

theorem effect_revoke {entry : PermissionEntry} (h : s.revoke user path entry = .ok s') :
    s.Effect s' := by
  obtain ⟨-, rfl⟩ := revoke_eq_ok h
  exact .regranted ..

theorem effect_of_apply {change : Change} (hc : ∀ name type, change ≠ .addUser name type)
    (h : s.apply change = .ok s') :
    s.Effect s' ∨ ∃ users, s' = { s with users } := by
  cases change with
  | addUser name type => exact absurd rfl (hc name type)
  | addGroup name members => cases h; exact .inr ⟨_, rfl⟩
  | addCollection path owner =>
    obtain ⟨hn, rfl⟩ := addCollection_eq_ok h
    exact .inl (.inserted path _ _ _ (vacant_of_checkNewChild hn))
  | addDataObject path owner bytes =>
    obtain ⟨hn, rfl⟩ := addDataObject_eq_ok h
    exact .inl (.inserted path _ _ _ (vacant_of_checkNewChild hn))
  | grantPermission path entry =>
    obtain rfl := grantPermission_eq_ok h
    exact .inl (.regranted ..)
  | setMetadata name key value => cases h; exact .inr ⟨_, rfl⟩
  | removeMetadata name key => cases h; exact .inr ⟨_, rfl⟩
  | createDataObject user path overwrite => exact .inl (effect_createDataObject h)
  | createCollection user path => exact .inl (effect_createCollection h)
  | remove user path => exact .inl (effect_remove h)
  | rename user source target => exact .inl (effect_rename h)
  | write user path offset bytes =>
    cases hw : s.write user path offset bytes with
    | error e => simp [apply, hw, Except.map] at h
    | ok a =>
      obtain rfl : a.2 = s' := by simpa [apply, hw, Except.map] using h
      exact .inl (effect_write hw)
  | grant user path entry => exact .inl (effect_grant h)
  | revoke user path entry => exact .inl (effect_revoke h)

/-- Every change has an effect on the objects or on who is known; only the home of a new account is
made without looking for its parent. -/
theorem apply_eq_ok {change : Change} (h : s.apply change = .ok s') :
    s.Effect s' ∨ ∃ users, s' = { s with users } ∨
      ∃ name, s.objects.get? (homeOf s.zone name).place = none ∧
        s' = { s with users }.insertObject (homeOf s.zone name).place .collection name .empty := by
  by_cases hc : ∀ name type, change ≠ .addUser name type
  · exact (effect_of_apply hc h).imp_right fun ⟨users, hs⟩ => ⟨users, .inl hs⟩
  · push Not at hc
    obtain ⟨name, type, rfl⟩ := hc
    cases h
    refine .inr ⟨s.users.insert name ⟨type, [], []⟩, ?_⟩
    simp only [addUser]
    split
    · exact .inl rfl
    · split
      · exact .inl rfl
      · next hfree => exact .inr ⟨name, Option.not_isSome_iff_eq_none.1 hfree, rfl⟩

end StoreMount.Store
