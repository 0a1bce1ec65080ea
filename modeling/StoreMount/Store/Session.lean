import StoreMount.Store.Basic

/-!
# What a session can ask of the store

Each call is made by a user and either fails, and then there is no new store, or answers. The order
of the checks decides which failure is reported when several apply.
-/
namespace StoreMount.Store

def stat (s : Store) (path : Path) : Except StoreError Status := do
  let o ← s.find path
  return { kind := o.kind, size := o.contents.size, ownerName := o.owner, ownerZone := s.zone
           createdAt := o.createdAt, modifiedAt := o.modifiedAt, objectId := o.id }

def offspring (s : Store) (place : Place) : List (RawText × ObjectKind) :=
  (s.objects.entries.filterMap fun e =>
    if e.1.parent? = some place then e.1.name?.map (·, e.2.kind) else none).mergeSort
      fun a b => decide (a.1.bytes ≤ b.1.bytes)

/-- A listing has what is shown of each name. -/
def children (s : Store) (place : Place) : List ListingEntry :=
  (s.offspring place).map fun e => ⟨e.1.shown, e.2⟩

def list (s : Store) (user : String) (path : Path) : Except StoreError (List ListingEntry) := do
  let o ← s.find path
  if !o.kind.isCollection then throw (.notACollection path)
  s.require user path .read
  return s.children path.place

def createDataObject (s : Store) (user : String) (path : Path) (overwrite : Bool) :
    Except StoreError Store :=
  match s.object? path with
  | some o => do
    if !overwrite || o.kind ≠ .dataObject then throw (.alreadyExists path)
    s.require user path .write
    let (now, s) := s.tick
    return { s with objects := s.objects.adjust path.place fun o =>
      { o with contents := .empty, modifiedAt := now } }
  | none => do
    s.checkNewChild path
    s.requireParent user path .write
    return s.insertObject path.place .dataObject user .empty

def createCollection (s : Store) (user : String) (path : Path) : Except StoreError Store := do
  s.checkNewChild path
  s.requireParent user path .write
  return s.insertObject path.place .collection user .empty

def remove (s : Store) (user : String) (path : Path) : Except StoreError Store := do
  s.require user path .write
  if s.hasChildren path.place then throw (.notEmpty path)
  return { s with objects := s.objects.erase path.place }.touchParent path.place

def subtree (s : Store) (place : Place) : List Place :=
  (s.objects.keys.filter fun k => place.isPrefixOf k).mergeSort Place.atMost

def relocateOne (source target : Place) (t : Table Place StoredObject) (k : Place) :
    Table Place StoredObject :=
  match t.get? k with
  | none => t
  | some o => (t.erase k).insert (Place.moved source target k) o

/-- Objects move one by one, a collection before what it holds. -/
def relocate (objects : Table Place StoredObject) (source target : Place) (moving : List Place) :
    Table Place StoredObject :=
  moving.foldl (relocateOne source target) objects

def rename (s : Store) (user : String) (source target : Path) : Except StoreError Store := do
  s.require user source .write
  if s.objects.contains target.place then throw (.alreadyExists target)
  if target.within source then throw (.other s!"cannot move {source.text} into itself")
  s.checkNewChild target
  s.requireParent user target .write
  let objects := relocate s.objects source.place target.place (s.subtree source.place)
  return ({ s with objects }.touchParent source.place).touchParent target.place

def read (s : Store) (user : String) (path : Path) (offset count : Nat) :
    Except StoreError (List UInt8) := do
  let o ← s.find path
  if o.kind.isCollection then throw (.isACollection path)
  s.require user path .read
  return o.contents.read offset count

def write (s : Store) (user : String) (path : Path) (offset : Nat) (bytes : List UInt8) :
    Except StoreError (Nat × Store) := do
  let o ← s.find path
  if o.kind.isCollection then throw (.isACollection path)
  s.require user path .write
  if maxObjectSize < offset + bytes.length then throw (.tooLarge path)
  let (now, s) := s.tick
  return (bytes.length, { s with objects := s.objects.adjust path.place fun o =>
    { o with contents := o.contents.write offset bytes, modifiedAt := now } })

def permissions (s : Store) (path : Path) : Except StoreError (List PermissionEntry) := do
  return (← s.find path).acl

def grant (s : Store) (user : String) (path : Path) (entry : PermissionEntry) :
    Except StoreError Store := do
  s.require user path .own
  if !s.users.contains entry.name then throw (.unknownAccount entry.name)
  return s.changeAcl path.place (·.grant entry)

def revoke (s : Store) (user : String) (path : Path) (entry : PermissionEntry) :
    Except StoreError Store := do
  s.require user path .own
  return s.changeAcl path.place (·.revoke entry)

def findUser (s : Store) (name : String) : Option KnownUser :=
  (s.users.get? name).map fun r => ⟨name, s.zone, r.type⟩

def userGroups (s : Store) (name : String) : Except StoreError (List String) :=
  match s.users.get? name with
  | some r => .ok r.groups
  | none => .error (.unknownAccount name)

def pairAtMost (a b : String × String) : Bool :=
  if a.1 = b.1 then decide (a.2 ≤ b.2) else decide (a.1 ≤ b.1)

def usersWithMetadata (s : Store) (key : String) : List (String × String) :=
  (s.users.entries.flatMap fun e =>
    (e.2.metadata.filter fun m => decide (m.1 = key)).map fun m => (e.1, m.2)).mergeSort pairAtMost

/-- Whether a connection may be made: the proxy user is an administrator, the client user is known.
-/
def admits (s : Store) (account : Account) : Except StoreError Unit := do
  if !s.isAdmin account.proxyUser then
    throw (.connection s!"proxy user {account.proxyUser} is not an administrator")
  if !s.users.contains account.clientUser then throw (.unknownAccount account.clientUser)

end StoreMount.Store
