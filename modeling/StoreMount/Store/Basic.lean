import StoreMount.Account
import StoreMount.Ace
import StoreMount.Store.Contents
import StoreMount.Store.Error
import StoreMount.Table
import StoreMount.Word

/-!
# The object store

A store holds one zone: collections and data objects by place, accounts and groups by name, a clock
and the next object number. The clock is read by `tick`, which moves it on, so no two changes carry
the same time; a collection's modification time moves whenever a child is created, removed or
renamed. Reading needs level read on an object, changing it write, changing its access list own;
administrators need nothing.
-/
namespace StoreMount

structure StoredObject where
  id : Nat
  kind : ObjectKind
  contents : Contents
  owner : String
  createdAt : Instant
  modifiedAt : Instant
  acl : AccessList
deriving DecidableEq, Repr

structure UserRecord where
  type : UserType
  groups : List String
  metadata : List (String × String)
deriving DecidableEq, Repr

structure Store where
  zone : String
  objects : Table Place StoredObject
  users : Table String UserRecord
  clock : Instant
  nextId : Nat

namespace Store

def maxObjectSize : Nat := Word.bound32

def object? (s : Store) (path : Path) : Option StoredObject := s.objects.get? path.place

def tick (s : Store) : Instant × Store := (s.clock + 1, { s with clock := s.clock + 1 })

def touch (s : Store) (place : Place) (now : Instant) : Store :=
  { s with objects := s.objects.adjust place fun o => { o with modifiedAt := now } }

/-- The clock moves on even when there is no parent to touch. -/
def touchParent (s : Store) (place : Place) : Store :=
  let (now, s) := s.tick
  match place.parent? with
  | none => s
  | some parent => s.touch parent now

/-- A new object belongs to its owner alone. An object that stood at the place is gone. -/
def insertObject (s : Store) (place : Place) (kind : ObjectKind) (owner : String)
    (contents : Contents) :
    Store :=
  let (now, s) := s.tick
  let object : StoredObject :=
    { id := s.nextId, kind, contents, owner, createdAt := now, modifiedAt := now
      acl := [{ name := owner, kind := .individual, zone := s.zone, level := .own }] }
  { s with objects := s.objects.insert place object, nextId := s.nextId + 1 }.touchParent place

def find (s : Store) (path : Path) : Except StoreError StoredObject :=
  match s.object? path with
  | some o => .ok o
  | none => .error (.notFound path)

def checkNewChild (s : Store) (path : Path) : Except StoreError Unit := do
  if s.objects.contains path.place then throw (.alreadyExists path)
  match path.parent? with
  | none => throw (.alreadyExists path)
  | some parent =>
    let o ← s.find parent
    if !o.kind.isCollection then throw (.notACollection parent)

def isAdmin (s : Store) (user : String) : Bool :=
  ((s.users.get? user).map UserRecord.type) == some .admin

def groupsOf (s : Store) (user : String) : List String :=
  ((s.users.get? user).map UserRecord.groups).getD []

def levelOf? (s : Store) (user : String) (o : StoredObject) : Option Level :=
  o.acl.levelOf? user (s.groupsOf user)

def permits (s : Store) (user : String) (o : StoredObject) (level : Level) : Bool :=
  s.isAdmin user || (s.levelOf? user o).any fun held => decide (level ≤ held)

def require (s : Store) (user : String) (path : Path) (level : Level) : Except StoreError Unit := do
  let o ← s.find path
  if !s.permits user o level then throw (.permissionDenied path)

def requireParent (s : Store) (user : String) (path : Path) (level : Level) :
    Except StoreError Unit :=
  match path.parent? with
  | none => .error (.permissionDenied path)
  | some parent => s.require user parent level

def hasChildren (s : Store) (place : Place) : Bool :=
  s.objects.keys.any fun k => decide (k.parent? = some place)

/-! Direct administration, without a session. -/

def empty (zone admin : String) : Store :=
  { zone, objects := .empty, users := Table.empty.insert admin ⟨.admin, [],
    []⟩, clock := 0, nextId := 10000 }

def standardPlaces (zone : String) : List Place :=
  let root := Path.zoneRoot zone
  [Path.slash, root, root.child "home", root.child "public", root.child "trash"].map Path.place

def new (zone admin : String) : Store :=
  (standardPlaces zone).foldl (fun s place => s.insertObject place .collection admin .empty)
    (empty zone admin)

def homeOf (zone name : String) : Path := ((Path.zoneRoot zone).child "home").child name

/-- Register an account anew; accounts that can log in get a home collection. -/
def addUser (s : Store) (name : String) (type : UserType) : Store :=
  let s := { s with users := s.users.insert name ⟨type, [], []⟩ }
  if type = .group then s
  else
    let home := (homeOf s.zone name).place
    if s.objects.contains home then s else s.insertObject home .collection name .empty

def joinGroup (group : String) (r : UserRecord) : UserRecord :=
  if r.groups.contains group then r
  else { r with groups := (group :: r.groups).mergeSort fun a b => decide (a ≤ b) }

def addGroup (s : Store) (name : String) (members : List String) : Store :=
  let users := s.users.insert name ⟨.group, [], []⟩
  { s with users := members.foldl (fun t m => t.adjust m (joinGroup name)) users }

def addCollection (s : Store) (path : Path) (owner : String) : Except StoreError Store := do
  s.checkNewChild path
  return s.insertObject path.place .collection owner .empty

def addDataObject (s : Store) (path : Path) (owner : String) (bytes : List UInt8) :
    Except StoreError Store := do
  s.checkNewChild path
  return s.insertObject path.place .dataObject owner (.ofList bytes)

def changeAcl (s : Store) (place : Place) (f : AccessList → AccessList) : Store :=
  { s with objects := s.objects.adjust place fun o => { o with acl := f o.acl } }

def grantPermission (s : Store) (path : Path) (entry : PermissionEntry) :
    Except StoreError Store := do
  let _ ← s.find path
  return s.changeAcl path.place (·.grant entry)

def setMetadata (s : Store) (name key value : String) : Store :=
  { s with users := s.users.adjust name fun r =>
      { r with metadata := r.metadata ++ [(key, value)] } }

def removeMetadata (s : Store) (name key : String) : Store :=
  { s with users := s.users.adjust name fun r =>
      { r with metadata := r.metadata.filter fun m => decide (m.1 ≠ key) } }

end Store
end StoreMount
