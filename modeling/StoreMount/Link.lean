import StoreMount.Store.Server

/-!
# The link to the server

Everything above the store reaches it through a link. The link writes down every call before it is
made, lets scheduled faults fail it, and only then passes it on, so a call that a fault fails never
reaches the store. It can also report another kind for a path and keep an account out of sight. A
session that `during` opens is closed when its body ends, whichever way it ends.
-/
namespace StoreMount

inductive Call
  | stat (path : Path)
  | list (path : Path)
  | createDataObject (path : Path) (overwrite : Bool)
  | createCollection (path : Path)
  | remove (path : Path)
  | rename (source target : Path)
  | read (path : Path) (offset count : Nat)
  | write (path : Path) (offset count : Nat)
  | permissions (path : Path)
  | grant (path : Path) (entry : PermissionEntry)
  | revoke (path : Path) (entry : PermissionEntry)
  | findUser (name : String)
  | userGroups (name : String)
  | usersWithMetadata (key : String)
deriving DecidableEq, Repr

namespace Call

def method : Call → String
  | .stat _ => "stat"
  | .list _ => "list"
  | .createDataObject .. => "create_data_object"
  | .createCollection _ => "create_collection"
  | .remove _ => "remove"
  | .rename .. => "rename"
  | .read .. => "read"
  | .write .. => "write"
  | .permissions _ => "permissions"
  | .grant .. => "grant"
  | .revoke .. => "revoke"
  | .findUser _ => "find_user"
  | .userGroups _ => "user_groups"
  | .usersWithMetadata _ => "users_with_metadata"

def subject : Call → String
  | .stat path | .list path | .createDataObject path _ | .createCollection path | .remove path
  | .rename path _ | .read path _ _ | .write path _ _ | .permissions path | .grant path _
  | .revoke path _ => path.text
  | .findUser name | .userGroups name => name
  | .usersWithMetadata key => key

def details : Call → String
  | .createDataObject _ overwrite => if overwrite then " true" else " false"
  | .rename _ target => s!" {target.text}"
  | .read _ offset count | .write _ offset count => s!" {offset} {count}"
  | .grant _ entry | .revoke _ entry => s!" {entry.name} {entry.level.word}"
  | _ => ""

def text (c : Call) : String := c.method ++ " " ++ c.subject ++ c.details

def paths : Call → List Path
  | .stat path | .list path | .createDataObject path _ | .createCollection path | .remove path
  | .read path _ _ | .write path _ _ | .permissions path | .grant path _ | .revoke path _ => [path]
  | .rename source target => [source, target]
  | .findUser _ | .userGroups _ | .usersWithMetadata _ => []

def mutates : Call → Bool
  | .createDataObject .. | .createCollection _ | .remove _ | .rename .. | .write .. | .grant ..
  | .revoke .. => true
  | _ => false

end Call

inductive Event
  | asked (user : String)
  | opened (session : Session)
  | called (session : Session) (call : Call)
  | closed (session : Session)
deriving DecidableEq, Repr

def Event.text? : Event → Option String
  | .asked user => some ("connect " ++ user)
  | .opened _ => none
  | .called _ call => some call.text
  | .closed _ => some "close"

/-- A planned failure: of which method, for which first argument (any, if none), how often still. -/
structure Fault where
  method : String
  subject : Option String
  left : Option Nat
  error : StoreError
deriving DecidableEq, Repr

def Fault.hits (f : Fault) (method subject : String) : Bool :=
  decide (f.method = method) && f.subject.all (fun s => decide (s = subject)) &&
    decide (f.left ≠ some 0)

def Fault.strike? : List Fault → String → String → Option (StoreError × List Fault)
  | [], _, _ => none
  | f :: fs, method, subject =>
    if f.hits method subject then some (f.error, { f with left := f.left.map (· - 1) } :: fs)
    else (strike? fs method subject).map fun (e, fs) => (e, f :: fs)

structure Link where
  server : Server
  faults : List Fault
  kinds : Table String ObjectKind
  hidden : List String
  trace : List Event

abbrev LinkM (ε : Type) := ExceptT ε (StateM Link)

namespace Link

def ofServer (server : Server) : Link := ⟨server, [], .empty, [], []⟩

def record (e : Event) (l : Link) : Link := { l with trace := l.trace ++ [e] }

def check (method subject : String) : LinkM StoreError Unit := fun l =>
  match Fault.strike? l.faults method subject with
  | some (e, faults) => (.error e, { l with faults })
  | none => (.ok (), l)

/-- The first half of connecting: the call is written down and may be failed. -/
def announce (account : Account) : LinkM StoreError Unit := do
  modify (record (.asked account.clientUser))
  check "connect" account.clientUser

def enter (account : Account) : LinkM StoreError Session := do
  let l ← get
  let (session, server) ← l.server.connect account
  set { l with server }
  modify (record (.opened session))
  return session

def connect (account : Account) : LinkM StoreError Session := do
  announce account
  enter account

def close (session : Session) (l : Link) : Link :=
  { l with server := (l.server.close session).2 }.record (.closed session)

def perform {α : Type} (session : Session) (call : Call)
    (action : Store → Except StoreError (α × Store)) :
    LinkM StoreError α := do
  modify (record (.called session call))
  check call.method call.subject
  let l ← get
  let (a, store) ← action l.server.store
  set { l with server := { l.server with store } }
  return a

def ask {α : Type} (session : Session) (call : Call) (question : Store → Except StoreError α) :
    LinkM StoreError α :=
  perform session call fun s => (question s).map (·, s)

def tell (session : Session) (call : Call) (action : Store → Except StoreError Store) :
    LinkM StoreError Unit :=
  perform session call fun s => (action s).map ((), ·)

def stat (session : Session) (path : Path) : LinkM StoreError Status := do
  let status ← ask session (.stat path) (·.stat path)
  match (← get).kinds.get? path.text with
  | some kind => return { status with kind }
  | none => return status

def list (session : Session) (path : Path) : LinkM StoreError (List ListingEntry) :=
  ask session (.list path) (·.list session.user path)

def createDataObject (session : Session) (path : Path) (overwrite : Bool) : LinkM StoreError Unit :=
  tell session (.createDataObject path overwrite) (·.createDataObject session.user path overwrite)

def createCollection (session : Session) (path : Path) : LinkM StoreError Unit :=
  tell session (.createCollection path) (·.createCollection session.user path)

def remove (session : Session) (path : Path) : LinkM StoreError Unit :=
  tell session (.remove path) (·.remove session.user path)

def rename (session : Session) (source target : Path) : LinkM StoreError Unit :=
  tell session (.rename source target) (·.rename session.user source target)

def read (session : Session) (path : Path) (offset count : Nat) : LinkM StoreError (List UInt8) :=
  ask session (.read path offset count) (·.read session.user path offset count)

def write (session : Session) (path : Path) (offset : Nat) (bytes : List UInt8) :
    LinkM StoreError Nat :=
  perform session (.write path offset bytes.length) (·.write session.user path offset bytes)

def permissions (session : Session) (path : Path) : LinkM StoreError (List PermissionEntry) :=
  ask session (.permissions path) (·.permissions path)

def grant (session : Session) (path : Path) (entry : PermissionEntry) : LinkM StoreError Unit :=
  tell session (.grant path entry) (·.grant session.user path entry)

def revoke (session : Session) (path : Path) (entry : PermissionEntry) : LinkM StoreError Unit :=
  tell session (.revoke path entry) (·.revoke session.user path entry)

def findUser (session : Session) (name : String) : LinkM StoreError (Option KnownUser) := do
  let found ← ask session (.findUser name) fun s => .ok (s.findUser name)
  return if (← get).hidden.contains name then none else found

def userGroups (session : Session) (name : String) : LinkM StoreError (List String) :=
  ask session (.userGroups name) (·.userGroups name)

def usersWithMetadata (session : Session) (key : String) :
    LinkM StoreError (List (String × String)) :=
  ask session (.usersWithMetadata key) fun s => .ok (s.usersWithMetadata key)

def failingAs {ε α : Type} (convert : StoreError → ε) (action : LinkM StoreError α) :
    LinkM ε α := fun l =>
  let (answer, l) := action l
  (answer.mapError convert, l)

/-- Open a session, use it, and close it however the use ended. -/
def during {ε α : Type} (account : Account) (convert : StoreError → ε)
    (body : Session → LinkM ε α) :
    LinkM ε α := do
  let session ← failingAs convert (connect account)
  fun l =>
    let (answer, l) := body session l
    (answer, l.close session)

end Link
end StoreMount
