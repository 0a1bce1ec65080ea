import StoreMount.Facade.Error
import StoreMount.Identity
import StoreMount.Link

/-!
# From user numbers to accounts

A resolver turns a user number into a principal: a name, its numbers, and the account that acts for
it through the proxy administrator. A number is looked up once and then remembered until the
identity source has changed; a look-up that fails leaves nothing behind. Number 0 is always the
administrator.

Names and numbers that cannot be mapped become nobody.
-/
namespace StoreMount

structure Principal where
  name : String
  uid : UInt32
  gid : UInt32
  account : Account
deriving DecidableEq, Repr

/-- In which order the principals of a table are visited: in any, and a change of the table may turn
it. -/
structure Visiting where
  arrange : List Principal → List Principal
  perm : ∀ ps, (arrange ps).Perm ps

def Visiting.asKept : Visiting := ⟨id, fun _ => .refl _⟩

structure Resolver where
  admin : Account
  known : Table UInt32 Principal
  markers : List Nat
  visiting : Visiting

namespace Resolver

def nobody : UInt32 := 65534

def administrator (admin : Account) : Principal := ⟨admin.proxyUser, 0, 0, admin⟩

def seed (admin : Account) : Table UInt32 Principal := Table.empty.insert 0 (administrator admin)

/-- The account is the proxy's; whatever client it names, it acts for the proxy itself. -/
def new (ids : Identities) (account : Account) (visiting : Visiting) : Resolver :=
  let admin := account.actingAs account.proxyUser
  ⟨admin, seed admin, ids.markers, visiting⟩

def cachedCount (r : Resolver) : Nat := r.known.size

def loadError (uid : UInt32) : StoreError → FacadeError
  | .unknownAccount _ => .unknownPrincipal uid
  | error => .ofStore error

def identify (ids : Identities) (uid : UInt32) : Except FacadeError Person :=
  match ids.userByUid uid with
  | .ok (some person) => .ok person
  | _ => .error (.unknownPrincipal uid)

def confirm (admin : Account) (uid : UInt32) (person : Person) (session : Session) :
    LinkM FacadeError Principal := do
  match ← Link.failingAs (loadError uid) (Link.findUser session person.name) with
  | none => throw (.unknownPrincipal uid)
  | some _ => return ⟨person.name, person.uid, person.gid, admin.actingAs person.name⟩

def load (admin : Account) (ids : Identities) (uid : UInt32) : LinkM FacadeError Principal := do
  let person ← identify ids uid
  Link.during (admin.actingAs person.name) (loadError uid) (confirm admin uid person)

def resolve (r : Resolver) (ids : Identities) (uid : UInt32) (l : Link) :
    Except FacadeError Principal × Resolver × Link :=
  match r.known.get? uid with
  | some principal => (.ok principal, r, l)
  | none =>
    match load r.admin ids uid l with
    | (.ok principal, l) => (.ok principal, { r with known := r.known.insert uid principal }, l)
    | (.error e, l) => (.error e, r, l)

/-- Whoever of that name is visited first. -/
def cachedByName (r : Resolver) (name : String) : Option Principal :=
  (r.visiting.arrange r.known.values).find? fun p => decide (p.name = name)

def idsForName (r : Resolver) (ids : Identities) (name : String) : UInt32 × UInt32 :=
  if name = r.admin.proxyUser then (0, 0)
  else match r.cachedByName name with
    | some p => (p.uid, p.gid)
    | none => match ids.userByName name with
      | .ok (some p) => (p.uid, p.gid)
      | _ => (nobody, nobody)

def uidForName (r : Resolver) (ids : Identities) (name : String) : UInt32 :=
  (r.idsForName ids name).1

def gidForName (ids : Identities) (name : String) : UInt32 :=
  match ids.groupByName name with
  | .ok (some g) => g.gid
  | _ => nobody

def nameForUid? (r : Resolver) (ids : Identities) (uid : UInt32) : Option String :=
  if uid = 0 then some r.admin.proxyUser
  else match ids.userByUid uid with
    | .ok (some p) => some p.name
    | _ => none

def nameForGid? (ids : Identities) (gid : UInt32) : Option String :=
  match ids.groupByGid gid with
  | .ok (some g) => some g.name
  | _ => none

def purgeIfChanged (r : Resolver) (ids : Identities) : Bool × Resolver :=
  if r.markers = ids.markers then (false, r)
  else (true, { r with known := seed r.admin, markers := ids.markers })

end Resolver
end StoreMount
