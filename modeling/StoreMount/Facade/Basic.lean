import StoreMount.AclExchange
import StoreMount.AllowList
import StoreMount.Cache

/-!
# The mounted collection

A facade exposes one collection of the store as a tree of handles. Its state is everything an
operation can see: the link, who the callers are, the registry and the caches. An operation that
fails stops there; what it did to the state until then stays. The pieces in this module are what all
operations are made of.
-/
namespace StoreMount

structure Options where
  mountPoint : Path
  zone : String
  allowOverwrite : Bool
  lifetimes : Lifetimes

structure Facade where
  link : Link
  identities : Identities
  resolver : Resolver
  allowList : AllowList
  options : Options
  rootObjectId : Nat
  registry : Registry
  cache : Cache

abbrev FacadeM := ExceptT FacadeError (StateM Facade)

namespace Facade

def call {α : Type} (action : LinkM StoreError α) : FacadeM α := fun f =>
  let (answer, link) := action f.link
  (answer.mapError .ofStore, { f with link })

def during {α : Type} (account : Account) (body : Session → FacadeM α) : FacadeM α := do
  let session ← call (Link.connect account)
  fun f =>
    let (answer, f) := body session f
    (answer, { f with link := f.link.close session })

def resolve (uid : UInt32) : FacadeM Principal := fun f =>
  let (answer, resolver, link) := f.resolver.resolve f.identities uid f.link
  (answer, { f with resolver, link })

def pathOf (handle : Handle) : FacadeM Path := do
  match (← get).registry.pathOf? handle with
  | some path => return path
  | none => throw (.handleNotFound handle)

/-- Names that could lead elsewhere than to a child are not found. -/
def childPath (parent : Handle) (name : String) : FacadeM Path := do
  if name = "" ∨ name = "." ∨ name = ".." ∨ name.toList.contains '/' then throw (.notFound name)
  return (← pathOf parent).child name

def handleFor (path : Path) : FacadeM Handle := fun f =>
  let (handle, registry) := f.registry.handleFor path
  (.ok handle, { f with registry })

def changeCache (change : Cache → Cache) : FacadeM Unit :=
  modify fun f => { f with cache := change f.cache }

/-- A failure of the registry means that it disagrees with the store. -/
def changeRegistry (change : Registry → Except Registry.Error Registry) : FacadeM Unit := fun f =>
  match change f.registry with
  | .ok registry => (.ok (), { f with registry })
  | .error e => (.error (.invariant e), f)

def userProfile (session : Session) (name : String) : FacadeM UserProfile := do
  match (← get).cache.userProfile? name with
  | some profile => return profile
  | none =>
    let profile : UserProfile ← match ← call (Link.findUser session name) with
      | some found => do
        let groups ← call (Link.userGroups session name)
        pure ⟨found.type, groups⟩
      | none => pure ⟨.regular, []⟩
    changeCache (·.putUserProfile name profile)
    return profile

def permissions (session : Session) (path : Path) : FacadeM (List PermissionEntry) := do
  match (← get).cache.permissions? path with
  | some entries => return entries
  | none =>
    let entries ← call (Link.permissions session path)
    changeCache (·.putPermissions path entries)
    return entries

def objectKind (session : Session) (path : Path) : FacadeM ObjectKind := do
  match (← get).cache.objectType? path with
  | some kind => return kind
  | none =>
    let status ← call (Link.stat session path)
    changeCache (·.putObjectType path status.kind)
    return status.kind

def userLevel (session : Session) (user : Principal) (path : Path) : FacadeM (Option Level) := do
  let profile ← userProfile session user.name
  let entries ← permissions session path
  return AccessList.levelOf? entries user.name profile.groups

def structural (path : Path) : FacadeM Bool := do
  return path.structural (← get).options.zone

def rememberAttributes (user : Principal) (handle : Handle) (path : Path) (status : Status)
    (structural : Bool) (level : Option Level) : FacadeM Attributes := do
  let f ← get
  let (uid, gid) := f.resolver.idsForName f.identities status.ownerName
  let attributes := Attributes.ofStatus handle status structural level uid gid
  changeCache (·.putAttributes user.name path attributes)
  return attributes

def fetchAttributes (session : Session) (user : Principal) (handle : Handle) (path : Path) :
    FacadeM Attributes := do
  let status ← call (Link.stat session path)
  changeCache (·.putObjectType path status.kind)
  let structural ← structural path
  let level ← if structural then pure none else userLevel session user path
  rememberAttributes user handle path status structural level

def look (admin : Account) (mountPoint : Path) : LinkM FacadeError Nat :=
  Link.during admin .ofStore fun session => do
    let status ← Link.failingAs .ofStore (Link.stat session mountPoint)
    if !status.kind.isCollection then throw (.notADirectory mountPoint.text)
    return status.objectId

def mount (link : Link) (identities : Identities) (resolver : Resolver) (allowList : AllowList)
    (options : Options) : Except FacadeError Facade × Link :=
  match look resolver.admin options.mountPoint link with
  | (.error e, link) => (.error e, link)
  | (.ok rootObjectId, link) =>
    match Registry.empty.establishRoot options.mountPoint with
    | .error e => (.error (.invariant e), link)
    | .ok registry =>
      (.ok { link, identities, resolver, allowList, options, rootObjectId, registry
             cache := Cache.new options.lifetimes }, link)

end Facade
end StoreMount
