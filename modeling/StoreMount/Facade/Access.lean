import StoreMount.Facade.Basic

/-!
# Access lists and access decisions

Administrators and accounts on the allow-list change access lists with the proxy administrator's
authority, everybody else with their own. Entries of the new list that the store cannot represent
are dropped, and the empty list changes nothing.

A decision takes short cuts first: structural collections are open, every collection can be passed
through, and administrators and allow-listed accounts may look at and change attributes and access
lists. All else is decided by the level that the caller holds.
-/
namespace StoreMount.Facade

def getAcl (uid : UInt32) (handle : Handle) : FacadeM (List Ace) := do
  let user ← resolve uid
  let path ← pathOf handle
  during user.account fun session => do
    let entries ← permissions session path
    let f ← get
    return entries.map (AclExchange.toAce f.resolver f.identities)

def allowListed (user : Principal) (profile : UserProfile) (path : Path) : FacadeM Bool := do
  return (← get).allowList.allows user.name profile.groups path

def applyChange (session : Session) (path : Path) (change : AclChange) : FacadeM Unit := do
  change.removed.forM fun entry => call (Link.revoke session path entry)
  change.added.forM fun entry => call (Link.grant session path entry)

def replaceAcl (session : Session) (path : Path) (aces : List Ace) : FacadeM Unit := do
  let status ← call (Link.stat session path)
  let current ← call (Link.permissions session path)
  let f ← get
  let incoming ← call (AclExchange.toEntries f.resolver f.identities session aces)
  applyChange session path (.between current incoming status.ownerName)
  changeCache (·.forgetPermissions path)
  changeCache (·.forgetAttributes path)

def setAcl (uid : UInt32) (handle : Handle) (aces : List Ace) : FacadeM Unit := do
  if aces.isEmpty then return ()
  let user ← resolve uid
  let path ← pathOf handle
  during user.account fun session => do
    let profile ← userProfile session user.name
    let privileged := profile.type = .admin || (← allowListed user profile path)
    let admin := (← get).resolver.admin
    if privileged && user.account.clientUser ≠ admin.clientUser then
      during admin fun adminSession => replaceAcl adminSession path aces
    else replaceAcl session path aces

def mayEditAttributes (session : Session) (user : Principal) (path : Path) : FacadeM Bool := do
  let profile ← userProfile session user.name
  if profile.type = .admin then return true
  allowListed user profile path

def decideAccess (user : Principal) (path : Path) (mask : Mask) : FacadeM Decision := do
  if ← structural path then return .allow
  during user.account fun session => do
    let kind ← objectKind session path
    if kind.isCollection && mask.traversalOnly then return .allow
    if mask.attributeOnly then
      if ← mayEditAttributes session user path then return .allow
    let level ← userLevel session user path
    return Level.decision level mask

def checkAccess (uid : UInt32) (handle : Handle) (mask : Mask) : FacadeM Decision := do
  let user ← resolve uid
  let path ← pathOf handle
  match (← get).cache.access? user.uid mask path with
  | some decision => return decision
  | none =>
    let decision ← decideAccess user path mask
    changeCache (·.putAccess user.uid mask path decision)
    return decision

end StoreMount.Facade
