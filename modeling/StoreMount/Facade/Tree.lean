import StoreMount.Facade.Basic

/-!
# Looking around and changing the tree

Operations that walk the tree of handles and those that create, remove and move what is in it.
Listing hands out handles for the children it shows; moving keeps the handles of what moved, and
what is removed gives up its handle.
-/
namespace StoreMount.Facade

inductive FileType
  | regular
  | directory
  | symlink
  | blockDevice
  | charDevice
  | socket
  | fifo
deriving DecidableEq, Repr

structure DirEntry where
  name : String
  handle : Handle
  cookie : Nat
  attributes : Attributes
deriving DecidableEq, Repr

def firstCookie : Nat := 3

def parentOf (handle : Handle) : FacadeM Handle := do
  let path ← pathOf handle
  if handle = Registry.rootHandle ∨ path.place = (← get).options.mountPoint.place then
    return Registry.rootHandle
  match path.parent? with
  | some parent => handleFor parent
  | none => return Registry.rootHandle

def lookup (uid : UInt32) (parent : Handle) (name : String) : FacadeM Handle := do
  if name = "." then
    let _ ← pathOf parent
    return parent
  if name = ".." then return ← parentOf parent
  let user ← resolve uid
  let path ← childPath parent name
  during user.account fun session => do
    let status ← call (Link.stat session path)
    changeCache (·.putObjectType path status.kind)
    handleFor path

def getattr (uid : UInt32) (handle : Handle) : FacadeM Attributes := do
  let user ← resolve uid
  let path ← pathOf handle
  match (← get).cache.attributes? user.name path with
  | some attributes => return attributes
  | none => during user.account fun session => fetchAttributes session user handle path

/-- Requested changes are not forwarded; the answer is what the object has. -/
def setattr (uid : UInt32) (handle : Handle) : FacadeM Attributes := do
  let _ ← pathOf handle
  getattr uid handle

def currentListing (session : Session) (user : Principal) (path : Path) (status : Status) :
    FacadeM Listing := do
  match ((← get).cache.listing? user.name path).filter fun l =>
    decide (l.marker = status.modifiedAt) with
  | some listing => return listing
  | none =>
    let entries ← call (Link.list session path)
    let listing : Listing := ⟨entries, status.modifiedAt⟩
    changeCache (·.putListing user.name path listing)
    return listing

def listAttributes (session : Session) (user : Principal) (child : Path) (cookie : Nat)
    (name : String) (handle : Handle) :
    FacadeM (Option DirEntry) := do
  match (← get).cache.attributes? user.name child with
  | some attributes => return some ⟨name, handle, cookie, attributes⟩
  | none =>
    tryCatch (do
      let attributes ← fetchAttributes session user handle child
      return some ⟨name, handle, cookie, attributes⟩)
      fun
        | .notFound _ => return none
        | e => throw e

def listEntry (session : Session) (user : Principal) (path : Path) (cookie : Nat)
    (entry : ListingEntry) :
    FacadeM (Option DirEntry) := do
  let child := path.child entry.name
  let handle ← handleFor child
  changeCache (·.putObjectType child entry.kind)
  listAttributes session user child cookie entry.name handle

def listEntries (session : Session) (user : Principal) (path : Path) (after : Nat) :
    Nat → List ListingEntry → FacadeM (List DirEntry)
  | _, [] => return []
  | cookie, entry :: rest => do
    let line ← if cookie ≤ after then pure none else listEntry session user path cookie entry
    let lines ← listEntries session user path after (cookie + 1) rest
    return line.toList ++ lines

def list (uid : UInt32) (directory : Handle) (cookie : Nat) : FacadeM (List DirEntry) := do
  let user ← resolve uid
  let path ← pathOf directory
  during user.account fun session => do
    let status ← call (Link.stat session path)
    if !status.kind.isCollection then throw (.notADirectory path.text)
    let listing ← currentListing session user path status
    listEntries session user path cookie firstCookie listing.entries

def directoryVerifier (uid : UInt32) (directory : Handle) : FacadeM Instant := do
  let user ← resolve uid
  let path ← pathOf directory
  during user.account fun session => do
    let status ← call (Link.stat session path)
    return status.modifiedAt

def create (uid : UInt32) (parent : Handle) (name : String) (type : FileType) : FacadeM Handle := do
  if type ≠ .regular then throw (.unsupported "only regular files can be created")
  let user ← resolve uid
  let path ← childPath parent name
  let overwrite := (← get).options.allowOverwrite
  during user.account fun session => call (Link.createDataObject session path overwrite)
  changeCache (·.putObjectType path .dataObject)
  changeCache (·.forgetAttributes path)
  handleFor path

def mkdir (uid : UInt32) (parent : Handle) (name : String) : FacadeM Handle := do
  let user ← resolve uid
  let path ← childPath parent name
  during user.account fun session => call (Link.createCollection session path)
  changeCache (·.putObjectType path .collection)
  changeCache (·.forgetAttributes path)
  handleFor path

def remove (uid : UInt32) (parent : Handle) (name : String) : FacadeM Unit := do
  let user ← resolve uid
  let path ← childPath parent name
  during user.account fun session => call (Link.remove session path)
  changeCache (·.forgetTree path)
  changeRegistry fun r =>
    match r.handleOf? path with
    | some handle => r.unmap handle path
    | none => .ok r

/-- The registry is asked before the store whether it can follow the move. -/
def rename (uid : UInt32) (parent : Handle) (name : String) (toParent : Handle) (toName : String) :
    FacadeM Unit := do
  let user ← resolve uid
  let source ← childPath parent name
  let target ← childPath toParent toName
  if source.place = target.place then return ()
  changeRegistry fun r => (r.checkMove source target).map fun _ => r
  during user.account fun session => call (Link.rename session source target)
  changeCache (·.forgetTree source)
  changeCache (·.forgetTree target)
  changeRegistry fun r => (r.moveTree source target).map Prod.snd

def hardLink : FacadeM Handle := throw (.unsupported "hard links")

def symlink : FacadeM Handle := throw (.unsupported "symbolic links")

def readlink : FacadeM String := throw (.unsupported "symbolic links")

end StoreMount.Facade
