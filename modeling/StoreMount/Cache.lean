import StoreMount.Account
import StoreMount.Facade.Attributes
import StoreMount.Table

/-!
# Caches in front of the store

Six tables remember what the store answered: attributes for a user and a path, access decisions for
a user number, a mask and a path, kinds and permission lists for a path, listings for a user and a
path, and profiles for a user. Each has a time to live; with none, nothing is ever found. Paths
count as keys by place.

Forgetting a path's attributes forgets every user's; forgetting a tree forgets attributes, kinds and
permission lists at and below its top. Decisions, listings and profiles only ever expire: a listing
carries the modification time it was made at, and it is for its reader to compare it.
-/
namespace StoreMount

structure Lifetimes where
  attributes : Nat
  access : Nat
  objectType : Nat
  permissions : Nat
  listing : Nat
  userType : Nat
deriving DecidableEq, Repr

def Lifetimes.default : Lifetimes := ⟨1000, 1000, 300000, 300000, 30000, 300000⟩

structure Listing where
  entries : List ListingEntry
  marker : Instant
deriving DecidableEq, Repr

structure UserProfile where
  type : UserType
  groups : List String
deriving DecidableEq, Repr

structure Stamped (α : Type) where
  value : α
  since : Nat
deriving Repr

structure Cache where
  lifetimes : Lifetimes
  now : Nat
  attributesFor : Table (String × Place) (Stamped Attributes)
  accessFor : Table (UInt32 × UInt32 × Place) (Stamped Decision)
  kindOf : Table Place (Stamped ObjectKind)
  permissionsOf : Table Place (Stamped (List PermissionEntry))
  listingFor : Table (String × Place) (Stamped Listing)
  profileOf : Table String (Stamped UserProfile)

namespace Cache

def new (lifetimes : Lifetimes) : Cache :=
  ⟨lifetimes, 0, .empty, .empty, .empty, .empty, .empty, .empty⟩

def sleep (c : Cache) (milliseconds : Nat) : Cache := { c with now := c.now + milliseconds }

def fresh {α : Type} (c : Cache) (lifetime : Nat) (found : Option (Stamped α)) : Option α :=
  found.bind fun s => if c.now < s.since + lifetime then some s.value else none

def stamp {α : Type} (c : Cache) (value : α) : Stamped α := ⟨value, c.now⟩

def attributes? (c : Cache) (user : String) (path : Path) : Option Attributes :=
  c.fresh c.lifetimes.attributes (c.attributesFor.get? (user, path.place))

def putAttributes (c : Cache) (user : String) (path : Path) (attributes : Attributes) : Cache :=
  { c with attributesFor := c.attributesFor.insert (user, path.place) (c.stamp attributes) }

def forgetAttributes (c : Cache) (path : Path) : Cache :=
  { c with attributesFor := c.attributesFor.filter fun k _ => decide (k.2 ≠ path.place) }

def forgetTree (c : Cache) (top : Path) : Cache :=
  let outside (p : Place) : Bool := !top.place.isPrefixOf p
  { c with
    attributesFor := c.attributesFor.filter fun k _ => outside k.2
    kindOf := c.kindOf.filter fun k _ => outside k
    permissionsOf := c.permissionsOf.filter fun k _ => outside k }

def access? (c : Cache) (uid : UInt32) (mask : Mask) (path : Path) : Option Decision :=
  c.fresh c.lifetimes.access (c.accessFor.get? (uid, mask.bits, path.place))

def putAccess (c : Cache) (uid : UInt32) (mask : Mask) (path : Path)
    (decision : Decision) : Cache :=
  { c with accessFor := c.accessFor.insert (uid, mask.bits, path.place) (c.stamp decision) }

def objectType? (c : Cache) (path : Path) : Option ObjectKind :=
  c.fresh c.lifetimes.objectType (c.kindOf.get? path.place)

def putObjectType (c : Cache) (path : Path) (kind : ObjectKind) : Cache :=
  { c with kindOf := c.kindOf.insert path.place (c.stamp kind) }

def permissions? (c : Cache) (path : Path) : Option (List PermissionEntry) :=
  c.fresh c.lifetimes.permissions (c.permissionsOf.get? path.place)

def putPermissions (c : Cache) (path : Path) (entries : List PermissionEntry) : Cache :=
  { c with permissionsOf := c.permissionsOf.insert path.place (c.stamp entries) }

def forgetPermissions (c : Cache) (path : Path) : Cache :=
  { c with permissionsOf := c.permissionsOf.erase path.place }

def listing? (c : Cache) (user : String) (path : Path) : Option Listing :=
  c.fresh c.lifetimes.listing (c.listingFor.get? (user, path.place))

def putListing (c : Cache) (user : String) (path : Path) (listing : Listing) : Cache :=
  { c with listingFor := c.listingFor.insert (user, path.place) (c.stamp listing) }

def userProfile? (c : Cache) (user : String) : Option UserProfile :=
  c.fresh c.lifetimes.userType (c.profileOf.get? user)

def putUserProfile (c : Cache) (user : String) (profile : UserProfile) : Cache :=
  { c with profileOf := c.profileOf.insert user (c.stamp profile) }

end Cache
end StoreMount
