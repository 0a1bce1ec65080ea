import StoreMount.Ace
import StoreMount.Registry

/-!
# File attributes
-/
namespace StoreMount

structure Attributes where
  handle : Handle
  kind : ObjectKind
  mode : UInt32
  linkCount : Nat
  uid : UInt32
  gid : UInt32
  size : Nat
  accessedAt : Instant
  modifiedAt : Instant
  changedAt : Instant
deriving DecidableEq, Repr

/-- What an object looks like to a caller who holds a level on it. The store keeps one modification
time, which also stands for the last access, and a creation time, which stands for the last change.
-/
def Attributes.ofStatus (handle : Handle) (status : Status) (structural : Bool)
    (level : Option Level) (uid gid : UInt32) : Attributes where
  handle := handle
  kind := status.kind
  mode := modeOf status.kind structural level
  linkCount := if status.kind.isCollection then 2 else 1
  uid := uid
  gid := gid
  size := status.size
  accessedAt := status.modifiedAt
  modifiedAt := status.modifiedAt
  changedAt := status.createdAt

end StoreMount
