/-!
# Objects as callers see them

What a path refers to, what a status call reports about it, and one line of a listing. Times are
instants of the store's clock, which moves on by at least one with each change.
-/
namespace StoreMount

abbrev Instant := Nat

inductive ObjectKind
  | collection
  | dataObject
  /-- A collection that is reported without an entry of its own. -/
  | syntheticCollection
deriving DecidableEq, Repr, Inhabited

def ObjectKind.isCollection : ObjectKind → Bool
  | .collection | .syntheticCollection => true
  | .dataObject => false

structure Status where
  kind : ObjectKind
  size : Nat
  ownerName : String
  ownerZone : String
  createdAt : Instant
  modifiedAt : Instant
  objectId : Nat
deriving DecidableEq, Repr

structure ListingEntry where
  name : String
  kind : ObjectKind
deriving DecidableEq, Repr

end StoreMount
