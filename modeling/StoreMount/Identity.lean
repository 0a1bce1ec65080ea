/-!
# Who the callers are

An identity source binds user numbers to names and primary groups, and group numbers to names.
Entering a binding removes those that it contradicts. Every change counts, so that equal marks of
modification mean equal bindings. A source that is down answers no question, but still shows its
marks.
-/
namespace StoreMount

structure Person where
  name : String
  uid : UInt32
  gid : UInt32
deriving DecidableEq, Repr, Inhabited

structure Group where
  name : String
  gid : UInt32
deriving DecidableEq, Repr, Inhabited

inductive IdentityError
  | lookup (reason : String)
deriving DecidableEq, Repr

def IdentityError.message : IdentityError → String
  | .lookup reason => s!"identity lookup failed: {reason}"

structure Identities where
  people : List Person
  groups : List Group
  changes : Nat
  down : Bool
deriving Repr

namespace Identities

def empty : Identities := ⟨[], [], 0, false⟩

def host : Identities := ⟨[⟨"root", 0, 0⟩], [⟨"root", 0⟩], 0, false⟩

def addUser (ids : Identities) (name : String) (uid gid : UInt32) : Identities :=
  { ids with
    people := (ids.people.filter fun p => decide (p.uid ≠ uid ∧ p.name ≠ name)) ++
      [⟨name, uid, gid⟩]
    changes := ids.changes + 1 }

def addGroup (ids : Identities) (name : String) (gid : UInt32) : Identities :=
  { ids with
    groups := (ids.groups.filter fun g => decide (g.gid ≠ gid ∧ g.name ≠ name)) ++ [⟨name, gid⟩]
    changes := ids.changes + 1 }

def removeUser (ids : Identities) (uid : UInt32) : Identities :=
  { ids with people := ids.people.filter fun p => decide (p.uid ≠ uid), changes := ids.changes + 1 }

def answer {α : Type} (ids : Identities) (found : Option α) : Except IdentityError (Option α) :=
  if ids.down then .error (.lookup "down") else .ok found

def userByUid (ids : Identities) (uid : UInt32) : Except IdentityError (Option Person) :=
  ids.answer (ids.people.find? fun p => decide (p.uid = uid))

def userByName (ids : Identities) (name : String) : Except IdentityError (Option Person) :=
  ids.answer (ids.people.find? fun p => decide (p.name = name))

def groupByName (ids : Identities) (name : String) : Except IdentityError (Option Group) :=
  ids.answer (ids.groups.find? fun g => decide (g.name = name))

def groupByGid (ids : Identities) (gid : UInt32) : Except IdentityError (Option Group) :=
  ids.answer (ids.groups.find? fun g => decide (g.gid = gid))

/-- Marks that differ whenever a binding may have changed. -/
def markers (ids : Identities) : List Nat := [ids.changes]

end Identities
end StoreMount
