import StoreMount.Facade.Basic

/-!
# File data

Reads and writes go straight to the store, so whatever a client asks for, a write that has answered
is on file, and there is never anything to flush.
-/
namespace StoreMount.Facade

inductive Stability
  | unstable
  | dataSync
  | fileSync
deriving DecidableEq, Repr

structure Capacity where
  totalBytes : Nat
  freeBytes : Nat
  availableBytes : Nat
  totalFiles : Nat
  freeFiles : Nat
  availableFiles : Nat
deriving DecidableEq, Repr

/-- The store has no quota, so a large round figure stands for each. -/
def capacity : Capacity where
  totalBytes := 1125899906842624
  freeBytes := 1125899906842624
  availableBytes := 1125899906842624
  totalFiles := 4294967295
  freeFiles := 4294967295
  availableFiles := 4294967295

def read (uid : UInt32) (handle : Handle) (offset count : Nat) : FacadeM (List UInt8) := do
  let user ← resolve uid
  let path ← pathOf handle
  during user.account fun session => call (Link.read session path offset count)

def write (uid : UInt32) (handle : Handle) (offset : Nat) (bytes : List UInt8) :
    FacadeM (Nat × Stability) := do
  let user ← resolve uid
  let path ← pathOf handle
  let written ← during user.account fun session => call (Link.write session path offset bytes)
  changeCache (·.forgetAttributes path)
  return (written, .fileSync)

def commit (handle : Handle) : FacadeM Unit := do
  let _ ← pathOf handle

def fsStat (handle : Handle) : FacadeM Capacity := do
  let _ ← pathOf handle
  return capacity

end StoreMount.Facade
