import StoreMount.Facade.Access
import StoreMount.Facade.Data
import StoreMount.Facade.Tree

/-!
# Runs of a facade

All that a client can ask of a mounted collection, as data, and what happens when it asks one thing
after another and lets time pass in between. A call that fails leaves behind whatever it did until
then, and the run goes on from there.
-/
namespace StoreMount

inductive Operation
  | lookup (uid : UInt32) (parent : Handle) (name : String)
  | getattr (uid : UInt32) (handle : Handle)
  | setattr (uid : UInt32) (handle : Handle)
  | list (uid : UInt32) (directory : Handle) (cookie : Nat)
  | directoryVerifier (uid : UInt32) (directory : Handle)
  | create (uid : UInt32) (parent : Handle) (name : String) (type : Facade.FileType)
  | mkdir (uid : UInt32) (parent : Handle) (name : String)
  | remove (uid : UInt32) (parent : Handle) (name : String)
  | rename (uid : UInt32) (parent : Handle) (name : String) (toParent : Handle) (toName : String)
  | read (uid : UInt32) (handle : Handle) (offset count : Nat)
  | write (uid : UInt32) (handle : Handle) (offset : Nat) (bytes : List UInt8)
  | getAcl (uid : UInt32) (handle : Handle)
  | setAcl (uid : UInt32) (handle : Handle) (aces : List Ace)
  | checkAccess (uid : UInt32) (handle : Handle) (mask : Mask)
  | parentOf (handle : Handle)
  | commit (handle : Handle)
  | fsStat (handle : Handle)
  | hardLink
  | symlink
  | readlink

inductive Answer
  | done
  | handle (handle : Handle)
  | attributes (attributes : Attributes)
  | lines (lines : List Facade.DirEntry)
  | time (time : Instant)
  | bytes (bytes : List UInt8)
  | written (count : Nat) (stability : Facade.Stability)
  | aces (aces : List Ace)
  | decision (decision : Decision)
  | capacity (capacity : Facade.Capacity)
  | text (text : String)

namespace Facade

def perform : Operation → FacadeM Answer
  | .lookup uid parent name => return .handle (← lookup uid parent name)
  | .getattr uid handle => return .attributes (← getattr uid handle)
  | .setattr uid handle => return .attributes (← setattr uid handle)
  | .list uid directory cookie => return .lines (← list uid directory cookie)
  | .directoryVerifier uid directory => return .time (← directoryVerifier uid directory)
  | .create uid parent name type => return .handle (← create uid parent name type)
  | .mkdir uid parent name => return .handle (← mkdir uid parent name)
  | .remove uid parent name => do
    remove uid parent name
    return .done
  | .rename uid parent name toParent toName => do
    rename uid parent name toParent toName
    return .done
  | .read uid handle offset count => return .bytes (← read uid handle offset count)
  | .write uid handle offset bytes => do
    let (count, stability) ← write uid handle offset bytes
    return .written count stability
  | .getAcl uid handle => return .aces (← getAcl uid handle)
  | .setAcl uid handle aces => do
    setAcl uid handle aces
    return .done
  | .checkAccess uid handle mask => return .decision (← checkAccess uid handle mask)
  | .parentOf handle => return .handle (← parentOf handle)
  | .commit handle => do
    commit handle
    return .done
  | .fsStat handle => return .capacity (← fsStat handle)
  | .hardLink => return .handle (← hardLink)
  | .symlink => return .handle (← symlink)
  | .readlink => return .text (← readlink)

end Facade

inductive Move
  | ask (operation : Operation)
  | pause (milliseconds : Nat)

namespace Facade

/-- One step of a run; a pause has no answer. -/
def step (f : Facade) : Move → Option (Except FacadeError Answer) × Facade
  | .ask operation =>
    let (answer, f) := perform operation f
    (some answer, f)
  | .pause milliseconds => (none, { f with cache := f.cache.sleep milliseconds })

def run (f : Facade) (moves : List Move) : Facade := moves.foldl (fun f move => (f.step move).2) f

end Facade
end StoreMount
