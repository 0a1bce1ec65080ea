import StoreMount.Path
import StoreMount.Table

/-!
# The handle registry

Clients name objects by number, the store names them by path, and the registry keeps the two in
step. It holds one table for each direction: a path's place leads to the handle and the text the
pair was entered with, a handle leads to the path it stands for. Handle 1 is the root; handles
handed out are fresh, and a handle that was given up is not handed out again. A call that fails
returns no registry, so nothing has changed.
-/
namespace StoreMount

abbrev Handle := Nat

namespace Registry

def rootHandle : Handle := 1

def lastHandle : Handle := 18446744073709551615

inductive Error
  | alreadyMapped (handle : Handle) (existing : Path)
  | pathTaken (path : Path) (existing : Handle)
  | invalidMapping (handle : Handle) (path : Path)
  | moveIntoSelf (path : Path)
deriving DecidableEq, Repr

def Error.message : Error → String
  | .alreadyMapped handle existing => s!"handle {handle} is already mapped to {existing.text}"
  | .pathTaken path existing => s!"path {path.text} is already mapped to handle {existing}"
  | .invalidMapping handle path => s!"handle {handle} is not mapped to {path.text}"
  | .moveIntoSelf path => s!"cannot move {path.text} below itself"

end Registry

structure Registry where
  byPlace : Table Place (Path × Handle)
  byHandle : Table Handle Path
  next : Handle

namespace Registry

def empty : Registry := ⟨.empty, .empty, rootHandle + 1⟩

def pathOf? (r : Registry) (handle : Handle) : Option Path := r.byHandle.get? handle

def handleOf? (r : Registry) (path : Path) : Option Handle :=
  (r.byPlace.get? path.place).map Prod.snd

def size (r : Registry) : Nat := r.byHandle.size

def entries (r : Registry) : List (Handle × Path) :=
  r.byHandle.entries.mergeSort fun a b => decide (a.1 ≤ b.1)

/-- The first handle from a start that is not in use; one try more than there are handles is enough.
-/
def firstFree (used : Table Handle Path) : Nat → Handle → Handle
  | 0, handle => handle
  | tries + 1, handle => if used.contains handle then firstFree used tries (handle + 1) else handle

def allocate (r : Registry) : Handle × Registry :=
  let handle := firstFree r.byHandle (r.size + 1) r.next
  (handle, { r with next := handle + 1 })

def checkPair (r : Registry) (handle : Handle) (path : Path) : Except Error Unit :=
  match r.pathOf? handle with
  | some current => if current.place = path.place then .ok ()
      else .error (.invalidMapping handle path)
  | none => .error (.invalidMapping handle path)

def enterPlace (t : Table Place (Path × Handle)) (path : Path) (handle : Handle) :
    Table Place (Path × Handle) :=
  t.insert path.place (((t.get? path.place).map Prod.fst).getD path, handle)

/-- Bind a pair, the handle's side first. When the pair turns out to be refused, that side is put
back as it was. A pair that is bound to itself takes the new text on the handle's side. -/
def enter (r : Registry) (handle : Handle) (path : Path) : Except Error Unit × Registry :=
  let previous := r.pathOf? handle
  let entered : Registry := { r with byHandle := r.byHandle.insert handle path }
  match previous.filter fun existing => decide (existing.place ≠ path.place) with
  | some existing =>
    (.error (.alreadyMapped handle existing),
      { entered with byHandle := entered.byHandle.insert handle existing })
  | none =>
    match (entered.handleOf? path).filter fun owner => decide (owner ≠ handle) with
    | some owner =>
      (.error (.pathTaken path owner), { entered with
        byHandle := match previous with
          | some existing => entered.byHandle.insert handle existing
          | none => entered.byHandle.erase handle })
    | none =>
      (.ok (), { entered with
        byPlace := enterPlace entered.byPlace path handle
        next := max entered.next (min (handle + 1) lastHandle) })

def map (r : Registry) (handle : Handle) (path : Path) : Except Error Registry :=
  let (answer, entered) := r.enter handle path
  answer.map fun _ => entered

def establishRoot (r : Registry) (mountPoint : Path) : Except Error Registry :=
  r.map rootHandle mountPoint

/-- The second half of `handleFor`: it looks again, since another caller may have come between. -/
def assign (r : Registry) (path : Path) : Handle × Registry :=
  match r.handleOf? path with
  | some handle => (handle, r)
  | none =>
    let (handle, r) := r.allocate
    (handle, { r with
      byPlace := r.byPlace.insert path.place (path, handle)
      byHandle := r.byHandle.insert handle path })

def handleFor (r : Registry) (path : Path) : Handle × Registry :=
  match r.handleOf? path with
  | some handle => (handle, r)
  | none => r.assign path

def unmap (r : Registry) (handle : Handle) (path : Path) : Except Error Registry := do
  r.checkPair handle path
  return { r with byPlace := r.byPlace.erase path.place, byHandle := r.byHandle.erase handle }

def remap (r : Registry) (handle : Handle) (old new : Path) : Except Error Registry := do
  r.checkPair handle old
  match r.handleOf? new with
  | some existing => if existing ≠ handle then throw (.pathTaken new existing)
  | none => pure ()
  return { r with
    byPlace := (r.byPlace.erase old.place).insert new.place (new, handle)
    byHandle := r.byHandle.insert handle new }

def subtree (r : Registry) (top : Path) : List (Path × Handle) :=
  r.byPlace.values.filter fun e => e.1.within top

def removePairs (r : Registry) (pairs : List (Path × Handle)) : Registry :=
  pairs.foldl (fun r e => { r with
    byPlace := r.byPlace.erase e.1.place, byHandle := r.byHandle.erase e.2 }) r

def insertPairs (r : Registry) (pairs : List (Path × Handle)) : Registry :=
  pairs.foldl (fun r e => { r with
    byPlace := enterPlace r.byPlace e.1 e.2, byHandle := r.byHandle.insert e.2 e.1 }) r

def rebased (source target : Path) (pairs : List (Path × Handle)) : List (Path × Handle) :=
  pairs.map fun e => (e.1.rebase source target, e.2)

def obstacle? (r : Registry) (moving targets : List (Path × Handle)) : Option (Path × Handle) :=
  targets.findSome? fun e =>
    match r.handleOf? e.1 with
    | none => none
    | some existing => if moving.any fun m =>
      decide (m.2 = existing) then none else some (e.1, existing)

/-- Move a mapped pair and everything below it; nothing moves if one target is taken. -/
def remapTree (r : Registry) (handle : Handle) (old new : Path) : Except Error Registry := do
  if new.strictlyWithin old then throw (.moveIntoSelf old)
  r.checkPair handle old
  let moving := r.subtree old
  let targets := rebased old new moving
  match r.obstacle? moving targets with
  | some (path, existing) => throw (.pathTaken path existing)
  | none => return (r.removePairs moving).insertPairs targets

def checkMove (r : Registry) (source target : Path) : Except Error Unit := do
  if target.strictlyWithin source then throw (.moveIntoSelf source)
  match r.handleOf? source with
  | some handle => r.checkPair handle source
  | none => return ()

def movePair (source target : Path) (r : Registry) (e : Path × Handle) : Registry :=
  (r.removePairs [e]).insertPairs (rebased source target [e])

/-- Move what is mapped at or below a path, pair by pair, displacing what is mapped at or below the
target; the answer is the handle of the path itself, if it still had one. -/
def moveTree (r : Registry) (source target : Path) : Except Error (Option Handle × Registry) := do
  if target.strictlyWithin source then throw (.moveIntoSelf source)
  let cleared := r.removePairs (r.subtree target)
  return (cleared.handleOf? source, (cleared.subtree source).foldl (movePair source target) cleared)

end Registry
end StoreMount
