import StoreMount.Resolver

/-!
# Resolving several numbers at once

A caller gives up its turn once, between asking for a connection and getting it, so callers for one
number can meet: the first one opens a slot and loads, the others queue for the slot. When the load
succeeds everybody in the queue gets its principal. When it fails, the slot is taken off the table,
the failing caller gets its error, and the slot passes to the first in the queue, who loads in turn.
A principal is remembered only if its slot is still on the table.

The callers of a small batch take turns in order, round after round. Those of a large one stand in a
line: a caller who is granted a slot goes to its end, and when nobody is left in it, those who wait
for a connection form the next line, the last one first.
-/
namespace StoreMount.Resolver

inductive Stage
  | starting
  | queued (slot : Nat)
  | granted (slot : Nat)
  | connecting (slot : Nat) (person : Person)
  | done (answer : Except FacadeError Principal)

def Stage.finished : Stage → Bool
  | .done _ => true
  | _ => false

def Stage.isGranted : Stage → Bool
  | .granted _ => true
  | _ => false

def Stage.isConnecting : Stage → Bool
  | .connecting .. => true
  | _ => false

structure Slot where
  principal : Option Principal
  queue : List Nat

structure Batch where
  resolver : Resolver
  link : Link
  slots : Table Nat Slot
  current : Table UInt32 Nat
  callers : List (UInt32 × Stage)

namespace Batch

def start (resolver : Resolver) (link : Link) (uids : List UInt32) : Batch :=
  ⟨resolver, link, .empty, .empty, uids.map (·, .starting)⟩

def setStage (b : Batch) (caller : Nat) (stage : Stage) : Batch :=
  { b with callers := b.callers.modify caller fun c => (c.1, stage) }

def fail (b : Batch) (caller : Nat) (uid : UInt32) (slot : Nat) (error : FacadeError) : Batch :=
  let b := b.setStage caller (.done (.error error))
  let b : Batch := match b.slots.get? slot with
    | some ⟨_, next :: queue⟩ =>
      { b with slots := b.slots.insert slot ⟨none, queue⟩ }.setStage next (.granted slot)
    | _ => b
  if b.current.get? uid = some slot then { b with current := b.current.erase uid } else b

def succeed (b : Batch) (caller : Nat) (uid : UInt32) (slot : Nat)
    (principal : Principal) : Batch :=
  let b := b.setStage caller (.done (.ok principal))
  let b := { b with slots := b.slots.insert slot ⟨some principal, []⟩ }
  if b.current.get? uid = some slot then
    { b with
      current := b.current.erase uid
      resolver := { b.resolver with known := b.resolver.known.insert uid principal } }
  else b

def beginLoad (b : Batch) (ids : Identities) (caller : Nat) (uid : UInt32) (slot : Nat) : Batch :=
  match identify ids uid with
  | .error e => b.fail caller uid slot e
  | .ok person =>
    match Link.announce (b.resolver.admin.actingAs person.name) b.link with
    | (.error e, link) => { b with link }.fail caller uid slot (loadError uid e)
    | (.ok (), link) => { b with link }.setStage caller (.connecting slot person)

def finishLoad (b : Batch) (caller : Nat) (uid : UInt32) (slot : Nat) (person : Person) : Batch :=
  match Link.enter (b.resolver.admin.actingAs person.name) b.link with
  | (.error e, link) => { b with link }.fail caller uid slot (loadError uid e)
  | (.ok session, link) =>
    let (answer, link) := confirm b.resolver.admin uid person session link
    let b := { b with link := link.close session }
    match answer with
    | .error e => b.fail caller uid slot e
    | .ok principal => b.succeed caller uid slot principal

def turn (b : Batch) (ids : Identities) (caller : Nat) : Batch :=
  match b.callers[caller]? with
  | none => b
  | some (uid, stage) =>
    match stage with
    | .done _ => b
    | .starting =>
      match b.resolver.known.get? uid with
      | some principal => b.setStage caller (.done (.ok principal))
      | none =>
        match b.current.get? uid with
        | some slot =>
          { b with
            slots := b.slots.adjust slot fun s => { s with queue := s.queue ++ [caller] } }.setStage
            caller (.queued slot)
        | none =>
          let slot := b.slots.size
          { b with
            slots := b.slots.insert slot ⟨none, []⟩
            current := b.current.insert uid slot }.beginLoad ids caller uid slot
    | .queued slot =>
      match (b.slots.get? slot).bind Slot.principal with
      | some principal => b.setStage caller (.done (.ok principal))
      | none => b
    | .granted slot => b.beginLoad ids caller uid slot
    | .connecting slot person => b.finishLoad caller uid slot person

def round (b : Batch) (ids : Identities) : Batch :=
  (List.range b.callers.length).foldl (fun b caller => b.turn ids caller) b

def rounds (ids : Identities) : Nat → Batch → Batch
  | 0, b => b
  | n + 1, b => if b.callers.all fun c => c.2.finished then b else rounds ids n (b.round ids)

def smallSize : Nat := 30

def callersAt (b : Batch) (p : Stage → Bool) : List Nat :=
  b.callers.zipIdx.filterMap fun (c, caller) => if p c.2 then some caller else none

/-- Serve a line to its end, with those who wait for a connection kept aside, and then the next
line. -/
def serve (ids : Identities) : Nat → List Nat → List Nat → Batch → Batch
  | 0, _, _, b => b
  | _ + 1, [], [], b => b
  | n + 1, [], w :: waiting, b => serve ids n (w :: waiting) [] b
  | n + 1, caller :: line, waiting, b =>
    let b := b.turn ids caller
    let granted := (b.callersAt Stage.isGranted).filter fun c => !line.contains c
    let waiting :=
      if (b.callersAt Stage.isConnecting).contains caller then caller :: waiting else waiting
    serve ids n (line ++ granted) waiting b

/-- A caller takes at most two rounds, or three turns and a new line, from the moment it holds a
slot. Those who were left in a queue when their principal came are answered in a last round. -/
def settle (b : Batch) (ids : Identities) : Batch :=
  let size := b.callers.length
  if size ≤ smallSize then rounds ids (2 * size + 2) b
  else (serve ids (4 * size + 1) (List.range size) [] b).round ids

def answers (b : Batch) : List (Except FacadeError Principal) :=
  b.callers.map fun c => match c.2 with
    | .done answer => answer
    | _ => .error (.unknownPrincipal c.1)

end Batch

def resolveTogether (r : Resolver) (ids : Identities) (uids : List UInt32) (l : Link) :
    List (Except FacadeError Principal) × Resolver × Link :=
  let b := (Batch.start r l uids).settle ids
  (b.answers, b.resolver, b.link)

def resolveInTurn (ids : Identities) :
    List UInt32 → Resolver → Link → List (Except FacadeError Principal) × Resolver × Link
  | [], r, l => ([], r, l)
  | uid :: uids, r, l =>
    let (answer, r, l) := r.resolve ids uid l
    let (answers, r, l) := resolveInTurn ids uids r l
    (answer :: answers, r, l)

end StoreMount.Resolver
