import StoreMount.Path
import StoreMount.Table

/-!
# The local disk

Directories and text files, addressed by paths that are walked piece by piece: unlike in the store,
a double dot goes up, every piece that is left behind has to be a directory, and a slash or dot at
the end asks for a directory. A relative path starts at the top, which is always a directory. A path
that is too long or holds a zero leads nowhere. Nothing here removes a directory, and a file is only
ever put into a directory that is there.
-/
namespace StoreMount

inductive Disk.Node
  | directory
  | file (text : String)
deriving DecidableEq, Repr

/-- Where something is: the names on the way down from the top. -/
abbrev Disk.Location := List RawText

structure Disk where
  nodes : Table Disk.Location Disk.Node

namespace Disk
open Spelling (dot separator)

inductive Trouble
  | missing
  | notDirectory
  | isDirectory
  | taken
  | badName
deriving DecidableEq, Repr

def empty : Disk := ⟨.empty⟩

def node? (d : Disk) : Location → Option Node
  | [] => some .directory
  | names => d.nodes.get? names

def put (d : Disk) (here : Location) (node : Node) : Disk := ⟨d.nodes.insert here node⟩

def nameAllowed (name : RawText) : Bool := decide (name.bytes.length ≤ 255)

/-- How many bytes a path may have: all that are below 4096, less ten for the place where the disk
hangs. -/
def longestPath : Nat := 4085

def pathAllowed (p : Path) : Bool :=
  decide (p.bytes.length ≤ longestPath) && !p.bytes.contains 0

def step (d : Disk) (here : Location) (piece : List UInt8) : Except Trouble Location :=
  if piece = [] then .ok here
  else
    match d.node? here with
    | none => .error .missing
    | some (.file _) => .error .notDirectory
    | some .directory =>
      if piece = [dot] then .ok here
      else if piece = [dot, dot] then .ok here.dropLast
      else if nameAllowed ⟨piece⟩ then .ok (here ++ [⟨piece⟩])
      else .error .badName

def locate (d : Disk) (p : Path) : Except Trouble Location :=
  if p.bytes = [] then .error .missing
  else if !pathAllowed p then .error .badName
  else (Spelling.pieces p.bytes).foldlM d.step []

def asksDirectory (p : Path) : Bool := decide (p.bytes.getLast? = some separator)

def find (d : Disk) (p : Path) : Except Trouble (Location × Node) := do
  let here ← d.locate p
  match d.node? here with
  | none => .error .missing
  | some .directory => .ok (here, .directory)
  | some (.file text) => if asksDirectory p then .error .notDirectory else .ok (here, .file text)

def holds (d : Disk) (p : Path) : Bool := (d.find p).isOk

def holdsDirectory (d : Disk) (p : Path) : Bool :=
  match d.find p with
  | .ok (_, .directory) => true
  | _ => false

def readText (d : Disk) (p : Path) : Except Trouble String := do
  match ← d.find p with
  | (_, .file text) => .ok text
  | (_, .directory) => .error .isDirectory

def writeText (d : Disk) (p : Path) (text : String) : Except Trouble Disk := do
  let here ← d.locate p
  if asksDirectory p || decide (d.node? here = some .directory) then .error .isDirectory
  else .ok (d.put here (.file text))

def removeFile (d : Disk) (p : Path) : Except Trouble Disk := do
  match ← d.find p with
  | (here, .file _) => .ok ⟨d.nodes.erase here⟩
  | (_, .directory) => .error .isDirectory

def makeDirectory (d : Disk) (p : Path) : Except Trouble Disk := do
  let here ← d.locate p
  if (d.node? here).isSome then .error .taken else .ok (d.put here .directory)

/-- Make the first of a path and its ancestors, after those that are missing above it. -/
def makeChain (d : Disk) : List Path → Except Trouble Disk
  | [] => .ok d
  | p :: above =>
    let settle (d : Disk) (e : Trouble) : Except Trouble Disk :=
      if d.holdsDirectory p then .ok d else .error e
    if p.bytes = [] then .ok d
    else
      match d.makeDirectory p with
      | .ok d => .ok d
      | .error .missing => do
        let d ← d.makeChain above
        match d.makeDirectory p with
        | .ok d => .ok d
        | .error e => settle d e
      | .error e => settle d e

def makeDirectories (d : Disk) (p : Path) : Except Trouble Disk := d.makeChain p.ancestors

/-! ## After a change -/

theorem node?_put_self (d : Disk) {here : Location} (h : here ≠ []) (node : Node) :
    (d.put here node).node? here = some node := by
  cases here with
  | nil => exact absurd rfl h
  | cons n ns => simp [node?, put]

theorem node?_put_ne (d : Disk) {here other : Location} (h : other ≠ here) (node : Node) :
    (d.put here node).node? other = d.node? other := by
  cases other with
  | nil => rfl
  | cons n ns => simp [node?, put, Table.get?_insert_ne _ h]

end Disk
end StoreMount
