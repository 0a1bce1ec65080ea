import StoreMount.Object
import StoreMount.Path
import StoreMount.Permission

/-!
# Access control entries of the protocol

The protocol speaks of rights as bits of a mask; the store knows three levels. A level stands for a
fixed set of bits, and a mask stands for the strongest level that one of its bits calls for. For
decisions each level allows a class of masks: the read class, the write class around it, and
everything for owners. Bits without a meaning are kept and are allowed to owners only.
-/
namespace StoreMount

structure Mask where
  bits : UInt32
deriving DecidableEq, Repr, Inhabited

namespace Mask

def union (a b : Mask) : Mask := ⟨a.bits ||| b.bits⟩
instance : Union Mask := ⟨union⟩

def isEmpty (m : Mask) : Bool := decide (m.bits = 0)

def contains (a b : Mask) : Bool := decide (b.bits &&& a.bits = b.bits)

def meets (a b : Mask) : Bool := decide (a.bits &&& b.bits ≠ 0)

def readData : Mask := ⟨0x1⟩
def writeData : Mask := ⟨0x2⟩
def appendData : Mask := ⟨0x4⟩
def readNamedAttrs : Mask := ⟨0x8⟩
def writeNamedAttrs : Mask := ⟨0x10⟩
def execute : Mask := ⟨0x20⟩
def deleteChild : Mask := ⟨0x40⟩
def readAttributes : Mask := ⟨0x80⟩
def writeAttributes : Mask := ⟨0x100⟩
def delete : Mask := ⟨0x10000⟩
def readAcl : Mask := ⟨0x20000⟩
def writeAcl : Mask := ⟨0x40000⟩
def writeOwner : Mask := ⟨0x80000⟩
def synchronize : Mask := ⟨0x100000⟩

def ofLevel : Level → Mask
  | .own => readData ∪ writeData ∪ appendData ∪ delete ∪ writeOwner
  | .write => readData ∪ writeData ∪ appendData
  | .read => readData

def level? (m : Mask) : Option Level :=
  if m.contains writeOwner then some .own
  else if m.meets (writeData ∪ appendData) then some .write
  else if m.contains readData then some .read
  else none

def readClass : Mask := readData ∪ readNamedAttrs ∪ execute ∪ readAttributes ∪ readAcl ∪ synchronize

def writeClass : Mask :=
  readClass ∪ writeData ∪ appendData ∪ writeNamedAttrs ∪ deleteChild ∪ writeAttributes ∪ delete

def attributeClass : Mask := readAttributes ∪ writeAttributes ∪ readAcl ∪ writeAcl

def traversalOnly (m : Mask) : Bool := !m.isEmpty && execute.contains m

def attributeOnly (m : Mask) : Bool := !m.isEmpty && attributeClass.contains m

theorem contains_iff {a b : Mask} : a.contains b = true ↔ b.bits &&& a.bits = b.bits := by
  simp [contains]

theorem contains_trans {a b c : Mask} (hab : a.contains b = true) (hbc : b.contains c = true) :
    a.contains c = true := by
  rw [contains_iff] at *
  calc c.bits &&& a.bits = (c.bits &&& b.bits) &&& a.bits := by rw [hbc]
    _ = c.bits &&& (b.bits &&& a.bits) := UInt32.and_assoc ..
    _ = c.bits := by rw [hab, hbc]

theorem level?_ofLevel (l : Level) : (ofLevel l).level? = some l := by cases l <;> decide

end Mask

inductive AceType
  | allow
  | deny
  | audit
  | alarm
deriving DecidableEq, Repr, Inhabited

structure AceFlags where
  bits : UInt32
deriving DecidableEq, Repr, Inhabited

namespace AceFlags

def none : AceFlags := ⟨0⟩
def identifierGroup : AceFlags := ⟨0x40⟩

end AceFlags

structure Ace where
  who : String
  type : AceType
  flags : AceFlags
  mask : Mask
deriving DecidableEq, Repr, Inhabited

def Ace.isGroup (a : Ace) : Bool :=
  decide (a.flags.bits &&& AceFlags.identifierGroup.bits = AceFlags.identifierGroup.bits)

def Ace.subjectKind (a : Ace) : SubjectKind := if a.isGroup then .group else .individual

inductive Decision
  | allow
  | deny
deriving DecidableEq, Repr, Inhabited

def Decision.allowed : Decision → Bool
  | .allow => true
  | .deny => false

def Decision.ofBool (b : Bool) : Decision := if b then .allow else .deny

def Level.decision (level : Option Level) (mask : Mask) : Decision :=
  match level with
  | some .own => .allow
  | some .write => .ofBool (Mask.writeClass.contains mask)
  | some .read => .ofBool (Mask.readClass.contains mask)
  | none => .deny

namespace Path

/-- The collections of a zone that exist for everybody: the root, the zone and its three standard
ones. -/
def zoneRoot (zone : String) : Path := slash.join ⟨zone⟩

def structural (p : Path) (zone : String) : Bool :=
  let root := zoneRoot zone
  [slash, root, root.child "home", root.child "public", root.child "trash"].any fun q =>
    decide (p.place = q.place)

end Path

/-- The mode shown for an object. Nothing is shown for other users; structural collections show full
access for the caller, data objects never show execution. -/
def modeOf (kind : ObjectKind) (structural : Bool) (level : Option Level) : UInt32 :=
  if structural || kind = .syntheticCollection then 0o040700
  else
    let bits : UInt32 := match level with
      | some .own | some .write => 0o600
      | some .read => 0o400
      | none => 0
    if kind.isCollection then 0o040100 ||| bits else 0o100000 ||| bits

structure AclChange where
  added : List PermissionEntry
  removed : List PermissionEntry
deriving DecidableEq, Repr

/-- What has to be granted and revoked to turn one list of entries into another. The owner's
own-level entries are not revoked, and an individual entry that would take the owner below own is
not granted. -/
def AclChange.between (current incoming : List PermissionEntry) (owner : String) : AclChange where
  removed := current.filter fun e =>
    !incoming.contains e && !decide (e.name = owner ∧ e.level = .own)
  added := incoming.filter fun e =>
    !current.contains e && !decide (e.name = owner ∧ e.kind = .individual ∧ e.level < .own)

end StoreMount
