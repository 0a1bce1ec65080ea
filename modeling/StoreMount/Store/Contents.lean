/-!
# The bytes of a data object

Contents are a row of extents: bytes that were written, and holes that read as zero. The view is the
plain list of bytes, `toList`. Writing puts the data over what was there: the object grows to reach
the end of the data, and what it grows by is zero. Reading takes the part of the asked range that
exists.
-/
namespace StoreMount

inductive Extent
  | data (bytes : List UInt8)
  | hole (length : Nat)
deriving DecidableEq, Repr

namespace Extent

def length : Extent → Nat
  | .data bytes => bytes.length
  | .hole n => n

def toList : Extent → List UInt8
  | .data bytes => bytes
  | .hole n => List.replicate n 0

def take (n : Nat) : Extent → Extent
  | .data bytes => .data (bytes.take n)
  | .hole m => .hole (min n m)

def drop (n : Nat) : Extent → Extent
  | .data bytes => .data (bytes.drop n)
  | .hole m => .hole (m - n)

@[simp] theorem length_toList (e : Extent) : e.toList.length = e.length := by
  cases e <;> simp [toList, length]

theorem toList_take (n : Nat) (e : Extent) : (e.take n).toList = e.toList.take n := by
  cases e <;> simp [toList, take]

theorem toList_drop (n : Nat) (e : Extent) : (e.drop n).toList = e.toList.drop n := by
  cases e <;> simp [toList, drop]

end Extent

structure Contents where
  extents : List Extent
deriving DecidableEq, Repr, Inhabited

namespace Contents

def empty : Contents := ⟨[]⟩

def ofList (bytes : List UInt8) : Contents := ⟨[.data bytes]⟩

def toList (c : Contents) : List UInt8 := c.extents.flatMap Extent.toList

def extentsLength : List Extent → Nat
  | [] => 0
  | e :: es => e.length + extentsLength es

def size (c : Contents) : Nat := extentsLength c.extents

def takeExtents : Nat → List Extent → List Extent
  | _, [] => []
  | n, e :: es => if e.length ≤ n then e :: takeExtents (n - e.length) es else [e.take n]

def dropExtents : Nat → List Extent → List Extent
  | _, [] => []
  | n, e :: es => if e.length ≤ n then dropExtents (n - e.length) es else e.drop n :: es

def take (c : Contents) (n : Nat) : Contents := ⟨takeExtents n c.extents⟩

def drop (c : Contents) (n : Nat) : Contents := ⟨dropExtents n c.extents⟩

def padTo (c : Contents) (n : Nat) : Contents :=
  if c.size < n then ⟨c.extents ++ [.hole (n - c.size)]⟩ else c

def write (c : Contents) (offset : Nat) (bytes : List UInt8) : Contents :=
  ⟨((c.padTo offset).take offset).extents ++
      .data bytes :: (c.drop (offset + bytes.length)).extents⟩

def read (c : Contents) (offset count : Nat) : List UInt8 := ((c.drop offset).take count).toList

@[simp] theorem length_toList (c : Contents) : c.toList.length = c.size := by
  obtain ⟨es⟩ := c
  induction es with
  | nil => rfl
  | cons e es ih => simp_all [toList, size, extentsLength]

theorem toList_takeExtents (n : Nat) (es : List Extent) :
    (takeExtents n es).flatMap Extent.toList = (es.flatMap Extent.toList).take n := by
  induction es generalizing n with
  | nil => simp [takeExtents]
  | cons e es ih =>
    simp only [takeExtents, List.flatMap_cons, List.take_append, Extent.length_toList]
    split
    · next h => simp [ih, List.take_of_length_le, h]
    · next h =>
      have : n - e.length = 0 := by omega
      simp [this, Extent.toList_take]

theorem toList_dropExtents (n : Nat) (es : List Extent) :
    (dropExtents n es).flatMap Extent.toList = (es.flatMap Extent.toList).drop n := by
  induction es generalizing n with
  | nil => simp [dropExtents]
  | cons e es ih =>
    simp only [dropExtents, List.flatMap_cons, List.drop_append, Extent.length_toList]
    split
    · next h => simp [ih, List.drop_eq_nil_of_le, h]
    · next h =>
      have : n - e.length = 0 := by omega
      simp [this, Extent.toList_drop]

@[simp] theorem toList_take (c : Contents) (n : Nat) : (c.take n).toList = c.toList.take n :=
  toList_takeExtents n c.extents

@[simp] theorem toList_drop (c : Contents) (n : Nat) : (c.drop n).toList = c.toList.drop n :=
  toList_dropExtents n c.extents

@[simp] theorem toList_padTo (c : Contents) (n : Nat) :
    (c.padTo n).toList = c.toList ++ List.replicate (n - c.size) 0 := by
  unfold padTo
  split
  · simp [toList, Extent.toList]
  · next h =>
    have : n - c.size = 0 := by omega
    simp [this]

@[simp] theorem toList_empty : empty.toList = [] := rfl
@[simp] theorem toList_ofList (bytes : List UInt8) : (ofList bytes).toList = bytes := by
  simp [ofList, toList, Extent.toList]

theorem toList_write (c : Contents) (offset : Nat) (bytes : List UInt8) :
    (c.write offset bytes).toList =
      (c.toList ++ List.replicate (offset - c.size) 0).take offset ++ bytes
        ++ c.toList.drop (offset + bytes.length) := by
  have h := toList_take (c.padTo offset) offset
  have h' := toList_drop c (offset + bytes.length)
  rw [toList_padTo] at h
  simp only [toList] at h h' ⊢
  simp only [write, List.flatMap_append, List.flatMap_cons, Extent.toList, h, h', List.append_assoc]

theorem read_eq (c : Contents) (offset count : Nat) :
    c.read offset count = (c.toList.drop offset).take count := by simp [read]

end Contents
end StoreMount
