import StoreMount.Store.Basic

/-!
# Contents as an overlay

Writing lays a patch over the bytes of an object. After any number of patches a byte is the one that
the last patch put there that covers its position; where none does it is the old one, and zero where
there was none. So patches that cover no position together can be laid in either order. The store
works out ends and ranges in words of 64 bits, which may wrap; it checks or saturates each sum, and
comes to what the sums of natural numbers come to.
-/
namespace StoreMount

/-- Bytes that are put over others, from a position on. -/
structure Patch where
  offset : Nat
  bytes : List UInt8

namespace Patch

variable {p q : Patch} {ps : List Patch} {i : Nat}

def stop (p : Patch) : Nat := p.offset + p.bytes.length

def Fits (p : Patch) : Prop := p.stop ≤ Store.maxObjectSize

instance (p : Patch) : Decidable p.Fits :=
  inferInstanceAs (Decidable (p.stop ≤ Store.maxObjectSize))

def Covers (p : Patch) (i : Nat) : Prop := p.offset ≤ i ∧ i < p.stop

def Apart (p q : Patch) : Prop := ∀ i, p.Covers i → ¬q.Covers i

def byte? (p : Patch) (i : Nat) : Option UInt8 :=
  if p.offset ≤ i then p.bytes[i - p.offset]? else none

theorem byte?_eq_none_iff : p.byte? i = none ↔ ¬p.Covers i := by
  unfold byte? Covers stop
  split
  · rw [List.getElem?_eq_none_iff]
    omega
  · exact iff_of_true rfl (by omega)

theorem byte?_add (p : Patch) (j : Nat) : p.byte? (p.offset + j) = p.bytes[j]? := by
  rw [byte?, if_pos (Nat.le_add_right ..), Nat.add_sub_cancel_left]

def last? (ps : List Patch) (i : Nat) : Option UInt8 := ps.reverse.findSome? (·.byte? i)

theorem last?_cons : last? (p :: ps) i = (last? ps i).or (p.byte? i) := by
  simp only [last?, List.reverse_cons, List.findSome?_append, List.findSome?_cons,
    List.findSome?_nil]
  cases p.byte? i <;> rfl

def reach (ps : List Patch) : Nat := ps.foldr (fun p n => max p.stop n) 0

end Patch

/-- What is there after a patch has been laid over what was there before. -/
structure Overlaid (before : List UInt8) (p : Patch) (after : List UInt8) : Prop where
  length : after.length = max before.length p.stop
  put : ∀ j, j < p.bytes.length → after[p.offset + j]? = p.bytes[j]?
  kept : ∀ i, i < before.length → ¬p.Covers i → after[i]? = before[i]?
  filled : ∀ i, before.length ≤ i → i < after.length → ¬p.Covers i → after[i]? = some 0

def zeroBelow (limit i : Nat) : Option UInt8 := if i < limit then some 0 else none

theorem zeroBelow_or (m n i : Nat) :
    (zeroBelow m i).or (zeroBelow n i) = zeroBelow (max m n) i := by
  unfold zeroBelow
  by_cases hm : i < m
  · rw [if_pos hm, if_pos (show i < max m n by omega), Option.some_or]
  · rw [if_neg hm, Option.none_or]
    by_cases hn : i < n
    · rw [if_pos hn, if_pos (show i < max m n by omega)]
    · rw [if_neg hn, if_neg (show ¬i < max m n by omega)]

namespace Contents

variable {c : Contents} {p q : Patch} {i : Nat}

theorem length_write (c : Contents) (p : Patch) :
    (c.write p.offset p.bytes).toList.length = max c.toList.length p.stop := by
  rw [toList_write]
  simp only [List.length_append, List.length_take, List.length_drop, List.length_replicate,
    length_toList, Patch.stop]
  omega

theorem getElem?_write (c : Contents) (p : Patch) (i : Nat) :
    (c.write p.offset p.bytes).toList[i]? =
      (p.byte? i).or (c.toList[i]?.or (zeroBelow p.stop i)) := by
  rw [toList_write, ← length_toList]
  generalize c.toList = l
  have hhead : ((l ++ List.replicate (p.offset - l.length) 0).take p.offset).length = p.offset := by
    rw [List.length_take, List.length_append, List.length_replicate]
    omega
  by_cases hbefore : i < p.offset
  · -- in front of the patch
    have hnone : p.byte? i = none := if_neg (Nat.not_le.2 hbefore)
    rw [hnone, Option.none_or, List.append_assoc, List.getElem?_append_left (hhead.symm ▸ hbefore),
      List.getElem?_take_of_lt hbefore, List.getElem?_append]
    split
    · next h => rw [List.getElem?_eq_getElem h, Option.some_or]
    · next h =>
      rw [List.getElem?_eq_none (Nat.not_lt.1 h), Option.none_or,
        List.getElem?_replicate_of_lt (by omega)]
      exact (if_pos (Nat.lt_add_right _ hbefore)).symm
  · have hle : p.offset ≤ i := Nat.not_lt.1 hbefore
    rw [List.append_assoc, List.getElem?_append_right (hhead.symm ▸ hle), hhead, Patch.byte?,
      if_pos hle]
    by_cases hin : i < p.stop
    · have hin : i - p.offset < p.bytes.length := by
        unfold Patch.stop at hin
        omega
      rw [List.getElem?_append_left hin, List.getElem?_eq_getElem hin, Option.some_or]
    · have hbehind : p.bytes.length ≤ i - p.offset := by
        unfold Patch.stop at hin
        omega
      have hplace : p.offset + p.bytes.length + (i - p.offset - p.bytes.length) = i := by omega
      rw [List.getElem?_append_right hbehind, List.getElem?_eq_none hbehind, Option.none_or,
        List.getElem?_drop, hplace, zeroBelow, if_neg hin, Option.or_none]

theorem overlaid_write (c : Contents) (p : Patch) :
    Overlaid c.toList p (c.write p.offset p.bytes).toList where
  length := length_write c p
  put j hj := by rw [getElem?_write, Patch.byte?_add, List.getElem?_eq_getElem hj, Option.some_or]
  kept i hi hp := by
    rw [getElem?_write, Patch.byte?_eq_none_iff.2 hp, Option.none_or, List.getElem?_eq_getElem hi,
      Option.some_or]
  filled i hi hafter hp := by
    rw [length_write] at hafter
    rw [getElem?_write, Patch.byte?_eq_none_iff.2 hp, Option.none_or, List.getElem?_eq_none hi,
      Option.none_or, zeroBelow, if_pos (by omega)]

/-! ## One patch after the other -/

def patched (c : Contents) (ps : List Patch) : Contents :=
  ps.foldl (fun c p => c.write p.offset p.bytes) c

theorem getElem?_patched (c : Contents) (ps : List Patch) (i : Nat) :
    (c.patched ps).toList[i]? =
      (Patch.last? ps i).or (c.toList[i]?.or (zeroBelow (Patch.reach ps) i)) := by
  induction ps generalizing c with
  | nil => exact (Option.or_none).symm
  | cons p ps ih =>
    calc ((c.write p.offset p.bytes).patched ps).toList[i]?
        = (Patch.last? ps i).or (((p.byte? i).or (c.toList[i]?.or (zeroBelow p.stop i))).or
            (zeroBelow (Patch.reach ps) i)) := by rw [ih, getElem?_write]
      _ = ((Patch.last? ps i).or (p.byte? i)).or (c.toList[i]?.or
            ((zeroBelow p.stop i).or (zeroBelow (Patch.reach ps) i))) := by
              simp only [Option.or_assoc]
      _ = (Patch.last? (p :: ps) i).or (c.toList[i]?.or (zeroBelow (Patch.reach (p :: ps)) i)) := by
          rw [zeroBelow_or, Patch.last?_cons]
          rfl

/-- Each byte is the last that was put there, the old one, or zero. -/
theorem patched_swap (c : Contents) (h : p.Apart q) :
    (c.patched [p, q]).toList = (c.patched [q, p]).toList := by
  refine List.ext_getElem? fun i => ?_
  have hbyte : (q.byte? i).or (p.byte? i) = (p.byte? i).or (q.byte? i) := by
    by_cases hp : p.Covers i
    · rw [Patch.byte?_eq_none_iff.2 (h i hp), Option.none_or, Option.or_none]
    · rw [Patch.byte?_eq_none_iff.2 hp, Option.none_or, Option.or_none]
  have hreach : Patch.reach [p, q] = Patch.reach [q, p] := Nat.max_left_comm ..
  rw [getElem?_patched, getElem?_patched, hreach, Patch.last?_cons, Patch.last?_cons,
    Patch.last?_cons, Patch.last?_cons]
  exact congrArg (Option.or · _) hbyte

end Contents

/-! ## In words of 64 bits -/

namespace Word

def checkedSum (a b : UInt64) : Option UInt64 := if a ≤ a + b then some (a + b) else none

def saturatedSum (a b : UInt64) : UInt64 := (checkedSum a b).getD (-1)

theorem toNat_add_of_lt {a b : UInt64} (h : a.toNat + b.toNat < bound64) :
    (a + b).toNat = a.toNat + b.toNat := by
  rw [UInt64.toNat_add]
  exact Nat.mod_eq_of_lt h

theorem checkedSum_of_lt {a b : UInt64} (h : a.toNat + b.toNat < bound64) :
    checkedSum a b = some (a + b) :=
  if_pos (UInt64.le_iff_toNat_le.2 (toNat_add_of_lt h ▸ Nat.le_add_right ..))

theorem checkedSum_of_le {a b : UInt64} (h : bound64 ≤ a.toNat + b.toNat) :
    checkedSum a b = none := by
  have ha := a.toNat_lt
  have hb := b.toNat_lt
  unfold bound64 at h
  refine if_neg fun hle => ?_
  rw [UInt64.le_iff_toNat_le, UInt64.toNat_add] at hle
  omega

theorem toNat_saturatedSum (a b : UInt64) :
    (saturatedSum a b).toNat = min (a.toNat + b.toNat) (bound64 - 1) := by
  unfold saturatedSum
  by_cases h : a.toNat + b.toNat < bound64
  · rw [checkedSum_of_lt h, Option.getD_some, toNat_add_of_lt h]
    omega
  · rw [checkedSum_of_le (Nat.not_lt.1 h), Option.getD_none,
      show ((-1 : UInt64)).toNat = bound64 - 1 from rfl]
    omega

end Word

theorem Store.tooLarge_iff_checked (offset length : UInt64) :
    maxObjectSize < offset.toNat + length.toNat ↔
      (Word.checkedSum offset length).filter
      (fun stop => decide (stop.toNat ≤ maxObjectSize)) = none := by
  by_cases h : offset.toNat + length.toNat < Word.bound64
  · rw [Word.checkedSum_of_lt h, Option.filter_some, Word.toNat_add_of_lt h]
    by_cases hle : offset.toNat + length.toNat ≤ maxObjectSize
    · rw [if_pos (decide_eq_true hle)]
      exact iff_of_false (Nat.not_lt.2 hle) nofun
    · rw [if_neg (by simpa using hle)]
      exact iff_of_true (Nat.lt_of_not_le hle) rfl
  · rw [Word.checkedSum_of_le (Nat.not_lt.1 h)]
    refine iff_of_true ?_ rfl
    have : maxObjectSize < Word.bound64 := by decide
    omega

theorem Contents.read_saturated {c : Contents} (h : c.size < Word.bound64) (offset count : UInt64) :
    c.read offset.toNat count.toNat =
      let start := min offset.toNat c.size
      c.toList.extract start (min (Word.saturatedSum (.ofNat start) count).toNat c.size) := by
  have hstart : (UInt64.ofNat (min offset.toNat c.size)).toNat = min offset.toNat c.size :=
    UInt64.toNat_ofNat_of_lt (Nat.lt_of_le_of_lt (Nat.min_le_right ..) h)
  rw [Contents.read_eq, List.extract_eq_take_drop, Word.toNat_saturatedSum, hstart]
  rw [← Contents.length_toList] at h ⊢
  generalize c.toList = l at h
  by_cases hle : offset.toNat ≤ l.length
  · rw [Nat.min_eq_left hle, List.take_eq_take_iff, List.length_drop]
    omega
  · have hstop : min offset.toNat l.length = l.length := by omega
    rw [hstop, List.drop_of_length_le (by omega), List.drop_length, List.take_nil, List.take_nil]

end StoreMount
