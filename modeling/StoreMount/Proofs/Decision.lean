import StoreMount.Ace
import Mathlib.Tactic.IntervalCases

/-!
# What a mask asks for

The classes of masks grow with the levels, so a level allows a mask if it is at least the weakest
one whose class the mask is in. The bits shown as a mode follow the same order.
-/
namespace StoreMount

/-- The weakest level that allows the mask. -/
def Mask.least (m : Mask) : Level :=
  if readClass.contains m then .read else if writeClass.contains m then .write else .own

theorem Mask.writeClass_of_readClass {m : Mask} (h : readClass.contains m = true) :
    writeClass.contains m = true :=
  contains_trans (by decide) h

theorem Level.decision_eq_allow_iff {level : Option Level} {mask : Mask} :
    Level.decision level mask = .allow ↔
      (level.any fun held => decide (mask.least ≤ held)) = true := by
  have hclass := @Mask.writeClass_of_readClass mask
  unfold Mask.least
  cases hr : Mask.readClass.contains mask with
  | true =>
    rw [hr] at hclass
    cases level with
    | none => exact iff_of_false Decision.noConfusion Bool.noConfusion
    | some held => cases held <;> simp [Level.decision, Decision.ofBool, hr, hclass rfl] <;> decide
  | false =>
    cases hw : Mask.writeClass.contains mask <;> cases level with
    | none => exact iff_of_false Decision.noConfusion Bool.noConfusion
    | some held => cases held <;> simp [Level.decision, Decision.ofBool, hr, hw] <;> decide

theorem Mask.changesData_cases {m : Mask} (hne : m.isEmpty = false)
    (h : (writeData ∪ appendData).contains m = true) :
    m = writeData ∨ m = appendData ∨ m = writeData ∪ appendData := by
  obtain ⟨bits⟩ := m
  have hand : bits.toNat &&& 6 = bits.toNat := congrArg UInt32.toNat (contains_iff.1 h)
  have hle : bits.toNat ≤ 6 := hand ▸ Nat.and_le_right
  have hzero : bits.toNat ≠ 0 := fun hz => by
    rw [show bits = 0 from UInt32.toNat_inj.1 hz] at hne
    cases hne
  have hbits : ∀ {n : Nat}, bits.toNat = n → bits = UInt32.ofNat n :=
    fun hn => by rw [← hn, UInt32.ofNat_toNat]
  generalize hn : bits.toNat = n at hand hle hzero
  interval_cases n
  · exact absurd rfl hzero
  · cases hand
  · exact .inl (congrArg Mask.mk (hbits hn))
  · cases hand
  · exact .inr (.inl (congrArg Mask.mk (hbits hn)))
  · cases hand
  · exact .inr (.inr (congrArg Mask.mk (hbits hn)))

theorem modeOf_read_iff {kind : ObjectKind} (hk : kind ≠ .syntheticCollection)
    (level : Option Level) :
    modeOf kind false level &&& 0o400 ≠ 0 ↔
      (level.any fun held => decide (.read ≤ held)) = true := by
  cases kind <;> first | exact absurd rfl hk | (rcases level with _ | _ | _ | _ <;> decide)

theorem modeOf_write_iff {kind : ObjectKind} (hk : kind ≠ .syntheticCollection)
    (level : Option Level) :
    modeOf kind false level &&& 0o200 ≠ 0 ↔
      (level.any fun held => decide (.write ≤ held)) = true := by
  cases kind <;> first | exact absurd rfl hk | (rcases level with _ | _ | _ | _ <;> decide)

end StoreMount
