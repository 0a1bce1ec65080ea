import StoreMount.Proofs.Store.Tree

/-!
# Modification times tell objects apart

In every reachable store no two objects share a modification time, and none is later than the clock:
each change stamps one place at a time, and takes a new time for each. Moving a subtree stamps
nothing that moves.
-/
namespace StoreMount
namespace Store

def Apart (mark : StoredObject → Nat) (objects : Table Place StoredObject) : Prop :=
  ∀ k o k' o', objects.get? k = some o → objects.get? k' = some o' → mark o = mark o' → k = k'

namespace Apart
variable {mark : StoredObject → Nat} {t t' : Table Place StoredObject}

theorem of_kept (ht : Apart mark t)
    (h : ∀ k o, t'.get? k = some o → ∃ o', t.get? k = some o' ∧ mark o' = mark o) :
    Apart mark t' := fun k o k' o' ho ho' he => by
  obtain ⟨p, hp, hpe⟩ := h k o ho
  obtain ⟨p', hp', hpe'⟩ := h k' o' ho'
  exact ht k p k' p' hp hp' (by rw [hpe, hpe', he])

theorem stamp {m : Nat} (ht : Apart mark t) (hm : ∀ k o, t.get? k = some o → mark o < m)
    (place : Place) (h : ∀ k o, t'.get? k = some o → (k = place ∧ mark o = m) ∨ ∃ o',
      t.get? k = some o' ∧ mark o' = mark o) :
    Apart mark t' := fun k o k' o' ho ho' he => by
  rcases h k o ho with ⟨hk, hm₁⟩ | ⟨p, hp, hpe⟩
    <;> rcases h k' o' ho' with ⟨hk', hm₂⟩ | ⟨p', hp', hpe'⟩
  · rw [hk, hk']
  · exact absurd (hm k' p' hp') (by rw [hpe', ← he, hm₁]; exact Nat.lt_irrefl m)
  · exact absurd (hm k p hp) (by rw [hpe, he, hm₂]; exact Nat.lt_irrefl m)
  · exact ht k p k' p' hp hp' (by rw [hpe, hpe', he])

theorem move (ht : Apart mark t) {k target : Place} {o : StoredObject} (ho : t.get? k = some o) :
    Apart mark ((t.erase k).insert target o) := fun k₁ o₁ k₂ o₂ h₁ h₂ he => by
  rcases Table.of_get?_moved h₁ with ⟨hk₁, rfl⟩ | ⟨hk₁, h₁'⟩ <;>
    rcases Table.of_get?_moved h₂ with ⟨hk₂, rfl⟩ | ⟨hk₂, h₂'⟩
  · rw [hk₁, hk₂]
  · exact absurd (ht k _ k₂ o₂ ho h₂' he).symm hk₂
  · exact absurd (ht k₁ o₁ k _ h₁' ho he) hk₁
  · exact ht k₁ o₁ k₂ o₂ h₁' h₂' he

end Apart

structure Timed (objects : Table Place StoredObject) (now : Instant) : Prop where
  past : ∀ k o, objects.get? k = some o → o.modifiedAt ≤ now
  apart : ∀ k o k' o', objects.get? k = some o → objects.get? k' = some o' →
    o.modifiedAt = o'.modifiedAt → k = k'

section Timed
variable {t t' : Table Place StoredObject} {now m : Instant}

theorem timed_iff : Timed t now ↔ (∀ k o, t.get? k = some o → o.modifiedAt ≤ now) ∧
      Apart StoredObject.modifiedAt t :=
  ⟨fun h => ⟨h.past, h.apart⟩, fun h => ⟨h.1, h.2⟩⟩

theorem timed_empty : Timed .empty now where
  past k o ho := by simp at ho
  apart k o k' o' ho := by simp at ho

theorem Timed.of_kept (ht : Timed t now)
    (h : ∀ k o, t'.get? k = some o → ∃ o', t.get? k = some o' ∧ o'.modifiedAt = o.modifiedAt) :
    Timed t' now := by
  obtain ⟨hpast, hapart⟩ := timed_iff.1 ht
  refine timed_iff.2 ⟨fun k o ho => ?_, hapart.of_kept h⟩
  obtain ⟨o', ho', he⟩ := h k o ho
  exact he ▸ hpast k o' ho'

theorem Timed.stamp (ht : Timed t now) (hm : now < m) (place : Place)
    (h : ∀ k o, t'.get? k = some o →
      (k = place ∧ o.modifiedAt = m) ∨ ∃ o', t.get? k = some o' ∧ o'.modifiedAt = o.modifiedAt) :
    Timed t' m := by
  obtain ⟨hpast, hapart⟩ := timed_iff.1 ht
  have hlater : ∀ k o, t.get? k = some o → o.modifiedAt < m :=
    fun k o ho => Nat.lt_of_le_of_lt (hpast k o ho) hm
  refine timed_iff.2 ⟨fun k o ho => ?_, hapart.stamp hlater place h⟩
  rcases h k o ho with ⟨-, he⟩ | ⟨o', ho', he⟩
  · exact Nat.le_of_eq he
  · exact he ▸ Nat.le_of_lt (hlater k o' ho')

theorem Timed.move (ht : Timed t now) {k target : Place} {o : StoredObject}
    (ho : t.get? k = some o) :
    Timed ((t.erase k).insert target o) now := by
  obtain ⟨hpast, hapart⟩ := timed_iff.1 ht
  refine timed_iff.2 ⟨fun k' o' h => ?_, hapart.move ho⟩
  rcases Table.of_get?_moved h with ⟨-, rfl⟩ | ⟨-, h'⟩
  · exact hpast k _ ho
  · exact hpast k' o' h'

end Timed

variable {s s' : Store}

theorem Timed.touchParent (hs : Timed s.objects s.clock) (place : Place) :
    Timed (s.touchParent place).objects (s.touchParent place).clock := by
  rw [clock_touchParent]
  refine hs.stamp (Nat.lt_succ_self _) (place.parent?.getD []) fun k o ho => ?_
  rw [get?_touchParent] at ho
  obtain ⟨o', ho', rfl⟩ := Option.map_eq_some_iff.1 ho
  rw [stamped_modifiedAt]
  split
  · next hup => exact .inl ⟨by simp [hup], rfl⟩
  · exact .inr ⟨o', ho', rfl⟩

theorem Timed.insertObject (hs : Timed s.objects s.clock) (place : Place) (kind : ObjectKind)
    (owner : String) (contents : Contents) :
    Timed (s.insertObject place kind owner contents).objects
      (s.insertObject place kind owner contents).clock := by
  refine Timed.touchParent (s := { s.tick.2 with
    objects := s.objects.insert place (s.newObject kind owner contents), nextId :=
      s.nextId + 1 }) ?_ place
  refine hs.stamp (Nat.lt_succ_self s.clock) place fun k o ho => ?_
  obtain ⟨hk, rfl⟩ | ⟨-, ho⟩ := Table.get?_insert_eq_some_iff.1 ho
  · exact .inl ⟨hk, rfl⟩
  · exact .inr ⟨o, ho, rfl⟩

theorem Timed.effect (hs : Timed s.objects s.clock) (h : s.Effect s') :
    Timed s'.objects s'.clock := by
  cases h with
  | rewritten place contents =>
    refine hs.stamp (Nat.lt_succ_self s.clock) place fun k o ho => ?_
    rw [get?_rewritten] at ho
    obtain ⟨o', ho', rfl⟩ := Option.map_eq_some_iff.1 ho
    split
    · next hk => exact .inl ⟨hk, rfl⟩
    · exact .inr ⟨o', ho', rfl⟩
  | regranted place f =>
    refine hs.of_kept fun k o ho => ?_
    rw [get?_changeAcl] at ho
    obtain ⟨o', ho', rfl⟩ := Option.map_eq_some_iff.1 ho
    exact ⟨o', ho', by split <;> rfl⟩
  | inserted path kind owner contents vacant => exact hs.insertObject ..
  | removed place childless =>
    refine Timed.touchParent (s := { s with objects := s.objects.erase place })
      (hs.of_kept fun k o ho => ?_) place
    exact ⟨o, (Table.get?_erase_eq_some_iff.1 ho).2, rfl⟩
  | renamed source target movable =>
    have hmoved :
        Timed (relocate s.objects source.place target.place (s.subtree source.place)) s.clock :=
      relocate_induction (P := (Timed · s.clock)) hs fun t k o _ hko ht => ht.move hko
    exact Timed.touchParent (Timed.touchParent (s := { s with objects := _ }) hmoved _) _

theorem timed_new (zone admin : String) :
    Timed (Store.new zone admin).objects (Store.new zone admin).clock := by
  suffices h : ∀ (places : List Place) (s : Store), Timed s.objects s.clock →
      let s' := places.foldl (fun s place => s.insertObject place .collection admin .empty) s
      Timed s'.objects s'.clock from h _ _ timed_empty
  intro places
  induction places with
  | nil => exact fun s hs => hs
  | cons place places ih => exact fun s hs => ih _ (hs.insertObject ..)

theorem Timed.apply (hs : Timed s.objects s.clock) {change : Change} (h : s.apply change = .ok s') :
    Timed s'.objects s'.clock := by
  obtain he | ⟨users, rfl | ⟨name, -, rfl⟩⟩ := apply_eq_ok h
  · exact hs.effect he
  · exact hs
  · exact Timed.insertObject (s := { s with users }) hs ..

theorem Reachable.timed (h : s.Reachable) : Timed s.objects s.clock := by
  induction h with
  | new zone admin => exact timed_new zone admin
  | step change _ h ih => exact ih.apply h

end Store
end StoreMount
