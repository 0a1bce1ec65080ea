import StoreMount.Proofs.Store.Times

/-!
# Access lists by modification time

An object gets a new modification time with everything that is done to it but a change of its access
list and a move. So as long as nobody changes access lists, what carries a time that the clock has
reached has the access list that it had.
-/
namespace StoreMount.Store

variable {s s' : Store} {m : Instant} {acl : AccessList} {user : String} {path : Path}
    {place : Place}

structure Marked (s : Store) (m : Instant) (acl : AccessList) : Prop where
  past : m ≤ s.clock
  acl : ∀ k o, s.objects.get? k = some o → o.modifiedAt = m → o.acl = acl

theorem Timed.marked (hs : Timed s.objects s.clock) {o : StoredObject}
    (ho : s.object? path = some o) :
    s.Marked o.modifiedAt o.acl where
  past := hs.past path.place o ho
  acl k o' ho' he := by
    obtain rfl := hs.apart k o' path.place o ho' ho he
    rw [Option.some.inj (ho'.symm.trans ho)]

namespace Marked

theorem of_new_times (h : s.Marked m acl) (hclock : s.clock ≤ s'.clock)
    (hnew : ∀ k' o', s'.objects.get? k' = some o' → s.clock < o'.modifiedAt ∨
      ∃ k o, s.objects.get? k = some o ∧ o.modifiedAt = o'.modifiedAt ∧ o.acl = o'.acl) :
    s'.Marked m acl where
  past := Nat.le_trans h.past hclock
  acl k' o' ho' he := by
    rcases hnew k' o' ho' with hlater | ⟨k, o, ho, htime, hacl⟩
    · exact absurd h.past (Nat.not_le.2 (he ▸ hlater))
    · exact hacl.symm.trans (h.acl k o ho (htime.trans he))

theorem touchParent (h : s.Marked m acl) (place : Place) : (s.touchParent place).Marked m acl := by
  refine h.of_new_times (by simp) fun k o' ho' => ?_
  rw [get?_touchParent] at ho'
  obtain ⟨o, ho, rfl⟩ := Option.map_eq_some_iff.1 ho'
  rw [stamped_modifiedAt]
  split
  · exact .inl (Nat.lt_succ_self _)
  · exact .inr ⟨k, o, ho, rfl, by simp⟩

theorem insertObject (h : s.Marked m acl) (place : Place) (kind : ObjectKind) (owner : String)
    (contents : Contents) :
    (s.insertObject place kind owner contents).Marked m acl := by
  refine touchParent (s := { s.tick.2 with
    objects := s.objects.insert place (s.newObject kind owner contents), nextId :=
      s.nextId + 1 }) ?_ place
  refine h.of_new_times (Nat.le_succ _) fun k o' ho' => ?_
  obtain ⟨-, rfl⟩ | ⟨-, ho⟩ := Table.get?_insert_eq_some_iff.1 ho'
  · exact .inl (Nat.lt_succ_self s.clock)
  · exact .inr ⟨k, o', ho, rfl, rfl⟩

theorem rewritten (h : s.Marked m acl) (place : Place) (contents : Contents → Contents) :
    (s.rewritten place contents).Marked m acl := by
  refine h.of_new_times (Nat.le_succ _) fun k o' ho' => ?_
  rw [get?_rewritten] at ho'
  obtain ⟨o, ho, rfl⟩ := Option.map_eq_some_iff.1 ho'
  split
  · exact .inl (Nat.lt_succ_self _)
  · exact .inr ⟨k, o, ho, rfl, rfl⟩

theorem removed (h : s.Marked m acl) (place : Place) : (s.removed place).Marked m acl := by
  refine touchParent (s := { s with objects := s.objects.erase place })
    (h.of_new_times (Nat.le_refl _) fun k o' ho' => ?_) place
  exact .inr ⟨k, o', (Table.get?_erase_eq_some_iff.1 ho').2, rfl, rfl⟩

theorem renamed (h : s.Marked m acl) (source target : Place) :
    (s.renamed source target).Marked m acl := by
  refine touchParent (touchParent (s := { s with objects := _ }) ?_ _) _
  refine relocate_induction (P := fun t => Marked { s with objects := t } m acl) h
    fun t k o _ hko ht => ?_
  refine ht.of_new_times (Nat.le_refl _) fun k' o' ho' => .inr ?_
  obtain ⟨-, rfl⟩ | ⟨-, ho⟩ := Table.of_get?_moved ho'
  · exact ⟨k, o, hko, rfl, rfl⟩
  · exact ⟨k', o', ho, rfl, rfl⟩

end Marked

/-- A change of the objects that is no change of access lists. -/
def Alters (s s' : Store) : Prop := s.Effect s' ∧ ∀ m acl, s.Marked m acl → s'.Marked m acl

theorem alters_createDataObject {overwrite : Bool}
    (h : s.createDataObject user path overwrite = .ok s') : s.Alters s' := by
  refine ⟨effect_createDataObject h, fun m acl hm => ?_⟩
  obtain ⟨o, -, -, -, -, rfl⟩ | ⟨-, -, rfl⟩ := createDataObject_eq_ok h
  · exact hm.rewritten ..
  · exact hm.insertObject ..

theorem alters_createCollection (h : s.createCollection user path = .ok s') : s.Alters s' := by
  refine ⟨effect_createCollection h, fun m acl hm => ?_⟩
  obtain ⟨-, -, rfl⟩ := createCollection_eq_ok h
  exact hm.insertObject ..

theorem alters_remove (h : s.remove user path = .ok s') : s.Alters s' := by
  refine ⟨effect_remove h, fun m acl hm => ?_⟩
  obtain ⟨-, -, rfl⟩ := remove_eq_ok h
  exact hm.removed _

theorem alters_rename {source target : Path} (h : s.rename user source target = .ok s') :
    s.Alters s' := by
  refine ⟨effect_rename h, fun m acl hm => ?_⟩
  obtain ⟨-, -, -, -, rfl⟩ := rename_eq_ok h
  exact hm.renamed _ _

theorem alters_write {offset n : Nat} {bytes : List UInt8}
    (h : s.write user path offset bytes = .ok (n, s')) : s.Alters s' := by
  refine ⟨effect_write h, fun m acl hm => ?_⟩
  obtain ⟨o, -, -, -, -, -, rfl⟩ := write_eq_ok h
  exact hm.rewritten ..

theorem permits_of_list {lines : List ListingEntry} (h : s.list user path = .ok lines) :
    ∃ o, s.object? path = some o ∧ s.permits user o .read = true := by
  obtain ⟨o, -, h⟩ := bind_eq_ok h
  obtain ⟨-, h⟩ := guard_eq_ok h
  obtain ⟨_, hrequire, -⟩ := bind_eq_ok h
  exact require_eq_ok hrequire

end StoreMount.Store
