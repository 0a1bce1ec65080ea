import StoreMount.Proofs.Permission
import StoreMount.Proofs.Store.Each
import StoreMount.Proofs.Store.Homes
import StoreMount.Proofs.Store.Times

/-!
# The books of the store

Object numbers come from a counter and times from the clock, so in every reachable store the numbers
are distinct and below the counter, and no object was modified before it was created or after the
clock. What a change does to a table of objects is one of three things: it restamps objects where
they are, dropping some perhaps, it puts a new object in, or it moves an object to another place.
The parent of an object that comes or goes is stamped last, with a time that the store has not seen.
-/
namespace StoreMount.Store

/-- The numbers are distinct and have been given out, and the times are in order. -/
structure Booked (objects : Table Place StoredObject) (next : Nat) (now : Instant) : Prop where
  numbered : ∀ k o, objects.get? k = some o → o.id < next
  distinct : Apart StoredObject.id objects
  ordered : ∀ k o, objects.get? k = some o → o.createdAt ≤ o.modifiedAt ∧ o.modifiedAt ≤ now

namespace Booked
variable {t t' : Table Place StoredObject} {next : Nat} {now later : Instant}

theorem empty : Booked .empty next now where
  numbered k o ho := by simp at ho
  distinct k o k' o' ho := by simp at ho
  ordered k o ho := by simp at ho

theorem restamp (ht : Booked t next now) (hl : now ≤ later)
    (h : ∀ k o, t'.get? k = some o → ∃ o',
      t.get? k = some o' ∧ o'.id = o.id ∧ o'.createdAt = o.createdAt ∧
      (o.modifiedAt = o'.modifiedAt ∨ o.modifiedAt = later)) : Booked t' next later where
  numbered k o ho := by
    obtain ⟨o', ho', hid, -⟩ := h k o ho
    exact hid ▸ ht.numbered k o' ho'
  distinct := ht.distinct.of_kept fun k o ho => by
    obtain ⟨o', ho', hid, -⟩ := h k o ho
    exact ⟨o', ho', hid⟩
  ordered k o ho := by
    obtain ⟨o', ho', -, hcreated, hmodified⟩ := h k o ho
    obtain ⟨hle, hpast⟩ := ht.ordered k o' ho'
    rw [← hcreated]
    rcases hmodified with hm | hm <;> rw [hm]
    · exact ⟨hle, Nat.le_trans hpast hl⟩
    · exact ⟨Nat.le_trans hle (Nat.le_trans hpast hl), Nat.le_refl _⟩

theorem insert (ht : Booked t next now) (hl : now ≤ later) {o : StoredObject} (hid : o.id = next)
    (hcreated : o.createdAt = later) (hmodified : o.modifiedAt = later) (place : Place) :
    Booked (t.insert place o) (next + 1) later where
  numbered k p hp := by
    obtain ⟨-, rfl⟩ | ⟨-, hp⟩ := Table.get?_insert_eq_some_iff.1 hp
    · exact Nat.lt_succ_of_le (Nat.le_of_eq hid)
    · exact Nat.lt_succ_of_lt (ht.numbered k p hp)
  distinct := ht.distinct.stamp ht.numbered place fun k p hp => by
    obtain ⟨hk, rfl⟩ | ⟨-, hp⟩ := Table.get?_insert_eq_some_iff.1 hp
    · exact .inl ⟨hk, hid⟩
    · exact .inr ⟨p, hp, rfl⟩
  ordered k p hp := by
    obtain ⟨-, rfl⟩ | ⟨-, hp⟩ := Table.get?_insert_eq_some_iff.1 hp
    · exact ⟨Nat.le_of_eq (hcreated.trans hmodified.symm), Nat.le_of_eq hmodified⟩
    · exact (ht.ordered k p hp).imp_right fun hpast => Nat.le_trans hpast hl

theorem move (ht : Booked t next now) {k : Place} {o : StoredObject} (ho : t.get? k = some o)
    (target : Place) :
    Booked ((t.erase k).insert target o) next now := by
  have hfrom : ∀ k' o', ((t.erase k).insert target o).get? k' = some o' →
      ∃ k'', t.get? k'' = some o' := by
    intro k' o' h
    obtain ⟨-, rfl⟩ | ⟨-, h⟩ := Table.of_get?_moved h
    · exact ⟨k, ho⟩
    · exact ⟨k', h⟩
  refine ⟨fun k' o' h => ?_, ht.distinct.move ho, fun k' o' h => ?_⟩
    <;> obtain ⟨k'', h⟩ := hfrom k' o' h
  · exact ht.numbered k'' o' h
  · exact ht.ordered k'' o' h

end Booked

variable {s s' : Store} {k up : Place}

theorem Booked.touchParent (hs : Booked s.objects s.nextId s.clock) (place : Place) :
    Booked (s.touchParent place).objects (s.touchParent place).nextId
      (s.touchParent place).clock := by
  rw [nextId_touchParent, clock_touchParent]
  refine hs.restamp (Nat.le_succ _) fun k o ho => ?_
  rw [get?_touchParent] at ho
  obtain ⟨o', ho', rfl⟩ := Option.map_eq_some_iff.1 ho
  refine ⟨o', ho', (stamped_id ..).symm, (stamped_createdAt ..).symm, ?_⟩
  rw [stamped_modifiedAt]
  split
  · exact .inr rfl
  · exact .inl rfl

theorem Booked.insertObject (hs : Booked s.objects s.nextId s.clock) (place : Place)
    (kind : ObjectKind) (owner : String) (contents : Contents) :
    Booked (s.insertObject place kind owner contents).objects
      (s.insertObject place kind owner contents).nextId
      (s.insertObject place kind owner contents).clock :=
  Booked.touchParent (s := { s.tick.2 with
    objects := s.objects.insert place (s.newObject kind owner contents), nextId := s.nextId + 1 })
    (hs.insert (Nat.le_succ s.clock) rfl rfl rfl place) place

theorem Booked.effect (hs : Booked s.objects s.nextId s.clock) (h : s.Effect s') :
    Booked s'.objects s'.nextId s'.clock := by
  cases h with
  | rewritten place contents =>
    refine hs.restamp (Nat.le_succ s.clock) fun k o ho => ?_
    rw [get?_rewritten] at ho
    obtain ⟨o', ho', rfl⟩ := Option.map_eq_some_iff.1 ho
    split
    · exact ⟨o', ho', rfl, rfl, .inr rfl⟩
    · exact ⟨o', ho', rfl, rfl, .inl rfl⟩
  | regranted place f =>
    refine hs.restamp (Nat.le_refl s.clock) fun k o ho => ?_
    rw [get?_changeAcl] at ho
    obtain ⟨o', ho', rfl⟩ := Option.map_eq_some_iff.1 ho
    split <;> exact ⟨o', ho', rfl, rfl, .inl rfl⟩
  | inserted path kind owner contents vacant => exact hs.insertObject ..
  | removed place childless =>
    refine Booked.touchParent (s := { s with objects := s.objects.erase place }) ?_ place
    refine hs.restamp (Nat.le_refl s.clock) fun k o ho => ?_
    exact ⟨o, (Table.get?_erase_eq_some_iff.1 ho).2, rfl, rfl, .inl rfl⟩
  | renamed source target movable =>
    have hmoved : Booked (relocate s.objects source.place target.place (s.subtree source.place))
        s.nextId s.clock :=
      relocate_induction (P := (Booked · s.nextId s.clock)) hs fun t k o _ hko ht => ht.move hko _
    exact Booked.touchParent (Booked.touchParent (s := { s with objects := _ }) hmoved _) _

theorem booked_new (zone admin : String) :
    Booked (Store.new zone admin).objects (Store.new zone admin).nextId
      (Store.new zone admin).clock := by
  suffices h : ∀ (places : List Place) (s : Store), Booked s.objects s.nextId s.clock →
      let s' := places.foldl (fun s place => s.insertObject place .collection admin .empty) s
      Booked s'.objects s'.nextId s'.clock from h _ _ .empty
  intro places
  induction places with
  | nil => exact fun s hs => hs
  | cons place places ih => exact fun s hs => ih _ (hs.insertObject ..)

theorem Reachable.booked (h : s.Reachable) : Booked s.objects s.nextId s.clock := by
  induction h with
  | new zone admin => exact booked_new zone admin
  | step change _ h ih =>
    obtain he | ⟨users, rfl | ⟨name, -, rfl⟩⟩ := apply_eq_ok h
    · exact ih.effect he
    · exact ih
    · exact Booked.insertObject (s := { (_ : Store) with users }) ih ..

theorem Reachable.separate (h : s.Reachable) : Each (·.acl.Separate) s.objects :=
  Lasting.reachable ⟨fun _ _ _ _ _ => List.nodup_singleton _, fun _ _ h => h, fun _ _ h => h,
    fun _ entry h => h.grant entry, fun _ entry h => h.revoke entry⟩ h

/-! ## The parents of what comes and goes -/

/-- The places where an object comes to be, or from where one goes, when the change succeeds. What
moves along below a renamed collection keeps its parent. -/
def Change.sites (s : Store) : Change → List Place
  | .addUser name type =>
    if type = .group ∨ s.objects.contains (homeOf s.zone name).place then []
      else [(homeOf s.zone name).place]
  | .addCollection path _ | .addDataObject path _ _ | .createCollection _ path | .remove _ path =>
    [path.place]
  | .createDataObject _ path _ => if s.objects.contains path.place then [] else [path.place]
  | .rename _ source target => [source.place, target.place]
  | _ => []

def Freshened (s : Store) (since : Instant) (up : Place) : Prop :=
  ∃ o, s.objects.get? up = some o ∧ o.kind.isCollection = true ∧ since < o.modifiedAt

theorem ne_of_parent? (h : k.parent? = some up) : up ≠ k := by
  obtain ⟨c, rfl⟩ := Place.parent?_eq_some h
  simp

theorem freshened_insertObject {o : StoredObject} (hup : k.parent? = some up)
    (ho : s.objects.get? up = some o) (hkind : o.kind.isCollection = true) (kind : ObjectKind)
    (owner : String) (contents : Contents) :
    (s.insertObject k kind owner contents).Freshened s.clock up := by
  refine ⟨stamped k.parent? (s.clock + 2) up o, ?_, by simpa using hkind, ?_⟩
  · rw [get?_insertObject, if_neg (ne_of_parent? hup), ho, Option.map_some]
  · rw [stamped_modifiedAt, if_pos hup]
    exact Nat.lt_add_of_pos_right (by decide)

theorem Vacant.freshened (hv : s.Vacant k) (hup : k.parent? = some up) (kind : ObjectKind)
    (owner : String) (contents : Contents) :
    (s.insertObject k kind owner contents).Freshened s.clock up := by
  obtain ⟨up', o, hup', ho, hkind⟩ := hv.home
  obtain rfl : up' = up := Option.some.inj (hup'.symm.trans hup)
  exact freshened_insertObject hup ho hkind ..

theorem Rooted.freshened (hs : (s.insertObject k kind owner contents).Rooted)
    (hup : k.parent? = some up) :
    (s.insertObject k kind owner contents).Freshened s.clock up := by
  obtain ⟨o', ho', hkind⟩ := hs k _ up (by rw [get?_insertObject, if_pos rfl, Option.map_some]) hup
  rw [get?_insertObject, if_neg (ne_of_parent? hup)] at ho'
  obtain ⟨o, ho, rfl⟩ := Option.map_eq_some_iff.1 ho'
  exact freshened_insertObject hup ho (by simpa using hkind) ..

theorem freshened_removed (hs : s.Rooted) {o : StoredObject} (ho : s.objects.get? k = some o)
    (hup : k.parent? = some up) :
    (s.removed k).Freshened s.clock up := by
  obtain ⟨o', ho', hkind⟩ := hs k o up ho hup
  refine ⟨stamped k.parent? (s.clock + 1) up o', ?_, by simpa using hkind, ?_⟩
  · rw [get?_removed, if_neg (ne_of_parent? hup), ho', Option.map_some]
  · rw [stamped_modifiedAt, if_pos hup]
    exact Nat.lt_succ_self _

theorem Movable.freshened {source target : Place} (hm : s.Movable source target) (hs : s.Rooted)
    (hup : source.parent? = some up ∨ target.parent? = some up) :
    (s.renamed source target).Freshened s.clock up := by
  have hout : ∀ {k : Place} {c : Component}, ¬k ++ [c] <+: k := fun {k c} h => by
    have hlength : (k ++ [c]).length ≤ k.length := h.length_le
    rw [List.length_append, List.length_singleton] at hlength
    exact Nat.not_succ_le_self _ hlength
  have hthere : ∃ o, s.objects.get? up = some o ∧ o.kind.isCollection = true ∧ ¬source <+: up ∧
      ¬target <+: up := by
    rcases hup with hup | hup <;> obtain ⟨c, rfl⟩ := Place.parent?_eq_some hup
    · obtain ⟨o, ho⟩ := hm.present
      obtain ⟨o', ho', hkind⟩ := hs _ o up ho hup
      exact ⟨o', ho', hkind, hout,
        fun h => hm.apart hs (List.prefix_refl _) (h.trans (List.prefix_append ..))⟩
    · obtain ⟨up', o, hup', ho, hkind⟩ := hm.home
      obtain rfl : up' = up := Option.some.inj (hup'.symm.trans hup)
      exact ⟨o, ho, hkind, fun h => hm.outside (h.trans (List.prefix_append ..)), hout⟩
  obtain ⟨o, ho, hkind, hsource, htarget⟩ := hthere
  refine ⟨s.restamped source target up o, ?_, by simpa [restamped] using hkind, ?_⟩
  · rw [hm.get?_renamed_else hs htarget, if_neg hsource, ho, Option.map_some]
  · have hlater : ∀ n, 0 < n → s.clock < s.clock + n := fun n => Nat.lt_add_of_pos_right
    rw [restamped, stamped_modifiedAt, stamped_modifiedAt]
    split
    · exact hlater 2 (by decide)
    · next hother => exact if_pos (hup.resolve_right hother) ▸ hlater 1 (by decide)

theorem freshened_of_apply (hs : s.Rooted) (hs' : s'.Rooted) {change : Change}
    (h : s.apply change = .ok s') (hk : k ∈ change.sites s) (hup : k.parent? = some up) :
    s'.Freshened s.clock up := by
  cases change with
  | addUser name type =>
    cases h
    have hsites : ¬(type = .group ∨ s.objects.contains (homeOf s.zone name).place) ∧
        k = (homeOf s.zone name).place := by
      simpa [Change.sites] using hk
    obtain ⟨hmade, rfl⟩ := hsites
    obtain ⟨hlogin, hfree⟩ := not_or.1 hmade
    rw [addUser, if_neg hlogin] at hs' ⊢
    dsimp only at hs' ⊢
    rw [if_neg hfree] at hs' ⊢
    exact hs'.freshened hup
  | addCollection path owner =>
    obtain rfl := List.mem_singleton.1 hk
    obtain ⟨hn, rfl⟩ := addCollection_eq_ok h
    exact (vacant_of_checkNewChild hn).freshened hup ..
  | addDataObject path owner bytes =>
    obtain rfl := List.mem_singleton.1 hk
    obtain ⟨hn, rfl⟩ := addDataObject_eq_ok h
    exact (vacant_of_checkNewChild hn).freshened hup ..
  | createDataObject user path overwrite =>
    have hsites : ¬s.objects.contains path.place ∧ k = path.place := by
      simpa [Change.sites] using hk
    obtain ⟨hfree, rfl⟩ := hsites
    obtain ⟨o, ho, -⟩ | ⟨hn, -, rfl⟩ := createDataObject_eq_ok h
    · exact absurd (Option.isSome_iff_exists.2 ⟨o, ho⟩) hfree
    · exact (vacant_of_checkNewChild hn).freshened hup ..
  | createCollection user path =>
    obtain rfl := List.mem_singleton.1 hk
    obtain ⟨hn, -, rfl⟩ := createCollection_eq_ok h
    exact (vacant_of_checkNewChild hn).freshened hup ..
  | remove user path =>
    obtain rfl := List.mem_singleton.1 hk
    obtain ⟨hr, -, rfl⟩ := remove_eq_ok h
    obtain ⟨o, ho⟩ := object?_of_require hr
    exact freshened_removed hs ho hup
  | rename user source target =>
    have hm := movable_of_rename h
    obtain ⟨-, -, -, -, rfl⟩ := rename_eq_ok h
    have hsites : k = source.place ∨ k = target.place := by simpa [Change.sites] using hk
    refine hm.freshened hs (hsites.imp ?_ ?_) <;> exact fun he => he ▸ hup
  | _ => cases hk

/-! ## All of it together -/

theorem Reachable.after (h : s.Reachable) (changes : List Change) :
    (s.after changes).Reachable := by
  induction changes generalizing s with
  | nil => exact h
  | cons change changes ih =>
    obtain he | ha := attempt_cases s change
    · exact ih (he.symm ▸ h)
    · exact ih (.step change h ha)

/-- Numbers and modification times tell objects apart, times are in order, subjects have one entry
each, and the parents of what comes and goes get a time that no object has. -/
theorem books_in_order (hs : s.Reachable) :
    (∀ k o, s.objects.get? k = some o →
      o.id < s.nextId ∧ o.createdAt ≤ o.modifiedAt ∧ o.modifiedAt ≤ s.clock ∧ o.acl.Separate) ∧
    (∀ k o k' o', s.objects.get? k = some o → s.objects.get? k' = some o' →
      o.id = o'.id ∨ o.modifiedAt = o'.modifiedAt → k = k') ∧
    ∀ change s', s.apply change = .ok s' → s.Rooted → s'.Rooted →
      ∀ k ∈ change.sites s, ∀ up, k.parent? = some up →
        ∃ o, s'.objects.get? up = some o ∧ o.kind.isCollection = true ∧ s.clock < o.modifiedAt ∧
          ∀ k' o', s.objects.get? k' = some o' → o'.createdAt < o.modifiedAt ∧
          o'.modifiedAt < o.modifiedAt := by
  have hbooked := hs.booked
  refine ⟨fun k o ho => ?_, fun k o k' o' ho ho' he => ?_, fun change s' h hr hr' k hk up hup => ?_⟩
  · obtain ⟨hle, hpast⟩ := hbooked.ordered k o ho
    exact ⟨hbooked.numbered k o ho, hle, hpast, hs.separate k o ho⟩
  · rcases he with he | he
    · exact hbooked.distinct k o k' o' ho ho' he
    · exact hs.timed.apart k o k' o' ho ho' he
  · obtain ⟨o, ho, hkind, hlater⟩ := freshened_of_apply hr hr' h hk hup
    refine ⟨o, ho, hkind, hlater, fun k' o' ho' => ?_⟩
    obtain ⟨hle, hpast⟩ := hbooked.ordered k' o' ho'
    have hmodified : o'.modifiedAt < o.modifiedAt := Nat.lt_of_le_of_lt hpast hlater
    exact ⟨Nat.lt_of_le_of_lt hle hmodified, hmodified⟩

def furnished : Store := (Store.new "z" "rods").after
  [.addUser "alice" .regular, .createCollection "alice" ⟨"/z/home/alice/a"⟩,
    .createDataObject "alice" ⟨"/z/home/alice/a/f"⟩ false]

theorem move_stamps_both_parents : ∃ s', furnished.Reachable ∧ furnished.Rooted ∧ s'.Rooted ∧
    furnished.apply (.rename "alice" ⟨"/z/home/alice/a/f"⟩ ⟨"/z/home/alice/f"⟩) = .ok s' ∧
    ∀ path ∈ [(⟨"/z/home/alice/a"⟩ : Path), ⟨"/z/home/alice"⟩],
      ∃ o, s'.object? path = some o ∧ ∀ k o', furnished.objects.get? k = some o' →
      o'.modifiedAt < o.modifiedAt := by
  have hchecks :
      (furnished.apply (.rename "alice" ⟨"/z/home/alice/a/f"⟩ ⟨"/z/home/alice/f"⟩)).toOption.any
      (fun s' => decide s'.Rooted) = true := by decide +kernel
  have hrooted : furnished.Rooted := by decide +kernel
  have hparents : ∀ path ∈ [(⟨"/z/home/alice/a"⟩ : Path), ⟨"/z/home/alice"⟩],
      ∃ k ∈ Change.sites furnished (.rename "alice" ⟨"/z/home/alice/a/f"⟩ ⟨"/z/home/alice/f"⟩),
        k.parent? = some path.place := by decide +kernel
  have hreached : furnished.Reachable := Reachable.after (.new "z" "rods") _
  cases hok : furnished.apply (.rename "alice" ⟨"/z/home/alice/a/f"⟩ ⟨"/z/home/alice/f"⟩) with
  | error e => rw [hok] at hchecks; cases hchecks
  | ok s' =>
    have hrooted' : s'.Rooted := by simpa [hok, Except.toOption] using hchecks
    refine ⟨s', hreached, hrooted, hrooted', rfl, fun path hpath => ?_⟩
    obtain ⟨k, hk, hup⟩ := hparents path hpath
    obtain ⟨o, ho, -, -, hlater⟩ :=
      (books_in_order hreached).2.2 _ s' hok hrooted hrooted' k hk _ hup
    exact ⟨o, ho, fun k o' ho' => (hlater k o' ho').2⟩

end StoreMount.Store
