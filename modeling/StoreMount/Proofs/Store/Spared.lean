import StoreMount.Proofs.Store.Tree

/-!
# What a change spares

Away from the places that a change is about, an object stays as it is. Only collections around these
places may get another modification time, and in a rooted store what has children is a collection.
So whatever is read off an object but the modification time of a collection is the same before and
after.
-/
namespace StoreMount

/-- The objects differ at most in the modification time, and data objects not even there. -/
def StoredObject.Alike (o o' : StoredObject) : Prop :=
  ∃ now, (o.kind = .dataObject → now = o.modifiedAt) ∧ o' = { o with modifiedAt := now }

namespace Store

variable {s s' : Store} {k : Place}

theorem alike_refl (o : StoredObject) : o.Alike o := ⟨o.modifiedAt, fun _ => rfl, rfl⟩

theorem alike_trans {o o' o'' : StoredObject} (h : o.Alike o') (h' : o'.Alike o'') :
    o.Alike o'' := by
  obtain ⟨now, ht, rfl⟩ := h
  obtain ⟨now', ht', rfl⟩ := h'
  exact ⟨now', fun hk => (ht' hk).trans (ht hk), rfl⟩

theorem alike_stamped {up : Option Place} {now : Instant} {o : StoredObject}
    (h : up = some k → o.kind.isCollection = true) : o.Alike (stamped up now k o) := by
  unfold stamped
  split
  · next hup =>
    refine ⟨now, fun hk => ?_, rfl⟩
    have hc := h hup
    rw [hk] at hc
    cases hc
  · exact alike_refl o

def Spares (s s' : Store) (C : Place → Prop) : Prop :=
  ∀ k o, C k → s.objects.get? k = some o → ∃ o', s'.objects.get? k = some o' ∧ o.Alike o'

def SparesAcl (s s' : Store) (C : Place → Prop) : Prop :=
  ∀ k o, C k → s.objects.get? k = some o → ∃ o', s'.objects.get? k = some o' ∧ o'.acl = o.acl

theorem Spares.acl {C : Place → Prop} (h : Spares s s' C) : SparesAcl s s' C := fun k o hk ho => by
  obtain ⟨o', ho', he⟩ := h k o hk ho
  obtain ⟨now, -, rfl⟩ := he
  exact ⟨_, ho', rfl⟩

theorem spares_rewritten (place : Place) (contents : Contents → Contents) :
    Spares s (s.rewritten place contents) (· ≠ place) := fun k o hk ho =>
  ⟨o, by rw [get?_rewritten, ho, Option.map_some, if_neg hk], alike_refl o⟩

theorem sparesAcl_rewritten (place : Place) (contents : Contents → Contents) :
    SparesAcl s (s.rewritten place contents) fun _ => True := fun k o _ ho =>
  ⟨_, by rw [get?_rewritten, ho, Option.map_some], by split <;> rfl⟩

theorem spares_changeAcl (place : Place) (f : AccessList → AccessList) :
    Spares s (s.changeAcl place f) (· ≠ place) := fun k o hk ho =>
  ⟨o, by rw [get?_changeAcl, ho, Option.map_some, if_neg hk], alike_refl o⟩

theorem spares_insertObject {place : Place} (hv : s.Vacant place) (kind : ObjectKind)
    (owner : String) (contents : Contents) :
    Spares s (s.insertObject place kind owner contents) fun _ => True := fun k o _ ho => by
  have hne : k ≠ place := by
    rintro rfl
    rw [hv.free] at ho
    cases ho
  refine ⟨_, by rw [get?_insertObject, if_neg hne, ho, Option.map_some],
    alike_stamped fun hup => ?_⟩
  obtain ⟨up, o', hup', ho', hc⟩ := hv.home
  obtain rfl : up = k := Option.some.inj (hup'.symm.trans hup)
  rwa [Option.some.inj (ho.symm.trans ho')]

theorem Rooted.isCollection (hs : s.Rooted) {place : Place} {child o : StoredObject}
    (hc : s.objects.get? place = some child) (hup : place.parent? = some k)
    (ho : s.objects.get? k = some o) :
    o.kind.isCollection = true := by
  obtain ⟨o', ho', hk⟩ := hs place child k hc hup
  rwa [Option.some.inj (ho.symm.trans ho')]

theorem spares_removed (hs : s.Rooted) {place : Place} {gone : StoredObject}
    (hg : s.objects.get? place = some gone) :
    Spares s (s.removed place) (· ≠ place) := fun k o hk ho =>
  ⟨_, by rw [get?_removed, if_neg hk, ho, Option.map_some],
    alike_stamped fun hup => hs.isCollection hg hup ho⟩

theorem spares_renamed (hs : s.Rooted) {source target : Place} (hm : s.Movable source target) :
    Spares s (s.renamed source target) fun k => ¬source <+: k ∧ ¬target <+: k := by
  rintro k o ⟨hks, hkt⟩ ho
  refine ⟨_, by rw [hm.get?_renamed_else hs hkt, if_neg hks, ho, Option.map_some], ?_⟩
  obtain ⟨moved, hmoved⟩ := hm.present
  have hfirst : o.Alike (stamped source.parent? (s.clock + 1) k o) :=
    alike_stamped fun hup => hs.isCollection hmoved hup ho
  refine alike_trans hfirst (alike_stamped fun hup => ?_)
  obtain ⟨up, o', hup', ho', hc⟩ := hm.home
  obtain rfl : up = k := Option.some.inj (hup'.symm.trans hup)
  rw [stamped_kind, Option.some.inj (ho.symm.trans ho')]
  exact hc

/-! ## Accounts -/

theorem Effect.users (h : s.Effect s') : s'.users = s.users := by
  cases h <;> simp [Store.rewritten, Store.changeAcl, Store.removed, Store.renamed, Store.tick]

end Store
end StoreMount
