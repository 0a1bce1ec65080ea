import StoreMount.Proofs.Store.Tree

/-!
# What holds of every object

A property of single objects lasts if new objects have it and nothing that is done to an object
takes it away: touching and overwriting it, granting and revoking. Where the objects stand does not
matter, so removing and moving cannot take it away either, and it holds of every object of every
reachable store.
-/
namespace StoreMount.Store

variable {φ : StoredObject → Prop} {s s' : Store}

structure Lasting (φ : StoredObject → Prop) : Prop where
  created : ∀ (s : Store) kind owner contents, kind ≠ .syntheticCollection →
    φ (s.newObject kind owner contents)
  touched : ∀ o now, φ o → φ { o with modifiedAt := now }
  rewritten : ∀ o contents, φ o → φ { o with contents }
  granted : ∀ o entry, φ o → φ { o with acl := o.acl.grant entry }
  revoked : ∀ o entry, φ o → φ { o with acl := o.acl.revoke entry }

def Each (φ : StoredObject → Prop) (objects : Table Place StoredObject) : Prop :=
  ∀ k o, objects.get? k = some o → φ o

namespace Lasting

theorem stamped (hφ : Lasting φ) {o : StoredObject} (ho : φ o) (up : Option Place)
    (now : Instant) (k : Place) :
    φ (stamped up now k o) := by
  unfold Store.stamped
  split
  · exact hφ.touched o now ho
  · exact ho

theorem touchParent (hφ : Lasting φ) (hs : Each φ s.objects) (place : Place) :
    Each φ (s.touchParent place).objects := by
  intro k o ho
  rw [get?_touchParent] at ho
  obtain ⟨o', ho', rfl⟩ := Option.map_eq_some_iff.1 ho
  exact hφ.stamped (hs k o' ho') ..

theorem insertObject (hφ : Lasting φ) (hs : Each φ s.objects) (place : Place) {kind : ObjectKind}
    (hk : kind ≠ .syntheticCollection) (owner : String) (contents : Contents) :
    Each φ (s.insertObject place kind owner contents).objects := by
  intro k o ho
  rw [get?_insertObject] at ho
  obtain ⟨o', ho', rfl⟩ := Option.map_eq_some_iff.1 ho
  refine hφ.stamped ?_ ..
  split at ho'
  · exact Option.some.inj ho' ▸ hφ.created s kind owner contents hk
  · exact hs k o' ho'

theorem adjusted (hs : Each φ s.objects) {place : Place} {f : StoredObject → StoredObject}
    (hf : ∀ o, φ o → φ (f o)) :
    Each φ (s.objects.adjust place f) := by
  intro k o ho
  rw [Table.get?_adjust] at ho
  split at ho
  · obtain ⟨o', ho', rfl⟩ := Option.map_eq_some_iff.1 ho
    exact hf o' (hs _ o' ho')
  · exact hs k o ho

theorem overwritten (hφ : Lasting φ) (hs : Each φ s.objects) (place : Place)
    (contents : Contents → Contents) :
    Each φ (s.rewritten place contents).objects :=
  adjusted hs fun o ho =>
    hφ.touched { o with contents := contents o.contents } _ (hφ.rewritten o _ ho)

theorem removed (hφ : Lasting φ) (hs : Each φ s.objects) (place : Place) :
    Each φ (s.removed place).objects := by
  refine hφ.touchParent (s := { s with objects := s.objects.erase place }) (fun k o ho => ?_) place
  exact hs k o (Table.get?_erase_eq_some_iff.1 ho).2

theorem renamed (hφ : Lasting φ) (hs : Each φ s.objects) (source target : Place) :
    Each φ (s.renamed source target).objects := by
  refine hφ.touchParent
    (hφ.touchParent (s := { s with objects := _ }) (relocate_induction (P := Each φ) hs ?_) _) _
  intro t k o _ hko ht k' o' ho'
  obtain ⟨-, rfl⟩ | ⟨-, ho⟩ := Table.of_get?_moved ho'
  · exact ht k o hko
  · exact ht k' o' ho

theorem apply (hφ : Lasting φ) (hs : Each φ s.objects) {change : Change}
    (h : s.apply change = .ok s') :
    Each φ s'.objects := by
  have hcollection : ObjectKind.collection ≠ .syntheticCollection := by decide
  have hdata : ObjectKind.dataObject ≠ .syntheticCollection := by decide
  cases change with
  | addUser name type =>
    cases h
    unfold addUser
    split
    · exact hs
    · dsimp only
      split
      · exact hs
      · exact hφ.insertObject (s := { s with users := s.users.insert name ⟨type, [], []⟩ })
          hs _ hcollection _ _
  | addGroup name members => cases h; exact hs
  | addCollection path owner =>
    obtain ⟨-, rfl⟩ := addCollection_eq_ok h
    exact hφ.insertObject hs _ hcollection _ _
  | addDataObject path owner bytes =>
    obtain ⟨-, rfl⟩ := addDataObject_eq_ok h
    exact hφ.insertObject hs _ hdata _ _
  | grantPermission path entry =>
    obtain rfl := grantPermission_eq_ok h
    exact adjusted hs fun o => hφ.granted o entry
  | setMetadata name key value => cases h; exact hs
  | removeMetadata name key => cases h; exact hs
  | createDataObject user path overwrite =>
    obtain ⟨o, -, -, -, -, rfl⟩ | ⟨-, -, rfl⟩ := createDataObject_eq_ok h
    · exact hφ.overwritten hs _ _
    · exact hφ.insertObject hs _ hdata _ _
  | createCollection user path =>
    obtain ⟨-, -, rfl⟩ := createCollection_eq_ok h
    exact hφ.insertObject hs _ hcollection _ _
  | remove user path =>
    obtain ⟨-, -, rfl⟩ := remove_eq_ok h
    exact hφ.removed hs _
  | rename user source target =>
    obtain ⟨-, -, -, -, rfl⟩ := rename_eq_ok h
    exact hφ.renamed hs _ _
  | write user path offset bytes =>
    cases hw : s.write user path offset bytes with
    | error e => simp [Store.apply, hw, Except.map] at h
    | ok a =>
      obtain ⟨o, -, -, -, -, -, ha⟩ := write_eq_ok hw
      obtain rfl : a.2 = s' := by simpa [Store.apply, hw, Except.map] using h
      exact ha ▸ hφ.overwritten hs _ _
  | grant user path entry =>
    obtain ⟨-, -, rfl⟩ := grant_eq_ok h
    exact adjusted hs fun o => hφ.granted o entry
  | revoke user path entry =>
    obtain ⟨-, rfl⟩ := revoke_eq_ok h
    exact adjusted hs fun o => hφ.revoked o entry

theorem new (hφ : Lasting φ) (zone admin : String) : Each φ (Store.new zone admin).objects := by
  suffices h : ∀ (places : List Place) (s : Store), Each φ s.objects →
      Each φ
        (places.foldl (fun s place => s.insertObject place .collection admin .empty) s).objects from
    h _ _ fun k o ho => by simp [Store.empty] at ho
  intro places
  induction places with
  | nil => exact fun s hs => hs
  | cons place places ih =>
    exact fun s hs => ih _ (hφ.insertObject hs place (by decide) admin .empty)

theorem reachable (hφ : Lasting φ) (h : s.Reachable) : Each φ s.objects := by
  induction h with
  | new zone admin => exact hφ.new zone admin
  | step change _ h ih => exact hφ.apply ih h

end Lasting

theorem Reachable.entered (h : s.Reachable) : Each (·.kind ≠ .syntheticCollection) s.objects :=
  Lasting.reachable
    ⟨fun _ _ _ _ h => h, fun _ _ h => h, fun _ _ h => h, fun _ _ h => h, fun _ _ h => h⟩ h

end StoreMount.Store
