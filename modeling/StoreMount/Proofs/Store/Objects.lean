import StoreMount.Proofs.Store.Changes

/-!
# What is found after a change

For each of the things a change does, the object found at any place afterwards. Creating, removing
and moving also touch parents, which only moves modification times on; so everything but the
modification time is read off the first half of each equation. Moving a subtree is a loop over its
places, each before what lies below it. Source and target subtrees have no place in common, so every
object ends up at its own new place whatever the order.
-/
namespace StoreMount
namespace Store

def stamped (up : Option Place) (now : Instant) (k : Place) (o : StoredObject) : StoredObject :=
  if up = some k then { o with modifiedAt := now } else o

section Stamped
variable (up : Option Place) (now : Instant) (k : Place) (o : StoredObject)

@[simp] theorem stamped_id : (stamped up now k o).id = o.id := by unfold stamped; split <;> rfl
@[simp] theorem stamped_kind : (stamped up now k o).kind = o.kind := by
  unfold stamped; split <;> rfl
@[simp] theorem stamped_contents : (stamped up now k o).contents = o.contents := by
  unfold stamped; split <;> rfl
@[simp] theorem stamped_owner : (stamped up now k o).owner = o.owner := by
  unfold stamped; split <;> rfl
@[simp] theorem stamped_createdAt : (stamped up now k o).createdAt = o.createdAt := by
  unfold stamped; split <;> rfl
@[simp] theorem stamped_acl : (stamped up now k o).acl = o.acl := by unfold stamped; split <;> rfl

theorem stamped_modifiedAt : (stamped up now k o).modifiedAt = if up = some k then now
      else o.modifiedAt := by
  unfold stamped
  split <;> rfl

end Stamped

def newObject (s : Store) (kind : ObjectKind) (owner : String) (contents : Contents) :
    StoredObject where
  id := s.nextId
  kind := kind
  contents := contents
  owner := owner
  createdAt := s.clock + 1
  modifiedAt := s.clock + 1
  acl := [{ name := owner, kind := .individual, zone := s.zone, level := .own }]

variable (s : Store) (place k : Place)

theorem get?_touchParent :
    (s.touchParent place).objects.get? k =
      (s.objects.get? k).map (stamped place.parent? (s.clock + 1) k) := by
  unfold touchParent
  cases hup : place.parent? with
  | none =>
    have : stamped none (s.clock + 1) k = id := by
      funext o
      simp [stamped]
    simp [tick, this]
  | some up =>
    simp only [tick, touch, Table.get?_adjust]
    by_cases hk : k = up
    · subst hk
      rw [if_pos rfl]
      exact congrArg (Option.map · _) (funext fun o => by simp [stamped])
    · have : stamped (some up) (s.clock + 1) k = id := by
        funext o
        simp [stamped, Ne.symm hk]
      rw [if_neg hk, this, Option.map_id, id]

@[simp] theorem clock_touchParent : (s.touchParent place).clock = s.clock + 1 := by
  unfold touchParent
  cases place.parent? <;> rfl

@[simp] theorem nextId_touchParent : (s.touchParent place).nextId = s.nextId := by
  unfold touchParent
  cases place.parent? <;> rfl

@[simp] theorem users_touchParent : (s.touchParent place).users = s.users := by
  unfold touchParent
  cases place.parent? <;> rfl

@[simp] theorem zone_touchParent : (s.touchParent place).zone = s.zone := by
  unfold touchParent
  cases place.parent? <;> rfl

section Insert
variable (kind : ObjectKind) (owner : String) (contents : Contents)

theorem get?_insertObject :
    (s.insertObject place kind owner contents).objects.get? k =
      (if k = place then some (s.newObject kind owner contents) else s.objects.get? k).map
        (stamped place.parent? (s.clock + 2) k) := by
  rw [insertObject, get?_touchParent]
  exact congrArg (Option.map _) (Table.get?_insert ..)

@[simp] theorem clock_insertObject :
    (s.insertObject place kind owner contents).clock = s.clock + 2 := by
  simp [insertObject, tick]

@[simp] theorem users_insertObject :
    (s.insertObject place kind owner contents).users = s.users := by
  simp [insertObject, tick]

end Insert

theorem get?_rewritten (contents : Contents → Contents) :
    (s.rewritten place contents).objects.get? k = (s.objects.get? k).map fun o =>
      if k = place then { o with contents := contents o.contents, modifiedAt := s.clock + 1 }
        else o := by
  simp only [rewritten, Table.get?_adjust]
  by_cases hk : k = place
  · subst hk
    simp
  · simp [hk]

theorem get?_changeAcl (f : AccessList → AccessList) :
    (s.changeAcl place f).objects.get? k = (s.objects.get? k).map fun o =>
      if k = place then { o with acl := f o.acl } else o := by
  simp only [changeAcl, Table.get?_adjust]
  by_cases hk : k = place
  · subst hk
    simp
  · simp [hk]

theorem get?_removed :
    (s.removed place).objects.get? k =
      (if k = place then none else s.objects.get? k).map
      (stamped place.parent? (s.clock + 1) k) := by
  rw [removed, get?_touchParent]
  exact congrArg (Option.map _) (Table.get?_erase ..)

@[simp] theorem clock_removed : (s.removed place).clock = s.clock + 1 := by simp [removed]

/-! ## What stands where

The number and the kind of the object at a place. A change that creates, removes and moves nothing
leaves both as they are.
-/

def standing? (s : Store) (k : Place) : Option (Nat × ObjectKind) :=
  (s.objects.get? k).map fun o => (o.id, o.kind)

variable {s k} in
theorem standing?_eq_some_iff {i : Nat} {kind : ObjectKind} :
    s.standing? k = some (i, kind) ↔ ∃ o, s.objects.get? k = some o ∧ o.id = i ∧ o.kind = kind := by
  simp [standing?]

variable {s k} in
theorem standing?_eq_none_iff : s.standing? k = none ↔ s.objects.get? k = none := by
  simp [standing?]

theorem standing?_of_map {s' : Store} {k' : Place} {f : StoredObject → StoredObject}
    (h : s'.objects.get? k' = (s.objects.get? k).map f) (hid : ∀ o, (f o).id = o.id)
    (hkind : ∀ o, (f o).kind = o.kind) :
    s'.standing? k' = s.standing? k := by
  rw [standing?, standing?, h, Option.map_map]
  exact congrArg (Option.map · _) (funext fun o => by simp [hid, hkind])

@[simp] theorem standing?_rewritten (contents : Contents → Contents) :
    (s.rewritten place contents).standing? k = s.standing? k :=
  standing?_of_map _ _ (get?_rewritten ..) (fun o => by split <;> rfl) (fun o => by split <;> rfl)

@[simp] theorem standing?_changeAcl (f : AccessList → AccessList) :
    (s.changeAcl place f).standing? k = s.standing? k :=
  standing?_of_map _ _ (get?_changeAcl ..) (fun o => by split <;> rfl) (fun o => by split <;> rfl)

theorem standing?_insertObject (kind : ObjectKind) (owner : String) (contents : Contents) :
    (s.insertObject place kind owner contents).standing? k =
      if k = place then some (s.nextId, kind) else s.standing? k := by
  split
  · next h => simp [standing?, get?_insertObject, h, newObject]
  · next h => exact standing?_of_map _ _ (by rw [get?_insertObject, if_neg h]) (by simp) (by simp)

theorem standing?_removed :
    (s.removed place).standing? k = if k = place then none else s.standing? k := by
  split
  · next h => simp [standing?, get?_removed, h]
  · next h => exact standing?_of_map _ _ (by rw [get?_removed, if_neg h]) (by simp) (by simp)

/-! ## Moving -/

section Relocate
variable {source target : Place} {moving : List Place}

theorem get?_relocateOne (t : Table Place StoredObject) (source target rest k : Place) :
    (relocateOne source target t (source ++ rest)).get? k =
      if k = target ++ rest then (t.get? (source ++ rest)).or (t.get? k)
      else if k = source ++ rest then none else t.get? k := by
  unfold relocateOne
  cases ho : t.get? (source ++ rest) with
  | none => by_cases h₁ : k = source ++ rest <;> simp [h₁, ho]
  | some o =>
    rw [Place.moved_append]
    simp only [Table.get?_insert, Table.get?_erase, Option.some_or]

/-- The loop, described from both sides: below the target stands what stood below the source, if it
was among what moves, and elsewhere nothing is left of what moves. -/
theorem get?_relocate (t : Table Place StoredObject) (hsource : ∀ k ∈ moving, source <+: k)
    (hapart : ∀ k, source <+: k → ¬target <+: k) :
    (∀ r, (relocate t source target moving).get? (target ++ r) =
      if source ++ r ∈ moving then (t.get? (source ++ r)).or (t.get? (target ++ r))
      else t.get? (target ++ r)) ∧
    ∀ k, ¬target <+: k → (relocate t source target moving).get? k = if k ∈ moving then none
      else t.get? k := by
  induction moving generalizing t with
  | nil => simp [relocate]
  | cons d ds ih =>
    obtain ⟨rest, rfl⟩ := hsource d List.mem_cons_self
    have hstep : relocate t source target ((source ++ rest) :: ds) =
        relocate (relocateOne source target t (source ++ rest)) source target ds := rfl
    obtain ⟨hbelow, helse⟩ := ih (relocateOne source target t (source ++ rest)) fun k hk =>
      hsource k (List.mem_cons_of_mem _ hk)
    have hne : ∀ r, target ++ r ≠ source ++ rest := fun r he =>
      hapart (source ++ rest) (List.prefix_append ..) (he ▸ List.prefix_append ..)
    have hget := get?_relocateOne t source target rest
    refine ⟨fun r => ?_, fun k hk => ?_⟩
    · have hsr : ∀ r, source ++ r ≠ target ++ rest := fun r he =>
        hapart (source ++ r) (List.prefix_append ..) (he ▸ List.prefix_append ..)
      rw [hstep, hbelow, hget, hget]
      by_cases hr : r = rest
      · subst hr
        simp only [hsr, if_true, if_false, List.mem_cons, true_or, ite_self, Option.none_or]
      · simp [hr, hne, hsr]
    · have hk' : k ≠ target ++ rest := fun he => hk (he ▸ List.prefix_append ..)
      rw [hstep, helse k hk, hget, if_neg hk']
      by_cases h₁ : k = source ++ rest <;> simp [h₁]

theorem relocate_induction {P : Table Place StoredObject → Prop} {t : Table Place StoredObject}
    (ht : P t) (hstep : ∀ t k o, k ∈ moving → t.get? k = some o → P t →
      P ((t.erase k).insert (Place.moved source target k) o)) :
    P (relocate t source target moving) := by
  induction moving generalizing t with
  | nil => exact ht
  | cons d ds ih =>
    have hds : ∀ t k o, k ∈ ds → t.get? k = some o → P t →
        P ((t.erase k).insert (Place.moved source target k) o) :=
      fun t k o hk => hstep t k o (List.mem_cons_of_mem _ hk)
    rw [relocate, List.foldl_cons, relocateOne]
    cases ho : t.get? d with
    | none => exact ih ht hds
    | some o => exact ih (hstep t d o List.mem_cons_self ho ht) hds

theorem mem_subtree : k ∈ s.subtree place ↔ place <+: k ∧ k ∈ s.objects.keys := by
  rw [subtree, List.mem_mergeSort, List.mem_filter, List.isPrefixOf_iff_prefix, and_comm]

end Relocate

end Store
end StoreMount
