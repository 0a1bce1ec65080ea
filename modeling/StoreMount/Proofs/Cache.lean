import StoreMount.Cache

/-!
# What the caches find

Whatever is found was put in before; entries that are too old are passed over. What is left after
forgetting is of other places.
-/
namespace StoreMount.Cache

variable {α : Type} {c : Cache}

theorem fresh_eq_some_iff {lifetime : Nat} {found : Option (Stamped α)} {a : α} :
    c.fresh lifetime found = some a ↔
      ∃ since, found = some ⟨a, since⟩ ∧ c.now < since + lifetime := by
  constructor
  · intro h
    obtain ⟨s, rfl, hs⟩ := Option.bind_eq_some_iff.1 h
    split at hs
    · next hrecent =>
      obtain rfl := Option.some.inj hs
      exact ⟨s.since, rfl, hrecent⟩
    · cases hs
  · rintro ⟨since, rfl, hrecent⟩
    rw [fresh, Option.bind_some, if_pos hrecent]

theorem fresh_eq_some {lifetime : Nat} {found : Option (Stamped α)} {a : α}
    (h : c.fresh lifetime found = some a) :
    ∃ since, found = some ⟨a, since⟩ := by
  obtain ⟨since, hfound, -⟩ := fresh_eq_some_iff.1 h
  exact ⟨since, hfound⟩

theorem fresh_insert {κ : Type} [DecidableEq κ] {t : Table κ (Stamped α)} {k k' : κ} {v a : α}
    {lifetime : Nat} (h : c.fresh lifetime ((t.insert k (c.stamp v)).get? k') = some a) :
    (k' = k ∧ a = v) ∨ c.fresh lifetime (t.get? k') = some a := by
  rw [Table.get?_insert] at h
  split at h
  · next hk =>
    obtain ⟨since, hs⟩ := fresh_eq_some h
    exact .inl ⟨hk, (congrArg Stamped.value (Option.some.inj hs)).symm⟩
  · exact .inr h

theorem get?_forgetAttributes {path : Path} {user : String} {place : Place} {a : Stamped Attributes}
    (h : (c.forgetAttributes path).attributesFor.get? (user, place) = some a) :
    c.attributesFor.get? (user, place) = some a ∧ place ≠ path.place := by
  rw [forgetAttributes, Table.get?_filter, Option.filter_eq_some_iff] at h
  exact ⟨h.1, of_decide_eq_true h.2⟩

theorem get?_forgetPermissions {path : Path} {place : Place}
    {entries : Stamped (List PermissionEntry)}
    (h : (c.forgetPermissions path).permissionsOf.get? place = some entries) :
    c.permissionsOf.get? place = some entries ∧ place ≠ path.place := by
  obtain ⟨hne, hs⟩ := Table.get?_erase_eq_some_iff.1 h
  exact ⟨hs, hne⟩

theorem attributesFor_forgetTree {top : Path} {user : String} {place : Place}
    {a : Stamped Attributes} (h : (c.forgetTree top).attributesFor.get? (user, place) = some a) :
    c.attributesFor.get? (user, place) = some a ∧ ¬top.place <+: place := by
  rw [forgetTree, Table.get?_filter, Option.filter_eq_some_iff] at h
  exact ⟨h.1, fun hp => by simp [List.isPrefixOf_iff_prefix.2 hp] at h⟩

theorem permissionsOf_forgetTree {top : Path} {place : Place}
    {entries : Stamped (List PermissionEntry)}
    (h : (c.forgetTree top).permissionsOf.get? place = some entries) :
    c.permissionsOf.get? place = some entries ∧ ¬top.place <+: place := by
  rw [forgetTree, Table.get?_filter, Option.filter_eq_some_iff] at h
  exact ⟨h.1, fun hp => by simp [List.isPrefixOf_iff_prefix.2 hp] at h⟩

end StoreMount.Cache
