import StoreMount.Proofs.Store.Objects

/-!
# What a level is enough for

Every call checks one level on one object, and when it has found what it is about, that level
decides: reading and listing need level read, writing and removing level write, and a new child
level write on the collection that it goes into; an access list may be changed by those with level
own. The other failures of a call are no refusals.

In a reachable store every collection is one that was created, so none is of the kind that has no
entry of its own.
-/
namespace StoreMount.Store

variable {α : Type} {s s' : Store} {user : String} {path child : Path} {o : StoredObject}
    {level : Level}

theorem find_eq (ho : s.object? path = some o) : s.find path = .ok o := by rw [find, ho]

theorem require_eq (ho : s.object? path = some o) (level : Level) :
    s.require user path level = if s.permits user o level then .ok ()
      else .error (.permissionDenied path) := by
  rw [require, find_eq ho]
  change (if (!s.permits user o level) = true then Except.error _ else Except.ok ()) = _
  cases s.permits user o level <;> rfl

theorem permits_of_regular (h : s.isAdmin user = false) (level : Level) :
    s.permits user o level = (o.acl.levelOf? user (s.groupsOf user)).any fun held =>
      decide (level ≤ held) := by
  rw [permits, h, Bool.false_or, levelOf?]

theorem require_then_ok {next : Unit → Except StoreError α} (ho : s.object? path = some o)
    (h : ∃ a, next () = .ok a) :
    (∃ a, (s.require user path level >>= next) = .ok a) ↔ s.permits user o level = true := by
  rw [require_eq ho]
  cases s.permits user o level with
  | true => exact iff_of_true h rfl
  | false => exact iff_of_false (fun ⟨_, ha⟩ => by cases ha) Bool.false_ne_true

theorem require_then_denied {next : Unit → Except StoreError α} (ho : s.object? path = some o)
    (h : ∀ q, next () ≠ .error (.permissionDenied q)) :
    (∃ q, (s.require user path level >>= next) = .error (.permissionDenied q)) ↔
      s.permits user o level = false := by
  rw [require_eq ho]
  cases s.permits user o level with
  | true => exact iff_of_false (fun ⟨q, hq⟩ => h q hq) Bool.noConfusion
  | false => exact iff_of_true ⟨path, rfl⟩ rfl

/-! ## Looking -/

theorem read_eq (ho : s.object? path = some o) (hk : o.kind.isCollection = false)
    (offset count : Nat) :
    s.read user path offset count = s.require user path .read >>= fun _ =>
      .ok (o.contents.read offset count) := by
  rw [read, find_eq ho]
  exact if_neg (by simp [hk])

theorem read_ok_iff (ho : s.object? path = some o) (hk : o.kind.isCollection = false)
    (offset count : Nat) :
    (∃ bytes, s.read user path offset count = .ok bytes) ↔ s.permits user o .read = true := by
  rw [read_eq ho hk]
  exact require_then_ok ho ⟨_, rfl⟩

theorem list_ok_iff (ho : s.object? path = some o) (hk : o.kind.isCollection = true) :
    (∃ lines, s.list user path = .ok lines) ↔ s.permits user o .read = true := by
  have hlist : s.list user path = s.require user path .read >>= fun _ =>
      .ok (s.children path.place) := by
    rw [list, find_eq ho]
    exact if_neg (by simp [hk])
  rw [hlist]
  exact require_then_ok ho ⟨_, rfl⟩

/-! ## Changing -/

theorem write_eq (ho : s.object? path = some o) (hk : o.kind.isCollection = false) (offset : Nat)
    (bytes : List UInt8) :
    s.write user path offset bytes = s.require user path .write >>= fun _ =>
      if maxObjectSize < offset + bytes.length then .error (.tooLarge path)
      else .ok (bytes.length, s.rewritten path.place (·.write offset bytes)) := by
  rw [write, find_eq ho]
  refine (if_neg (by simp [hk])).trans
    (congrArg (s.require user path .write >>= ·) (funext fun _ => ?_))
  by_cases hsize : maxObjectSize < offset + bytes.length
  · exact (if_pos hsize).trans (if_pos hsize).symm
  · exact (if_neg hsize).trans (if_neg hsize).symm

theorem write_ok_iff (ho : s.object? path = some o) (hk : o.kind.isCollection = false)
    {offset : Nat} {bytes : List UInt8} (hsize : offset + bytes.length ≤ maxObjectSize) :
    (∃ a, s.write user path offset bytes = .ok a) ↔ s.permits user o .write = true := by
  rw [write_eq ho hk]
  exact require_then_ok ho ⟨_, if_neg (Nat.not_lt.2 hsize)⟩

theorem remove_denied_iff (ho : s.object? path = some o) (user : String) :
    (∃ q, s.remove user path = .error (.permissionDenied q)) ↔ s.permits user o .write = false := by
  refine require_then_denied ho fun q h => ?_
  split at h <;> cases h

theorem grant_denied_iff (ho : s.object? path = some o) (user : String) (entry : PermissionEntry) :
    (∃ q, s.grant user path entry = .error (.permissionDenied q)) ↔
      s.permits user o .own = false := by
  refine require_then_denied ho fun q h => ?_
  split at h <;> cases h

/-! ## Creating -/

theorem parent?_of_place (h : child.place.parent? = some path.place) :
    ∃ up, child.parent? = some up ∧ up.place = path.place := by
  rw [← Path.place_parent?] at h
  exact Option.map_eq_some_iff.1 h

theorem checkNewChild_eq (ho : s.object? path = some o) (hk : o.kind.isCollection = true)
    (hup : child.place.parent? = some path.place) (hnew : s.object? child = none) :
    s.checkNewChild child = .ok () := by
  obtain ⟨up, hparent, hplace⟩ := parent?_of_place hup
  have hup : s.object? up = some o := (congrArg s.objects.get? hplace).trans ho
  have hc : s.objects.contains child.place = false := by
    rw [Table.contains, show s.objects.get? child.place = none from hnew]; rfl
  rw [checkNewChild, hparent]
  simp only [hc, Bool.false_eq_true, if_false, find_eq hup]
  exact if_neg (by simp [hk])

theorem requireParent_eq (hup : child.place.parent? = some path.place) (s : Store) (user : String)
    (level : Level) :
    ∃ up, up.place = path.place ∧ s.requireParent user child level = s.require user up level := by
  obtain ⟨up, hparent, hplace⟩ := parent?_of_place hup
  exact ⟨up, hplace, by rw [requireParent, hparent]⟩

theorem create_ok_iff {next : Unit → Except StoreError α} (ho : s.object? path = some o)
    (hk : o.kind.isCollection = true) (hup : child.place.parent? = some path.place)
    (hnew : s.object? child = none) (h : ∃ a, next () = .ok a) :
    (∃ a, (do s.checkNewChild child; s.requireParent user child .write >>= next) = .ok a) ↔
      s.permits user o .write = true := by
  obtain ⟨up, hplace, hrequire⟩ := requireParent_eq hup s user .write
  rw [checkNewChild_eq ho hk hup hnew, hrequire]
  exact require_then_ok ((congrArg s.objects.get? hplace).trans ho) h

theorem createCollection_ok_iff (ho : s.object? path = some o) (hk : o.kind.isCollection = true)
    (hup : child.place.parent? = some path.place) (hnew : s.object? child = none) :
    (∃ s', s.createCollection user child = .ok s') ↔ s.permits user o .write = true :=
  create_ok_iff ho hk hup hnew ⟨_, rfl⟩

theorem createDataObject_ok_iff (ho : s.object? path = some o) (hk : o.kind.isCollection = true)
    (hup : child.place.parent? = some path.place) (hnew : s.object? child = none)
    (overwrite : Bool) :
    (∃ s', s.createDataObject user child overwrite = .ok s') ↔ s.permits user o .write = true := by
  rw [createDataObject, hnew]
  exact create_ok_iff ho hk hup hnew ⟨_, rfl⟩

end StoreMount.Store
