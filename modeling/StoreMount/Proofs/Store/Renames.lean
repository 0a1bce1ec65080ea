import StoreMount.Proofs.Store.Bookkeeping
import StoreMount.Proofs.Store.Rights

/-!
# What a rename does, and when it does it

In a rooted store a rename succeeds if the source is there, the target is free and outside it, and
the target has a collection to go into, with level write on what moves and on that collection. Then
the objects at and below the source are at and below the target, exactly as they were: the two
collections that get a new modification time are parents, and neither of them moves. Since nothing
stands below a free place, nothing is written over.
-/
namespace StoreMount.Store

variable {s s' : Store} {user : String} {k : Place}

/-- What level write on an object is asked for: an administrator needs none. -/
def MayChange (s : Store) (user : String) (o : StoredObject) : Prop :=
  s.isAdmin user = true ∨ ∃ held, s.levelOf? user o = some held ∧ .write ≤ held

theorem permits_write_iff {o : StoredObject} :
    s.permits user o .write = true ↔ s.MayChange user o := by
  rw [permits, Bool.or_eq_true, MayChange]
  cases s.levelOf? user o <;> simp

structure Renamable (s : Store) (user : String) (source target : Path) : Prop where
  present : ∃ o, s.object? source = some o ∧ s.MayChange user o
  free : s.object? target = none
  outside : ¬source.At target
  parent : ∃ up o, target.parent? = some up ∧ s.object? up = some o ∧ o.kind.isCollection = true ∧
    s.MayChange user o

/-- The objects of a store after a subtree has moved. The parent of the source is stamped first. -/
structure Relocated (s s' : Store) (source target : Place) : Prop where
  moved : ∀ rest, s'.objects.get? (target ++ rest) = s.objects.get? (source ++ rest)
  nothingLeft : ∀ rest, s'.objects.get? (source ++ rest) = none
  vacant : ∀ rest, s.objects.get? (target ++ rest) = none
  free : ∀ k, s.objects.get? k = none → ¬target <+: k → s'.objects.get? k = none
  others : ∀ k o, s.objects.get? k = some o → ¬source <+: k → source.parent? ≠ some k →
    target.parent? ≠ some k →
    s'.objects.get? k = some o
  sourceParent : ∀ k o, s.objects.get? k = some o → source.parent? = some k →
    target.parent? ≠ some k →
    s'.objects.get? k = some { o with modifiedAt := s.clock + 1 }
  targetParent : ∀ k o, s.objects.get? k = some o → target.parent? = some k →
    s'.objects.get? k = some { o with modifiedAt := s.clock + 2 }
  rooted : s'.Rooted
  rest : s'.zone = s.zone ∧ s'.users = s.users ∧ s'.nextId = s.nextId ∧ s'.clock = s.clock + 2

/-! ## When -/

theorem require_iff {path : Path} {level : Level} :
    s.require user path level = .ok () ↔
      ∃ o, s.object? path = some o ∧ s.permits user o level = true := by
  refine ⟨require_eq_ok, ?_⟩
  rintro ⟨o, ho, hp⟩
  rw [require_eq ho, if_pos hp]

theorem rename_iff {source target : Path} :
    s.rename user source target = .ok s' ↔
      s.Renamable user source target ∧ s' = s.renamed source.place target.place := by
  constructor
  · intro h
    have hm := movable_of_rename h
    obtain ⟨hsource, -, hnew, hparent, rfl⟩ := rename_eq_ok h
    obtain ⟨o, ho, hp⟩ := require_eq_ok hsource
    obtain ⟨hfree, _, upObject, hplace, hobject, hkind⟩ := checkNewChild_eq_ok hnew
    rw [← Path.place_parent?] at hplace
    obtain ⟨up, hup, rfl⟩ := Option.map_eq_some_iff.1 hplace
    rw [requireParent, hup] at hparent
    obtain ⟨o', ho', hp'⟩ := require_eq_ok hparent
    obtain rfl := Option.some.inj (hobject.symm.trans ho')
    exact ⟨⟨⟨o, ho, permits_write_iff.1 hp⟩, hfree, hm.outside,
      ⟨up, upObject, hup, hobject, hkind, permits_write_iff.1 hp'⟩⟩, rfl⟩
  · rintro ⟨⟨⟨o, ho, hmay⟩, hfree, hout, ⟨up, o', hup, ho', hkind, hmay'⟩⟩, rfl⟩
    have hplace : target.place.parent? = some up.place := by
      rw [← Path.place_parent?, hup, Option.map_some]
    have hsource := require_iff.2 ⟨o, ho, permits_write_iff.2 hmay⟩
    have hcontains : s.objects.contains target.place = false := by
      rw [Table.contains, show s.objects.get? target.place = none from hfree]
      rfl
    have hwithin : target.within source = false :=
      Bool.eq_false_iff.2 fun h => hout (Path.within_iff.1 h)
    have hnew := checkNewChild_eq ho' hkind hplace hfree
    have hparent : s.requireParent user target .write = .ok () := by
      rw [requireParent, hup]
      exact require_iff.2 ⟨o', ho', permits_write_iff.2 hmay'⟩
    rw [rename, hsource, hcontains, hwithin, hnew, hparent]
    rfl

/-! ## What -/

theorem stamped_of_ne {up : Option Place} {now : Instant} {o : StoredObject} (h : up ≠ some k) :
    stamped up now k o = o :=
  if_neg h

theorem stamped_of_eq {up : Option Place} {now : Instant} {o : StoredObject} (h : up = some k) :
    stamped up now k o = { o with modifiedAt := now } := if_pos h

section Movable
variable {source target : Place}

theorem Movable.parents_stay (hm : s.Movable source target) (hs : s.Rooted) (rest : Place) :
    source.parent? ≠ some (target ++ rest) ∧ target.parent? ≠ some (target ++ rest) := by
  refine ⟨fun hup => ?_, fun hup => ?_⟩
  · obtain ⟨o, ho⟩ := hm.present
    obtain ⟨o', ho', -⟩ := hs source o _ ho hup
    rw [hm.get?_target hs] at ho'
    cases ho'
  · obtain ⟨up, o, hup', ho, -⟩ := hm.home
    obtain rfl := Option.some.inj (hup'.symm.trans hup)
    rw [hm.get?_target hs] at ho
    cases ho

theorem Movable.get?_renamed_stays (hm : s.Movable source target) (hs : s.Rooted) {o : StoredObject}
    (ho : s.objects.get? k = some o) (hk : ¬source <+: k) :
    (s.renamed source target).objects.get? k = some (s.restamped source target k o) := by
  have hout : ¬target <+: k := by
    rintro ⟨rest, rfl⟩
    rw [hm.get?_target hs] at ho
    cases ho
  rw [hm.get?_renamed_else hs hout, if_neg hk, ho, Option.map_some]

theorem not_prefix_of_parent? {up : Place} (h : k.parent? = some up) : ¬k <+: up := fun hunder => by
  obtain ⟨c, rfl⟩ := Place.parent?_eq_some h
  exact absurd hunder.length_le (by simp)

theorem Movable.not_prefix_targetParent (hm : s.Movable source target)
    (h : target.parent? = some k) : ¬source <+: k :=
  fun hunder => by
    obtain ⟨c, hc⟩ := Place.parent?_eq_some h
    exact hm.outside (hunder.trans (hc ▸ List.prefix_append ..))

theorem Movable.relocated (hm : s.Movable source target) (hs : s.Rooted) :
    s.Relocated (s.renamed source target) source target where
  moved rest := by
    obtain ⟨hsource, htarget⟩ := hm.parents_stay hs rest
    have hsame : s.restamped source target (target ++ rest) = id :=
      funext fun o => (stamped_of_ne htarget).trans (stamped_of_ne hsource)
    rw [hm.get?_renamed_target hs, hsame, Option.map_id, id]
  nothingLeft rest := by
    rw [hm.get?_renamed_else hs (hm.apart hs (List.prefix_append ..)),
      if_pos (List.prefix_append ..)]
  vacant := hm.get?_target hs
  free k hn hk := by rw [hm.get?_renamed_else hs hk, hn, Option.map_none, ite_self]
  others k o ho hk hks hkt := by
    rw [hm.get?_renamed_stays hs ho hk, restamped, stamped_of_ne hks, stamped_of_ne hkt]
  sourceParent k o ho hks hkt := by
    rw [hm.get?_renamed_stays hs ho (not_prefix_of_parent? hks), restamped, stamped_of_eq hks,
      stamped_of_ne hkt]
  targetParent k o ho hkt := by
    rw [hm.get?_renamed_stays hs ho (hm.not_prefix_targetParent hkt), restamped, stamped_of_eq hkt]
    -- The source may have the same parent, which then has the first stamp already.
    by_cases hks : source.parent? = some k
    · rw [stamped_of_eq hks]
    · rw [stamped_of_ne hks]
  rooted := hs.renamed hm
  rest := by simp [renamed]

end Movable

/-- A rename moves one subtree as it is, or does nothing, and what decides is known beforehand. -/
theorem rename_relocates (hs : s.Rooted) (user : String) (source target : Path) :
    ((∃ s', s.rename user source target = .ok s') ↔ s.Renamable user source target) ∧
    (∀ s', s.rename user source target = .ok s' →
      s.Relocated s' source.place target.place ∧ s.attempt (.rename user source target) = s') ∧
    ∀ e, s.rename user source target = .error e → s.attempt (.rename user source target) = s := by
  refine ⟨⟨fun ⟨_, h⟩ => (rename_iff.1 h).1, fun h => ⟨_, rename_iff.2 ⟨h, rfl⟩⟩⟩,
    fun s' h => ⟨?_, ?_⟩, fun e h => ?_⟩
  · have hm := movable_of_rename h
    obtain ⟨-, rfl⟩ := rename_iff.1 h
    exact hm.relocated hs
  · rw [attempt, apply, h]
    rfl
  · rw [attempt, apply, h]
    rfl

theorem held_object_goes_along : furnished.Rooted ∧
    ∃ s', furnished.rename "alice" ⟨"/z/home/alice/a"⟩ ⟨"/z/home/alice/b"⟩ = .ok s' ∧
      (furnished.object? ⟨"/z/home/alice/a/f"⟩).isSome = true ∧
      s'.object? ⟨"/z/home/alice/b/f"⟩ = furnished.object? ⟨"/z/home/alice/a/f"⟩ ∧
      s'.object? ⟨"/z/home/alice/a/f"⟩ = none := by
  have hrooted : furnished.Rooted := by decide +kernel
  have hok : (furnished.rename "alice" ⟨"/z/home/alice/a"⟩ ⟨"/z/home/alice/b"⟩).toOption.isSome =
    true := by decide +kernel
  have hthere : (furnished.object? ⟨"/z/home/alice/a/f"⟩).isSome = true := by decide +kernel
  have hold : (⟨"/z/home/alice/a/f"⟩ : Path).place = (⟨"/z/home/alice/a"⟩ : Path).place ++
    [.name "f"] := by decide +kernel
  have hnew : (⟨"/z/home/alice/b/f"⟩ : Path).place = (⟨"/z/home/alice/b"⟩ : Path).place ++
    [.name "f"] := by decide +kernel
  obtain ⟨-, hmoves, -⟩ := rename_relocates hrooted "alice" ⟨"/z/home/alice/a"⟩ ⟨"/z/home/alice/b"⟩
  cases h : furnished.rename "alice" ⟨"/z/home/alice/a"⟩ ⟨"/z/home/alice/b"⟩ with
  | error e => rw [h] at hok; cases hok
  | ok s' =>
    obtain ⟨hmoved, -⟩ := hmoves s' h
    refine ⟨hrooted, s', rfl, hthere, ?_, ?_⟩
    · rw [object?, object?, hold, hnew, hmoved.moved]
    · rw [object?, hold, hmoved.nothingLeft]

end StoreMount.Store
