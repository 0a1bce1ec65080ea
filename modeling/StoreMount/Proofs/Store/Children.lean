import StoreMount.Cache
import StoreMount.Proofs.Store.Shadows
import Mathlib.Data.List.Nodup

/-!
# A collection's children in order

The children of a collection are listed by name, each name once, so which children there are settles
the listing. A row of children tells the truth about a time if it is the one that any object with
this modification time has now, and it goes on to do so whatever happens to a store in which every
parent is a collection.
-/
namespace StoreMount.Store

variable {s s' : Store} {k k' : Place}

theorem eq_place_of_listed {place : Place} {o : StoredObject} {e : RawText × ObjectKind}
    (h : (if place.parent? = some k then place.name?.map (·, o.kind) else none) = some e) :
    place = k ++ [.name e.1] := by
  split at h
  · next hup =>
    obtain ⟨c, rfl⟩ := Place.parent?_eq_some hup
    obtain ⟨n, hn, rfl⟩ := Option.map_eq_some_iff.1 h
    cases c with
    | name m => rw [Place.name?_append_singleton] at hn; rw [Option.some.inj hn]
    | root => exact absurd hn (by simp [Place.name?_append_other])
    | here => exact absurd hn (by simp [Place.name?_append_other])
    | up => exact absurd hn (by simp [Place.name?_append_other])
  · cases h

theorem offspring_pairwise_le (s : Store) (k : Place) : (s.offspring k).Pairwise fun a b =>
      a.1.bytes ≤ b.1.bytes := by
  refine (List.pairwise_mergeSort (fun a b c hab hbc => ?_) (fun a b => ?_) _).imp of_decide_eq_true
  · exact decide_eq_true (List.le_trans (of_decide_eq_true hab) (of_decide_eq_true hbc))
  · simpa using List.le_total a.1.bytes b.1.bytes

theorem offspring_pairwise_ne (s : Store) (k : Place) : (s.offspring k).Pairwise fun a b =>
      a.1 ≠ b.1 := by
  rw [offspring, (List.mergeSort_perm _ _).pairwise_iff Ne.symm, List.pairwise_filterMap]
  refine (List.pairwise_map.1 s.objects.nodup).imp fun {e e'} hne a ha b hb hname => hne ?_
  rw [eq_place_of_listed ha, eq_place_of_listed hb, hname]

theorem nodup_names_offspring (s : Store) (k : Place) : ((s.offspring k).map Prod.fst).Nodup :=
  List.pairwise_map.2 (offspring_pairwise_ne s k)

theorem mem_names_offspring {n : RawText} :
    n ∈ (s.offspring k).map Prod.fst ↔ ∃ o, s.objects.get? (k ++ [.name n]) = some o := by
  simp only [List.mem_map, mem_offspring, standing?_eq_some_iff]
  constructor
  · rintro ⟨e, ⟨i, o, ho, -, -⟩, rfl⟩
    exact ⟨o, ho⟩
  · rintro ⟨o, ho⟩
    exact ⟨(n, o.kind), ⟨o.id, o, ho, rfl, rfl⟩, rfl⟩

theorem names_children (s : Store) (k : Place) :
    (s.children k).map ListingEntry.name = ((s.offspring k).map Prod.fst).map RawText.shown := by
  rw [children, List.map_map, List.map_map]
  rfl

theorem offspring_congr (h : ∀ n, s'.standing? (k' ++ [.name n]) = s.standing? (k ++ [.name n])) :
    s'.offspring k' = s.offspring k := by
  have hnodup : ∀ (s : Store) k, (s.offspring k).Nodup := fun s k =>
    List.Nodup.of_map _ (nodup_names_offspring s k)
  have hperm : (s'.offspring k').Perm (s.offspring k) :=
    (List.perm_ext_iff_of_nodup (hnodup s' k') (hnodup s k)).2 fun e => by
      rw [mem_offspring, mem_offspring, h]
  refine hperm.eq_of_pairwise (fun a b ha hb hab hba => ?_) (offspring_pairwise_le s' k')
    (offspring_pairwise_le s k)
  -- one name stands for one object, and so for one entry
  have hname : a.1 = b.1 := congrArg RawText.mk (List.le_antisymm hab hba)
  obtain ⟨i, hi⟩ := mem_offspring.1 ha
  obtain ⟨j, hj⟩ := mem_offspring.1 (hperm.symm.subset hb)
  rw [hname, hj] at hi
  have hkind : a.2 = b.2 := (Prod.mk.inj (Option.some.inj hi)).2.symm
  exact Prod.ext hname hkind

theorem Evolves.apply (hs : s.Rooted) {change : Change} (h : s.apply change = .ok s') :
    s.Evolves s' := by
  obtain he | ⟨users, rfl | ⟨name, -, rfl⟩⟩ := apply_eq_ok h
  · exact .of_effect hs he
  · exact .same (fun _ => rfl) (fun _ => rfl) (Nat.le_refl _)
  · have hinserted := evolves_insertObject (s := { s with users })
      (homeOf s.zone name).place .collection name .empty
    exact ⟨hinserted.clock, hinserted.source⟩

/-- The names and kinds are those of the children that every object with this time has. -/
structure Tells (s : Store) (marker : Instant) (lines : List (RawText × ObjectKind)) : Prop where
  past : marker ≤ s.clock
  offspring : ∀ k o, s.objects.get? k = some o → o.modifiedAt = marker → s.offspring k = lines

theorem tells_offspring (hs : Timed s.objects s.clock) {o : StoredObject}
    (ho : s.objects.get? k = some o) : s.Tells o.modifiedAt (s.offspring k) where
  past := hs.past k o ho
  offspring k' o' ho' he := by rw [hs.apart k' o' k o ho' ho he]

theorem Tells.evolves {marker : Instant} {lines : List (RawText × ObjectKind)}
    (h : s.Tells marker lines) (hs : s.Evolves s') : s'.Tells marker lines where
  past := Nat.le_trans h.past hs.clock
  offspring k' o' ho' he := by
    obtain ⟨k, o, ho, hm, hc⟩ := hs.source k' o' ho' (he ▸ h.past)
    rw [offspring_congr hc]
    exact h.offspring k o ho (hm.trans he)

/-! ## Names that can be read -/

def Legible (s : Store) (k : Place) : Prop := ∀ n ∈ (s.offspring k).map Prod.fst, n.text? ≠ none

/-- Of all children the one under this name alone is shown so. -/
def Unmistakable (s : Store) (k : Place) (t : String) : Prop :=
  ∀ n ∈ (s.offspring k).map Prod.fst, n.shown = t → n = t

theorem Legible.unmistakable (h : s.Legible k) (t : String) : s.Unmistakable k t := by
  rintro n hn rfl
  obtain ⟨t, ht⟩ := Option.ne_none_iff_exists'.1 (h n hn)
  obtain rfl := RawText.text?_eq_some_iff.1 ht
  rw [RawText.shown_ofString]

theorem Textual.legible (h : s.Textual) (k : Place) : s.Legible k := fun n hn => by
  obtain ⟨o, ho⟩ := mem_names_offspring.1 hn
  exact h k n (by simp [standing?, ho])

theorem contains_iff {n : RawText} :
    s.objects.contains (k ++ [.name n]) = true ↔ n ∈ (s.offspring k).map Prod.fst := by
  rw [mem_names_offspring, Table.contains, Option.isSome_iff_exists]

theorem Unmistakable.count {t : String} (h : s.Unmistakable k t) :
    ((s.children k).map ListingEntry.name).count t
      = if s.objects.contains (k ++ [.name t]) then 1 else 0 := by
  have hname : ∀ n ∈ (s.offspring k).map Prod.fst, (n.shown == t) = true ↔
      (n == (t : RawText)) = true := by
    intro n hn
    rw [beq_iff_eq, beq_iff_eq]
    exact ⟨h n hn, fun hnt => hnt ▸ RawText.shown_ofString t⟩
  rw [names_children, List.count, List.countP_map]
  refine (List.countP_congr hname).trans ((nodup_names_offspring s k).count.trans ?_)
  exact if_congr contains_iff.symm rfl rfl

end StoreMount.Store
