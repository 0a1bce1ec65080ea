import StoreMount.Proofs.Store.Times

/-!
# A listing and the time it was made at

A change gives new times to the objects whose children it touches. So an object that still carries a
time from before a change, wherever it stands by now, has the children it had then. This is what
lets a listing be kept together with a modification time and be shown again whenever that time is
met: it is right about every object that carries the time, in the store it was made from and in all
that come after.
-/
namespace StoreMount.Store

variable {s s' s'' : Store} {k : Place}

theorem mem_offspring {e : RawText × ObjectKind} :
    e ∈ s.offspring k ↔ ∃ i, s.standing? (k ++ [.name e.1]) = some (i, e.2) := by
  simp only [offspring, List.mem_mergeSort, List.mem_filterMap, standing?_eq_some_iff]
  constructor
  · rintro ⟨⟨k', o⟩, he, h⟩
    split at h
    · next hup =>
      obtain ⟨c, rfl⟩ := Place.parent?_eq_some hup
      obtain ⟨n, hn, rfl⟩ := Option.map_eq_some_iff.1 h
      cases c with
      | name m =>
        rw [Place.name?_append_singleton] at hn
        obtain rfl := Option.some.inj hn
        exact ⟨o.id, o, Table.get?_eq_some_iff.2 he, rfl, rfl⟩
      | root => exact absurd hn (by simp [Place.name?_append_other])
      | here => exact absurd hn (by simp [Place.name?_append_other])
      | up => exact absurd hn (by simp [Place.name?_append_other])
    · cases h
  · rintro ⟨i, o, ho, -, hkind⟩
    refine ⟨_, Table.get?_eq_some_iff.1 ho, ?_⟩
    rw [if_pos (Place.parent?_append_singleton (.inr (by simp))), Place.name?_append_singleton,
      hkind]
    rfl

theorem mem_children {e : ListingEntry} :
    e ∈ s.children k ↔ ∃ n i, n.shown = e.name ∧
      s.standing? (k ++ [.name n]) = some (i, e.kind) := by
  rw [children, List.mem_map]
  constructor
  · rintro ⟨⟨n, kind⟩, he, rfl⟩
    obtain ⟨i, hi⟩ := mem_offspring.1 he
    exact ⟨n, i, rfl, hi⟩
  · rintro ⟨n, i, hn, hi⟩
    exact ⟨(n, e.kind), mem_offspring.2 ⟨i, hi⟩, by rw [hn]⟩

theorem Spelled.plain_of_mem_children (hs : s.Spelled) {e : ListingEntry} (he : e ∈ s.children k) :
    Spelling.Plain e.name := by
  obtain ⟨n, i, hn, hi⟩ := mem_children.1 he
  obtain ⟨p, hp⟩ := hs.of_standing hi
  have hplain : Spelling.Plain n := Path.plain_of_mem_place (p := p) (by simp [hp])
  exact hn ▸ hplain.shown

theorem list_eq_ok {user : String} {path : Path} {lines : List ListingEntry}
    (h : s.list user path = .ok lines) :
    s.children path.place = lines := by
  obtain ⟨o, -, h⟩ := bind_eq_ok h
  obtain ⟨-, h⟩ := guard_eq_ok h
  obtain ⟨_, -, h⟩ := bind_eq_ok h
  exact Except.ok.inj h

/-! ## Objects that no change has stamped -/

/-- Every object with a time that the former clock had reached has a counterpart from then, with the
same children. -/
structure Evolves (s s' : Store) : Prop where
  clock : s.clock ≤ s'.clock
  source : ∀ k' o', s'.objects.get? k' = some o' → o'.modifiedAt ≤ s.clock →
    ∃ k o, s.objects.get? k = some o ∧ o.modifiedAt = o'.modifiedAt ∧
      ∀ n, s'.standing? (k' ++ [.name n]) = s.standing? (k ++ [.name n])

theorem Evolves.same
    (h : ∀ k, (s'.objects.get? k).map (·.modifiedAt) = (s.objects.get? k).map (·.modifiedAt))
    (hs : ∀ k, s'.standing? k = s.standing? k) (hc : s.clock ≤ s'.clock) : s.Evolves s' where
  clock := hc
  source k o' ho' _ := by
    have hk := h k
    rw [ho', Option.map_some] at hk
    obtain ⟨o, ho, he⟩ := Option.map_eq_some_iff.1 hk.symm
    exact ⟨k, o, ho, he, fun n => hs _⟩

theorem stamped_early {up : Option Place} {now : Instant} {o : StoredObject}
    (h : (stamped up now k o).modifiedAt < now) : up ≠ some k ∧ stamped up now k o = o := by
  have hup : up ≠ some k := fun he => by simp [stamped, he] at h
  exact ⟨hup, by rw [stamped, if_neg hup]⟩

theorem ne_of_not_parent {place : Place} {n : RawText} (h : place.parent? ≠ some k) :
    k ++ [.name n] ≠ place :=
  fun he => h (he ▸ Place.parent?_append_singleton (.inr (by simp)))

theorem evolves_insertObject (place : Place) (kind : ObjectKind) (owner : String)
    (contents : Contents) :
    s.Evolves (s.insertObject place kind owner contents) where
  clock := by simp
  source k o' ho' ht := by
    rw [get?_insertObject] at ho'
    obtain ⟨o, ho, rfl⟩ := Option.map_eq_some_iff.1 ho'
    obtain ⟨hup, he⟩ := stamped_early (Nat.lt_of_le_of_lt ht (Nat.lt_add_of_pos_right (by decide)))
    rw [he] at ht ⊢
    split at ho
    · obtain rfl := Option.some.inj ho
      exact absurd ht (Nat.not_succ_le_self _)
    · exact ⟨k, o, ho, rfl, fun n => by rw [standing?_insertObject, if_neg (ne_of_not_parent hup)]⟩

theorem evolves_removed (place : Place) : s.Evolves (s.removed place) where
  clock := by simp
  source k o' ho' ht := by
    rw [get?_removed] at ho'
    obtain ⟨o, ho, rfl⟩ := Option.map_eq_some_iff.1 ho'
    obtain ⟨hup, he⟩ := stamped_early (Nat.lt_succ_of_le ht)
    rw [he]
    split at ho
    · cases ho
    · exact ⟨k, o, ho, rfl, fun n => by rw [standing?_removed, if_neg (ne_of_not_parent hup)]⟩

theorem restamped_early {source target : Place} {o : StoredObject}
    (h : (s.restamped source target k o).modifiedAt ≤ s.clock) :
    source.parent? ≠ some k ∧ target.parent? ≠ some k ∧ s.restamped source target k o = o := by
  unfold restamped at h ⊢
  obtain ⟨ht, he⟩ := stamped_early (Nat.lt_of_le_of_lt h (Nat.lt_add_of_pos_right (by decide)))
  rw [he] at h ⊢
  obtain ⟨hs, he'⟩ := stamped_early (Nat.lt_succ_of_le h)
  exact ⟨hs, ht, he'⟩

theorem evolves_renamed (hs : s.Rooted) {source target : Place} (hm : s.Movable source target) :
    s.Evolves (s.renamed source target) where
  clock := by
    rw [renamed, clock_touchParent, clock_touchParent]
    exact Nat.le_add_right s.clock 2
  source k o' ho' ht := by
    by_cases hk : target <+: k
    · -- it has moved with all its children
      obtain ⟨r, rfl⟩ := hk
      rw [hm.get?_renamed_target hs] at ho'
      obtain ⟨o, ho, rfl⟩ := Option.map_eq_some_iff.1 ho'
      obtain ⟨-, -, he⟩ := restamped_early ht
      refine ⟨source ++ r, o, ho, by rw [he], fun n => ?_⟩
      rw [List.append_assoc, hm.standing?_renamed_target hs, List.append_assoc]
    · rw [hm.get?_renamed_else hs hk] at ho'
      split at ho'
      · cases ho'
      · next hks =>
        obtain ⟨o, ho, rfl⟩ := Option.map_eq_some_iff.1 ho'
        obtain ⟨hsup, htup, he⟩ := restamped_early ht
        refine ⟨k, o, ho, by rw [he], fun n => ?_⟩
        -- a child that came or went would have left the parent stamped
        have hnt : ¬target <+: k ++ [.name n] := fun h =>
          (List.prefix_concat_iff.1 h).elim (fun he => ne_of_not_parent htup he.symm) hk
        have hns : ¬source <+: k ++ [.name n] := fun h =>
          (List.prefix_concat_iff.1 h).elim (fun he => ne_of_not_parent hsup he.symm) hks
        rw [hm.standing?_renamed_else hs hnt, if_neg hns]

theorem Evolves.of_effect (hs : s.Rooted) (h : s.Effect s') : s.Evolves s' := by
  cases h with
  | rewritten place contents =>
    refine ⟨Nat.le_succ _, fun k o' ho' ht => ?_⟩
    rw [get?_rewritten] at ho'
    obtain ⟨o, ho, rfl⟩ := Option.map_eq_some_iff.1 ho'
    split at ht
    · exact absurd ht (Nat.not_succ_le_self _)
    · next hk => exact ⟨k, o, ho, by rw [if_neg hk], fun n => standing?_rewritten ..⟩
  | regranted place f =>
    refine .same (fun k => ?_) (fun k => standing?_changeAcl ..) (Nat.le_refl _)
    rw [get?_changeAcl, Option.map_map]
    exact congrArg (Option.map · _) (funext fun o => by simp only [Function.comp]; split <;> rfl)
  | inserted path kind owner contents vacant => exact evolves_insertObject ..
  | removed place childless => exact evolves_removed place
  | renamed source target movable => exact evolves_renamed hs movable

/-! ## Listings that stay right -/

structure Shows (s : Store) (marker : Instant) (lines : List ListingEntry) : Prop where
  past : marker ≤ s.clock
  lines : ∀ k o, s.objects.get? k = some o → o.modifiedAt = marker →
    ∀ e, e ∈ lines ↔ ∃ n i, n.shown = e.name ∧ s.standing? (k ++ [.name n]) = some (i, e.kind)

theorem shows_children (hs : Timed s.objects s.clock) {o : StoredObject}
    (ho : s.objects.get? k = some o) :
    s.Shows o.modifiedAt (s.children k) where
  past := hs.past k o ho
  lines k' o' ho' he e := by
    obtain rfl := hs.apart k' o' k o ho' ho he
    exact mem_children

theorem Shows.evolves {marker : Instant} {lines : List ListingEntry} (h : s.Shows marker lines)
    (hs : s.Evolves s') :
    s'.Shows marker lines where
  past := Nat.le_trans h.past hs.clock
  lines k' o' ho' he e := by
    obtain ⟨k, o, ho, hm, hc⟩ := hs.source k' o' ho' (he ▸ h.past)
    simp only [hc]
    exact h.lines k o ho (hm.trans he) e

end StoreMount.Store
