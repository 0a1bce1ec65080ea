import StoreMount.Registry
import StoreMount.Proofs.Path
import Mathlib.Data.List.Nodup
import Mathlib.Data.List.Perm.Subperm

/-!
# The two tables of the registry are inverse

A registry is in order when a place leads to a handle exactly if that handle leads back to the
place. One pair put in where both sides are free, and pairs taken out on both sides, keep this; all
operations are made of these two steps. The texts that the tables keep play no part beyond pointing
to the right place, so entering a pair again under another spelling changes nothing.
-/
namespace StoreMount.Registry

structure Inverse (r : Registry) : Prop where
  leads : ∀ k q h, r.byPlace.get? k = some (q, h) → q.place = k ∧ ∃ p,
    r.pathOf? h = some p ∧ p.place = k
  leadsBack : ∀ h p, r.pathOf? h = some p → ∃ q, r.byPlace.get? p.place = some (q, h)

variable {r : Registry}

theorem handleOf?_eq_some_iff {p : Path} {h : Handle} :
    r.handleOf? p = some h ↔ ∃ q, r.byPlace.get? p.place = some (q, h) := by
  simp [handleOf?]

theorem Inverse.handle_iff (hr : r.Inverse) (h : Handle) (p : Path) :
    r.handleOf? p = some h ↔ ∃ q, r.pathOf? h = some q ∧ q.place = p.place := by
  rw [handleOf?_eq_some_iff]
  constructor
  · rintro ⟨q, hq⟩
    exact (hr.leads _ _ _ hq).2
  · rintro ⟨q, hq, hp⟩
    exact hp ▸ hr.leadsBack h q hq

theorem Inverse.handleOf?_of_pathOf? (hr : r.Inverse) {h : Handle} {p : Path}
    (hp : r.pathOf? h = some p) :
    r.handleOf? p = some h := (hr.handle_iff h p).2 ⟨p, hp, rfl⟩

theorem Inverse.handle_unique (hr : r.Inverse) {h h' : Handle} {p p' : Path}
    (hp : r.pathOf? h = some p) (hp' : r.pathOf? h' = some p')
    (he : p.place = p'.place) : h = h' := by
  have h₁ := hr.handleOf?_of_pathOf? hp
  have h₂ := (hr.handle_iff h' p).2 ⟨p', hp', he.symm⟩
  exact Option.some.inj (h₁.symm.trans h₂)

theorem Inverse.size_eq (hr : r.Inverse) : r.byPlace.size = r.byHandle.size := by
  have hkeys : (r.byPlace.entries.map fun e => e.2.2).Perm r.byHandle.keys := by
    refine (List.perm_ext_iff_of_nodup ?_ r.byHandle.nodup).2 fun h => ?_
    · refine List.Nodup.map_on ?_ (r.byPlace.nodup.of_map _)
      intro e he e' he' hh
      obtain ⟨-, p, hp, hk⟩ := hr.leads e.1 e.2.1 e.2.2 (Table.get?_eq_some_iff.2 he)
      obtain ⟨-, p', hp', hk'⟩ := hr.leads e'.1 e'.2.1 e'.2.2 (Table.get?_eq_some_iff.2 he')
      obtain rfl : p = p' := Option.some.inj (hp.symm.trans (hh ▸ hp'))
      have hv := Table.get?_eq_some_iff.2 he
      rw [hk.symm.trans hk', Table.get?_eq_some_iff.2 he'] at hv
      exact Prod.ext (hk.symm.trans hk') (Option.some.inj hv).symm
    · rw [List.mem_map]
      constructor
      · rintro ⟨e, he, rfl⟩
        obtain ⟨-, p, hp, -⟩ := hr.leads e.1 e.2.1 e.2.2 (Table.get?_eq_some_iff.2 he)
        exact List.mem_map.2 ⟨_, Table.get?_eq_some_iff.1 hp, rfl⟩
      · intro h
        obtain ⟨e, he, rfl⟩ := List.mem_map.1 h
        obtain ⟨q, hq⟩ := hr.leadsBack e.1 e.2 (Table.get?_eq_some_iff.2 he)
        exact ⟨_, Table.get?_eq_some_iff.1 hq, rfl⟩
  simpa [Table.size, Table.keys] using hkeys.length_eq

theorem Inverse.congr {r' : Registry} (hr : r.Inverse)
    (hp : ∀ k, r'.byPlace.get? k = r.byPlace.get? k) (hh : ∀ h, r'.pathOf? h = r.pathOf? h) :
    r'.Inverse where
  leads k q h hk := by
    rw [hp] at hk
    simpa [hh] using hr.leads k q h hk
  leadsBack h p hpath := by
    rw [hh] at hpath
    simpa [hp] using hr.leadsBack h p hpath

theorem inverse_empty : empty.Inverse where
  leads k q h hk := by simp [empty] at hk
  leadsBack h p hp := by simp [empty, pathOf?] at hp

theorem Inverse.insert (hr : r.Inverse) {h : Handle} {p q : Path} (hq : q.place = p.place)
    (hh : ∀ p', r.pathOf? h = some p' → p'.place = p.place)
    (hp : ∀ h', r.handleOf? p = some h' → h' = h) (n : Handle) :
    Inverse ⟨r.byPlace.insert p.place (q, h), r.byHandle.insert h p, n⟩ where
  leads k q' h' hk := by
    rw [pathOf?, Table.get?_insert]
    rw [Table.get?_insert] at hk
    split at hk
    · next he =>
      obtain ⟨rfl, rfl⟩ := Prod.mk.inj (Option.some.inj hk)
      exact ⟨hq.trans he.symm, p, if_pos rfl, he.symm⟩
    · next he =>
      obtain ⟨hq', p', hp', hk'⟩ := hr.leads k q' h' hk
      have hne : h' ≠ h := fun e => he (hk'.symm.trans (hh p' (e ▸ hp')))
      exact ⟨hq', p', by rw [if_neg hne]; exact hp', hk'⟩
  leadsBack h' p' hp' := by
    rw [Table.get?_insert]
    rw [pathOf?, Table.get?_insert] at hp'
    split at hp'
    · next he =>
      obtain rfl := Option.some.inj hp'
      exact ⟨q, by rw [if_pos rfl, he]⟩
    · next he =>
      have hne : p'.place ≠ p.place := fun e => he (hp h' ((hr.handle_iff h' p).2 ⟨p', hp', e⟩))
      rw [if_neg hne]
      exact hr.leadsBack h' p' hp'

theorem enterPlace_eq (t : Table Place (Path × Handle)) (p : Path) (h : Handle) :
    ∃ q, enterPlace t p h = t.insert p.place (q, h) ∧
      (q = p ∨ ∃ h', t.get? p.place = some (q, h')) := by
  refine ⟨_, rfl, ?_⟩
  cases hq : t.get? p.place with
  | none => exact .inl rfl
  | some e => exact .inr ⟨e.2, rfl⟩

theorem Inverse.enter (hr : r.Inverse) {h : Handle} {p : Path}
    (hh : ∀ p', r.pathOf? h = some p' → p'.place = p.place)
    (hp : ∀ h', r.handleOf? p = some h' → h' = h) (n : Handle) :
    Inverse ⟨enterPlace r.byPlace p h, r.byHandle.insert h p, n⟩ := by
  obtain ⟨q, hq, hplace⟩ := enterPlace_eq r.byPlace p h
  rw [hq]
  refine hr.insert ?_ hh hp n
  rcases hplace with rfl | ⟨h', hq'⟩
  · rfl
  · exact (hr.leads _ _ _ hq').1

/-! ## Taking pairs out -/

theorem get?_byPlace_removePairs (pairs : List (Path × Handle)) (k : Place) :
    (r.removePairs pairs).byPlace.get? k =
      if k ∈ pairs.map (fun e => e.1.place) then none else r.byPlace.get? k := by
  induction pairs generalizing r with
  | nil => simp [removePairs]
  | cons e es ih =>
    rw [removePairs, List.foldl_cons, ← removePairs, ih, Table.get?_erase]
    simp only [List.map_cons, List.mem_cons]
    by_cases hk : k = e.1.place <;> simp only [hk, true_or, false_or, if_true, if_false, ite_self]

theorem pathOf?_removePairs (pairs : List (Path × Handle)) (h : Handle) :
    (r.removePairs pairs).pathOf? h = if h ∈ pairs.map Prod.snd then none else r.pathOf? h := by
  induction pairs generalizing r with
  | nil => simp [removePairs]
  | cons e es ih =>
    rw [removePairs, List.foldl_cons, ← removePairs, ih, pathOf?, Table.get?_erase, pathOf?]
    simp only [List.map_cons, List.mem_cons]
    by_cases hk : h = e.2 <;> simp only [hk, true_or, false_or, if_true, if_false, ite_self]

@[simp] theorem next_removePairs (pairs : List (Path × Handle)) :
    (r.removePairs pairs).next = r.next := by
  induction pairs generalizing r with
  | nil => rfl
  | cons e es ih => exact ih

theorem Inverse.removePairs (hr : r.Inverse) {pairs : List (Path × Handle)}
    (hp : ∀ e ∈ pairs, r.handleOf? e.1 = some e.2) : (r.removePairs pairs).Inverse := by
  -- the pairs are bound, so the same ones are freed on both sides
  have hiff : ∀ h p, r.pathOf? h = some p →
      (h ∈ pairs.map Prod.snd ↔ p.place ∈ pairs.map fun e => e.1.place) := by
    intro h p hpath
    constructor
    · intro hm
      obtain ⟨e, he, rfl⟩ := List.mem_map.1 hm
      obtain ⟨q, hq, hplace⟩ := (hr.handle_iff _ _).1 (hp e he)
      obtain rfl : q = p := Option.some.inj (hq.symm.trans hpath)
      exact List.mem_map.2 ⟨e, he, hplace.symm⟩
    · intro hm
      obtain ⟨e, he, hplace⟩ := List.mem_map.1 hm
      obtain ⟨q, hq, hq'⟩ := (hr.handle_iff _ _).1 (hp e he)
      exact List.mem_map.2 ⟨e, he, hr.handle_unique hq hpath (hq'.trans hplace)⟩
  constructor
  · intro k q h hk
    rw [get?_byPlace_removePairs] at hk
    split at hk
    · cases hk
    · next hn =>
      obtain ⟨hq, p, hpath, rfl⟩ := hr.leads k q h hk
      have hkept : (r.removePairs pairs).pathOf? h = some p := by
        rw [pathOf?_removePairs, if_neg fun hm => hn ((hiff h p hpath).1 hm), hpath]
      exact ⟨hq, p, hkept, rfl⟩
  · intro h p hpath
    rw [pathOf?_removePairs] at hpath
    split at hpath
    · cases hpath
    · next hn =>
      obtain ⟨q, hq⟩ := hr.leadsBack h p hpath
      exact ⟨q, by rw [get?_byPlace_removePairs, if_neg fun hm => hn ((hiff h p hpath).2 hm), hq]⟩

end StoreMount.Registry
