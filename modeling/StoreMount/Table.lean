/-!
# Finite tables

A table binds each key at most once. Binding a key again replaces its value; the order in which
pairs are kept carries no meaning, so whoever shows a table sorts it. Every operation is described
by what `get?` finds afterwards.
-/
namespace StoreMount

structure Table (κ : Type) (α : Type) where
  entries : List (κ × α)
  nodup : (entries.map Prod.fst).Nodup
deriving Repr

namespace Table
variable {κ α : Type}

def empty : Table κ α := ⟨[], by simp⟩

instance : Inhabited (Table κ α) := ⟨empty⟩

def size (t : Table κ α) : Nat := t.entries.length

def keys (t : Table κ α) : List κ := t.entries.map Prod.fst
def values (t : Table κ α) : List α := t.entries.map Prod.snd

def filter (keep : κ → α → Bool) (t : Table κ α) : Table κ α :=
  ⟨t.entries.filter fun e => keep e.1 e.2, t.nodup.sublist (List.filter_sublist.map _)⟩

variable [DecidableEq κ]

def get? (t : Table κ α) (k : κ) : Option α :=
  (t.entries.find? fun e => decide (e.1 = k)).map Prod.snd

def contains (t : Table κ α) (k : κ) : Bool := (t.get? k).isSome

def erase (t : Table κ α) (k : κ) : Table κ α := t.filter fun k' _ => decide (k' ≠ k)

/-- A key that is bound keeps its place in the row of pairs. -/
def insert (t : Table κ α) (k : κ) (v : α) : Table κ α :=
  if h : k ∈ t.keys then
    ⟨t.entries.map fun e => if e.1 = k then (k, v) else e, by
      have he : (t.entries.map fun e => if e.1 = k then (k, v) else e).map Prod.fst = t.keys := by
        rw [List.map_map]
        exact List.map_congr_left fun e _ => by
          by_cases hk : e.1 = k <;> simp [hk]
      exact he ▸ t.nodup⟩
  else ⟨(k, v) :: t.entries, List.nodup_cons.2 ⟨h, t.nodup⟩⟩

def adjust (t : Table κ α) (k : κ) (f : α → α) : Table κ α :=
  match t.get? k with
  | none => t
  | some v => t.insert k (f v)

theorem get?_eq_some_iff {t : Table κ α} {k : κ} {v : α} :
    t.get? k = some v ↔ (k, v) ∈ t.entries := by
  obtain ⟨es, hn⟩ := t
  simp only [get?]
  induction es with
  | nil => simp
  | cons e es ih =>
    simp only [List.map_cons, List.nodup_cons] at hn
    by_cases he : e.1 = k
    · simp only [List.find?_cons, he, decide_true, Option.map_some, Option.some.injEq,
        List.mem_cons]
      constructor
      · rintro rfl
        exact .inl (by rw [← he])
      · rintro (h | h)
        · rw [← h]
        · exact absurd (List.mem_map.2 ⟨_, h, rfl⟩) (he ▸ hn.1)
    · simp only [List.find?_cons, he, decide_false, ih hn.2, List.mem_cons]
      constructor
      · exact .inr
      · rintro (h | h)
        · exact absurd (by rw [← h]) he
        · exact h

theorem get?_filter (keep : κ → α → Bool) (t : Table κ α) (k : κ) :
    (t.filter keep).get? k = (t.get? k).filter (keep k) := by
  ext v
  rw [get?_eq_some_iff, Option.filter_eq_some_iff, get?_eq_some_iff]
  simp [filter]

@[simp] theorem get?_empty (k : κ) : (empty : Table κ α).get? k = none := rfl

@[simp] theorem get?_erase_self (t : Table κ α) (k : κ) : (t.erase k).get? k = none := by
  simp [erase, get?_filter]

theorem get?_erase_ne (t : Table κ α) {k k' : κ} (h : k' ≠ k) :
    (t.erase k).get? k' = t.get? k' := by
  cases e : t.get? k' <;> simp [erase, get?_filter, h, e]

theorem get?_eq_none_iff {t : Table κ α} {k : κ} : t.get? k = none ↔ k ∉ t.keys := by
  rw [Option.eq_none_iff_forall_ne_some]
  simp only [ne_eq, get?_eq_some_iff, keys, List.mem_map, not_exists, not_and]
  constructor
  · rintro h e he rfl
    exact h e.2 he
  · intro h v hv
    exact h _ hv rfl

theorem get?_insert (t : Table κ α) (k k' : κ) (v : α) :
    (t.insert k v).get? k' = if k' = k then some v else t.get? k' := by
  ext w
  rw [get?_eq_some_iff]
  by_cases h : k ∈ t.keys
  · simp only [insert, dif_pos h, List.mem_map]
    obtain ⟨e, he, hek⟩ := List.mem_map.1 h
    constructor
    · rintro ⟨e', he', heq⟩
      by_cases hk : e'.1 = k
      · rw [if_pos hk] at heq
        obtain ⟨rfl, rfl⟩ := Prod.mk.inj heq
        rw [if_pos rfl]
      · rw [if_neg hk] at heq
        subst heq
        rw [if_neg hk]
        exact get?_eq_some_iff.2 he'
    · split
      · next hk =>
        rintro ⟨⟩
        exact ⟨e, he, by rw [if_pos hek, hk]⟩
      · next hk =>
        intro hw
        exact ⟨(k', w), get?_eq_some_iff.1 hw, by rw [if_neg hk]⟩
  · simp only [insert, dif_neg h, List.mem_cons, Prod.mk.injEq]
    split
    · next hk =>
      subst hk
      have hn : (k', w) ∉ t.entries := fun hm => h (List.mem_map.2 ⟨_, hm, rfl⟩)
      simp [hn, eq_comm]
    · next hk => simp [hk, get?_eq_some_iff]

@[simp] theorem get?_insert_self (t : Table κ α) (k : κ) (v : α) :
    (t.insert k v).get? k = some v := by
  simp [get?_insert]

theorem get?_insert_ne (t : Table κ α) {k k' : κ} (h : k' ≠ k) (v : α) :
    (t.insert k v).get? k' = t.get? k' := by
  simp [get?_insert, h]

theorem get?_erase (t : Table κ α) (k k' : κ) :
    (t.erase k).get? k' = if k' = k then none else t.get? k' := by
  split
  · next h => rw [h, get?_erase_self]
  · next h => exact get?_erase_ne t h

section EqSome
variable {t : Table κ α} {k k' : κ} {v w : α}

theorem get?_insert_eq_some_iff : (t.insert k v).get? k' = some w ↔
      k' = k ∧ v = w ∨ k' ≠ k ∧ t.get? k' = some w := by
  rw [get?_insert]
  by_cases h : k' = k <;> simp [h]

theorem get?_erase_eq_some_iff : (t.erase k).get? k' = some w ↔ k' ≠ k ∧ t.get? k' = some w := by
  rw [get?_erase]
  by_cases h : k' = k <;> simp [h]

theorem of_get?_moved {target : κ} (h : ((t.erase k).insert target v).get? k' = some w) :
    k' = target ∧ v = w ∨ k' ≠ k ∧ t.get? k' = some w :=
  (get?_insert_eq_some_iff.1 h).imp_right fun h => get?_erase_eq_some_iff.1 h.2

end EqSome

theorem get?_adjust (t : Table κ α) (k k' : κ) (f : α → α) :
    (t.adjust k f).get? k' = if k' = k then (t.get? k).map f else t.get? k' := by
  unfold adjust
  cases h : t.get? k with
  | none => split <;> simp_all
  | some v => simp [get?_insert]

theorem insert_insert (t : Table κ α) (k : κ) (v w : α) :
    (t.insert k v).insert k w = t.insert k w := by
  have hk' : k ∈ (t.insert k v).keys := Decidable.not_not.1 fun hn => by
    simp [← get?_eq_none_iff] at hn
  by_cases hk : k ∈ t.keys
  · have hmap : (t.entries.map fun e => if e.1 = k then (k, v) else e).map
        (fun e => if e.1 = k then (k, w) else e) =
        t.entries.map fun e => if e.1 = k then (k, w) else e := by
      rw [List.map_map]
      refine List.map_congr_left fun e _ => ?_
      by_cases hek : e.1 = k <;> simp [hek]
    rw [insert, dif_pos hk']
    simp only [insert, dif_pos hk, mk.injEq]
    exact hmap
  · have hmap : t.entries.map (fun e => if e.1 = k then (k, w) else e) = t.entries := by
      refine (List.map_congr_left fun e he => if_neg fun hek => hk ?_).trans (List.map_id t.entries)
      exact List.mem_map.2 ⟨e, he, hek⟩
    rw [insert, dif_pos hk']
    simp only [insert, dif_neg hk, List.map_cons, if_true, mk.injEq]
    rw [hmap]

theorem insert_of_get? {t : Table κ α} {k : κ} {v : α} (h : t.get? k = some v) :
    t.insert k v = t := by
  have hk : k ∈ t.keys := List.mem_map.2 ⟨_, get?_eq_some_iff.1 h, rfl⟩
  have hid : (t.entries.map fun e => if e.1 = k then (k, v) else e) = t.entries := by
    refine (List.map_congr_left fun e he => ?_).trans (List.map_id t.entries)
    by_cases hek : e.1 = k
    · have hv : t.get? k = some e.2 := get?_eq_some_iff.2 (by rw [← hek]; exact he)
      rw [if_pos hek, Option.some.inj (h.symm.trans hv), ← hek]
      rfl
    · rw [if_neg hek]
      rfl
  obtain ⟨es, hn⟩ := t
  simp only [insert, dif_pos hk, mk.injEq]
  exact hid

theorem insert_insert_of_get? {t : Table κ α} {k : κ} {w : α} (h : t.get? k = some w) (v : α) :
    (t.insert k v).insert k w = t := by
  rw [insert_insert, insert_of_get? h]

theorem adjust_adjust (t : Table κ α) (k : κ) (f g : α → α) :
    (t.adjust k f).adjust k g = t.adjust k (g ∘ f) := by
  cases h : t.get? k with
  | none => simp [adjust, h]
  | some v => simp [adjust, h, insert_insert]

theorem adjust_of_get? {t : Table κ α} {k : κ} {v : α} {f : α → α} (h : t.get? k = some v)
    (hf : f v = v) :
    t.adjust k f = t := by
  rw [adjust, h]
  dsimp only
  rw [hf, insert_of_get? h]

theorem erase_insert_of_get? {t : Table κ α} {k : κ} (h : t.get? k = none) (v : α) :
    (t.insert k v).erase k = t := by
  have hk : k ∉ t.keys := get?_eq_none_iff.1 h
  have hid : t.entries.filter (fun e => decide (e.1 ≠ k)) = t.entries :=
    List.filter_eq_self.2 fun e he => decide_eq_true fun hek => hk (List.mem_map.2 ⟨e, he, hek⟩)
  obtain ⟨es, hn⟩ := t
  simp only [insert, dif_neg hk, erase, filter, mk.injEq]
  simpa using hid

theorem mem_keys_erase {t : Table κ α} {k k' : κ} (h : k' ≠ k) :
    k' ∈ (t.erase k).keys ↔ k' ∈ t.keys := by
  rw [← Decidable.not_iff_not, ← get?_eq_none_iff, ← get?_eq_none_iff, get?_erase_ne t h]

theorem erase_insert_comm (t : Table κ α) {k k' : κ} (h : k' ≠ k) (v : α) :
    (t.insert k' v).erase k = (t.erase k).insert k' v := by
  by_cases hk : k' ∈ t.keys
  · have hrow : (t.entries.map fun e => if e.1 = k' then (k', v) else e).filter
        (fun e => decide (e.1 ≠ k)) =
        (t.entries.filter fun e => decide (e.1 ≠ k)).map fun e =>
          if e.1 = k' then (k', v) else e := by
      rw [List.filter_map]
      refine congrArg _ (List.filter_congr fun e _ => ?_)
      by_cases he : e.1 = k' <;> simp [he]
    rw [insert, dif_pos hk, insert, dif_pos ((mem_keys_erase h).2 hk)]
    simp only [erase, filter, mk.injEq]
    exact hrow
  · rw [insert, dif_neg hk, insert, dif_neg fun hm => hk ((mem_keys_erase h).1 hm)]
    simp only [erase, filter, List.filter_cons, ne_eq, h, not_false_eq_true, decide_true, if_true]

end Table
end StoreMount
