import StoreMount.Proofs.Store.Objects
import Mathlib.Data.List.Induction

/-!
# The store is a tree

A store is rooted when the parent of every object is an existing collection. Sessions keep it so:
what they create has been given a parent, what they remove has no children, and what they move goes,
with everything below it, to a place that is free. In a rooted store nothing stands below a place
where nothing stands, which is why moving a subtree is an exact relocation. Direct administration
can break it, since the home of a new account is made without looking for its parent.
-/
namespace StoreMount.Store

def Rooted (s : Store) : Prop :=
  ∀ k o up, s.objects.get? k = some o → k.parent? = some up →
    ∃ o', s.objects.get? up = some o' ∧ o'.kind.isCollection = true

def Spelled (s : Store) : Prop := ∀ k o, s.objects.get? k = some o → ∃ p : Path, p.place = k

variable {s s' : Store} {k : Place}

theorem Rooted.get?_append (hs : s.Rooted) (hk : k ≠ []) (hn : s.objects.get? k = none)
    (r : Place) :
    s.objects.get? (k ++ r) = none := by
  induction r using List.reverseRecOn with
  | nil => rw [List.append_nil, hn]
  | append_singleton r c ih =>
    rw [Option.eq_none_iff_forall_ne_some]
    intro o ho
    rw [← List.append_assoc] at ho
    obtain ⟨o', ho', -⟩ := hs _ o (k ++ r) ho (Place.parent?_append_singleton (.inl (by simp [hk])))
    rw [ih] at ho'
    cases ho'

theorem get?_of_hasChildren (h : s.hasChildren k = false) {k' : Place} {o : StoredObject}
    (ho : s.objects.get? k' = some o) : k'.parent? ≠ some k := by
  intro hp
  have hmem : k' ∈ s.objects.keys := List.mem_map.2 ⟨_, Table.get?_eq_some_iff.1 ho, rfl⟩
  rw [hasChildren, List.any_eq_false] at h
  exact h k' hmem (by simpa using hp)

/-! ## Renaming -/

variable {source target : Place}

theorem Movable.target_ne_nil (hm : s.Movable source target) : target ≠ [] := by
  obtain ⟨up, -, hup, -⟩ := hm.home
  rintro rfl
  cases hup

theorem Movable.get?_target (hm : s.Movable source target) (hs : s.Rooted) (r : Place) :
    s.objects.get? (target ++ r) = none :=
  hs.get?_append hm.target_ne_nil hm.free r

theorem Movable.apart (hm : s.Movable source target) (hs : s.Rooted) (hk : source <+: k) :
    ¬target <+: k := by
  intro ht
  rcases List.prefix_or_prefix_of_prefix hk ht with h | ⟨r, hr⟩
  · exact hm.outside h
  · obtain ⟨o, ho⟩ := hm.present
    rw [← hr, hm.get?_target hs] at ho
    cases ho

theorem Movable.get?_relocate (hm : s.Movable source target) (hs : s.Rooted) :
    (∀ r, (relocate s.objects source target (s.subtree source)).get? (target ++ r) =
      s.objects.get? (source ++ r)) ∧
    ∀ k, ¬target <+: k → (relocate s.objects source target (s.subtree source)).get? k =
      if source <+: k then none else s.objects.get? k := by
  obtain ⟨hbelow, helse⟩ := Store.get?_relocate s.objects
    (fun k hk => ((mem_subtree s source k).1 hk).1) (fun k hk => hm.apart hs hk)
  refine ⟨fun r => ?_, fun k hk => ?_⟩
  · rw [hbelow, hm.get?_target hs]
    split
    · rw [Option.or_none]
    · next hn =>
      rw [mem_subtree] at hn
      exact (Table.get?_eq_none_iff.2 fun hk => hn ⟨List.prefix_append .., hk⟩).symm
  · rw [helse k hk]
    by_cases hp : source <+: k
    · rw [if_pos hp]
      split
      · rfl
      · next hn => exact Table.get?_eq_none_iff.2 fun hk => hn ((mem_subtree s source k).2 ⟨hp, hk⟩)
    · rw [if_neg hp, if_neg fun hk => hp ((mem_subtree s source k).1 hk).1]

def restamped (s : Store) (source target k : Place) (o : StoredObject) : StoredObject :=
  stamped target.parent? (s.clock + 2) k (stamped source.parent? (s.clock + 1) k o)

theorem get?_renamed (k : Place) : (s.renamed source target).objects.get? k =
    ((relocate s.objects source target (s.subtree source)).get? k).map
    (s.restamped source target k) := by
  rw [renamed, get?_touchParent, get?_touchParent, Option.map_map, clock_touchParent]
  rfl

theorem Movable.get?_renamed_target (hm : s.Movable source target) (hs : s.Rooted) (r : Place) :
    (s.renamed source target).objects.get? (target ++ r) =
      (s.objects.get? (source ++ r)).map (s.restamped source target (target ++ r)) := by
  rw [get?_renamed, (hm.get?_relocate hs).1]

theorem Movable.get?_renamed_else (hm : s.Movable source target) (hs : s.Rooted)
    (hk : ¬target <+: k) :
    (s.renamed source target).objects.get? k =
      if source <+: k then none else (s.objects.get? k).map (s.restamped source target k) := by
  rw [get?_renamed, (hm.get?_relocate hs).2 k hk]
  split <;> rfl

theorem Movable.standing?_renamed_target (hm : s.Movable source target)
    (hs : s.Rooted) (r : Place) :
    (s.renamed source target).standing? (target ++ r) = s.standing? (source ++ r) :=
  standing?_of_map _ _ (hm.get?_renamed_target hs r) (by simp [restamped]) (by simp [restamped])

theorem Movable.standing?_renamed_else (hm : s.Movable source target) (hs : s.Rooted)
    (hk : ¬target <+: k) :
    (s.renamed source target).standing? k = if source <+: k then none else s.standing? k := by
  have h := hm.get?_renamed_else hs hk
  split
  · next hp => rw [standing?_eq_none_iff, h, if_pos hp]
  · next hp =>
      exact standing?_of_map _ _ (by rw [h, if_neg hp]) (by simp [restamped]) (by simp [restamped])

/-! ## Every effect keeps the tree -/

theorem rooted_iff : s.Rooted ↔ ∀ k up, s.standing? k ≠ none → k.parent? = some up →
    ∃ i kind, s.standing? up = some (i, kind) ∧ kind.isCollection = true := by
  simp only [standing?_eq_some_iff, ne_eq, standing?_eq_none_iff]
  constructor
  · intro hs k up hk hup
    obtain ⟨o, ho⟩ := Option.ne_none_iff_exists'.1 hk
    obtain ⟨o', ho', hc⟩ := hs k o up ho hup
    exact ⟨_, _, ⟨o', ho', rfl, rfl⟩, hc⟩
  · rintro hs k o up ho hup
    obtain ⟨-, -, ⟨o', ho', -, rfl⟩, hc⟩ := hs k up (by simp [ho]) hup
    exact ⟨o', ho', hc⟩

instance (s : Store) : Decidable s.Rooted :=
  decidable_of_iff (∀ e ∈ s.objects.entries, ∀ up ∈ e.1.parent?, ∃ o ∈ s.objects.get? up,
      o.kind.isCollection = true) <| by
    simp only [Rooted, Option.mem_def, Prod.forall, Table.get?_eq_some_iff]
    exact ⟨fun h k o up he => h k o he up, fun h k o he up => h k o up he⟩

theorem Rooted.congr (hs : s.Rooted) (h : ∀ k, s'.standing? k = s.standing? k) : s'.Rooted := by
  rw [rooted_iff] at hs ⊢
  simpa only [h] using hs

theorem Rooted.inserted (hs : s.Rooted) (hv : s.Vacant k) (kind : ObjectKind) (owner : String)
    (contents : Contents) :
    (s.insertObject k kind owner contents).Rooted := by
  rw [rooted_iff] at hs ⊢
  simp only [standing?_insertObject]
  intro k' up hk' hup
  have hold : ∃ i c, s.standing? up = some (i, c) ∧ c.isCollection = true := by
    by_cases hkk : k' = k
    · obtain ⟨up', o, hup', ho, hc⟩ := hv.home
      obtain rfl : up' = up := Option.some.inj (hup'.symm.trans (hkk ▸ hup))
      exact ⟨_, _, standing?_eq_some_iff.2 ⟨o, ho, rfl, rfl⟩, hc⟩
    · exact hs k' up (by simpa [hkk] using hk') hup
  obtain ⟨i, c, hi, hc⟩ := hold
  have hne : up ≠ k := by
    rintro rfl
    rw [standing?_eq_none_iff.2 hv.free] at hi
    cases hi
  exact ⟨i, c, by rw [if_neg hne, hi], hc⟩

theorem Rooted.removed (hs : s.Rooted) (hc : s.hasChildren k = false) : (s.removed k).Rooted := by
  rw [rooted_iff] at hs ⊢
  simp only [standing?_removed]
  intro k' up hk' hup
  have hne : k' ≠ k := fun he => hk' (if_pos he)
  rw [if_neg hne] at hk'
  obtain ⟨o, ho⟩ := Option.ne_none_iff_exists'.1 (mt standing?_eq_none_iff.2 hk')
  have hupk : up ≠ k := fun he => get?_of_hasChildren hc ho (he ▸ hup)
  simpa [hupk] using hs k' up hk' hup

theorem Movable.source_ne_nil (hm : s.Movable source target) : source ≠ [] := by
  rintro rfl
  exact hm.outside List.nil_prefix

theorem Rooted.renamed (hs : s.Rooted) (hm : s.Movable source target) :
    (s.renamed source target).Rooted := by
  have hrooted := hs
  rw [rooted_iff] at hs ⊢
  intro k up hk hup
  obtain ⟨c, rfl⟩ := Place.parent?_eq_some hup
  by_cases ht : target <+: up
  · -- both have moved
    obtain ⟨r, rfl⟩ := ht
    rw [List.append_assoc, hm.standing?_renamed_target hrooted, ← List.append_assoc] at hk
    rw [hm.standing?_renamed_target hrooted]
    exact hs _ _ hk (Place.parent?_append_singleton (.inl (by simp [hm.source_ne_nil])))
  · have hold : ∃ i kind, s.standing? up = some (i, kind) ∧ kind.isCollection = true ∧
        ¬source <+: up := by
      by_cases htk : target <+: up ++ [c]
      · -- the object is the one that was moved, and its new parent was there before
        have hk : target = up ++ [c] := (List.prefix_concat_iff.1 htk).resolve_right ht
        obtain ⟨up', o, hup', ho, hc⟩ := hm.home
        obtain rfl : up' = up := Option.some.inj (hup'.symm.trans (hk ▸ hup))
        exact ⟨_, _, standing?_eq_some_iff.2 ⟨o, ho, rfl, rfl⟩, hc,
          fun h => hm.outside (hk ▸ h.trans (List.prefix_append ..))⟩
      · rw [hm.standing?_renamed_else hrooted htk] at hk
        have hsk : ¬source <+: up ++ [c] := fun h => hk (if_pos h)
        rw [if_neg hsk] at hk
        obtain ⟨i, kind, hi, hc⟩ := hs _ _ hk hup
        exact ⟨i, kind, hi, hc, fun h => hsk (h.trans (List.prefix_append ..))⟩
    obtain ⟨i, kind, hi, hc, hsu⟩ := hold
    exact ⟨i, kind, by rw [hm.standing?_renamed_else hrooted ht, if_neg hsu, hi], hc⟩

theorem Rooted.effect (hs : s.Rooted) (h : s.Effect s') : s'.Rooted := by
  cases h with
  | rewritten place contents => exact hs.congr fun k => standing?_rewritten ..
  | regranted place f => exact hs.congr fun k => standing?_changeAcl ..
  | inserted path kind owner contents vacant => exact hs.inserted vacant kind owner contents
  | removed place childless => exact hs.removed childless
  | renamed source target movable => exact hs.renamed movable

/-! ## Every place can be spelled

This holds in every reachable store, whether it is rooted or not.
-/

theorem Spelled.of_standing (hs : s.Spelled) {i : Nat} {kind : ObjectKind}
    (h : s.standing? k = some (i, kind)) :
    ∃ p : Path, p.place = k := by
  obtain ⟨o, ho, -⟩ := standing?_eq_some_iff.1 h
  exact hs k o ho

theorem Spelled.inserted (hs : s.Spelled) (path : Path) (kind : ObjectKind) (owner : String)
    (contents : Contents) :
    (s.insertObject path.place kind owner contents).Spelled := by
  intro k o ho
  rw [get?_insertObject] at ho
  split at ho
  · next h => exact ⟨path, h.symm⟩
  · obtain ⟨o', ho', -⟩ := Option.map_eq_some_iff.1 ho
    exact hs k o' ho'

theorem Spelled.of_isSome (hs : s.Spelled)
    (h : ∀ k o, s'.objects.get? k = some o → ∃ o', s.objects.get? k = some o') : s'.Spelled :=
    fun k o ho => by
  obtain ⟨o', ho'⟩ := h k o ho
  exact hs k o' ho'

theorem Spelled.renamed (hs : s.Spelled) {source target : Path}
    (ho : ¬source.place <+: target.place) :
    (s.renamed source.place target.place).Spelled := by
  have hloop : ∀ k o,
      (relocate s.objects source.place target.place (s.subtree source.place)).get? k = some o →
      ∃ p : Path, p.place = k := by
    refine relocate_induction
      (P := fun t => ∀ k o, t.get? k = some o → ∃ p : Path, p.place = k) hs ?_
    intro t k o hk hko ht k' o' ho'
    obtain ⟨he, -⟩ | ⟨-, ho''⟩ := Table.of_get?_moved ho'
    · obtain ⟨p, rfl⟩ := ht k o hko
      have hwithin : p.within source = true := Path.within_iff.2 ((mem_subtree s _ _).1 hk).1
      have hfalse : target.strictlyWithin source = false := Bool.eq_false_iff.2 fun h =>
        ho (Path.strictlyWithin_iff.1 h).1
      exact ⟨p.rebase source target, by rw [Path.place_rebase hwithin hfalse, he]⟩
    · exact ht k' o' ho''
  intro k o hk
  rw [get?_renamed] at hk
  obtain ⟨o', ho', -⟩ := Option.map_eq_some_iff.1 hk
  exact hloop k o' ho'

theorem Spelled.effect (hs : s.Spelled) (h : s.Effect s') : s'.Spelled := by
  cases h with
  | rewritten place contents =>
    refine hs.of_isSome fun k o ho => ?_
    rw [get?_rewritten] at ho
    exact (Option.map_eq_some_iff.1 ho).imp fun _ h => h.1
  | regranted place f =>
    refine hs.of_isSome fun k o ho => ?_
    rw [get?_changeAcl] at ho
    exact (Option.map_eq_some_iff.1 ho).imp fun _ h => h.1
  | inserted path kind owner contents vacant => exact hs.inserted path kind owner contents
  | removed place childless =>
    refine hs.of_isSome fun k o ho => ?_
    rw [get?_removed] at ho
    obtain ⟨o', ho', -⟩ := Option.map_eq_some_iff.1 ho
    split at ho'
    · cases ho'
    · exact ⟨o', ho'⟩
  | renamed source target movable => exact hs.renamed movable.outside

theorem spelled_new (zone admin : String) : (Store.new zone admin).Spelled := by
  suffices h : ∀ (places : List Place) (s : Store),
      (∀ k ∈ places, ∃ p : Path, p.place = k) → s.Spelled →
      (places.foldl (fun s place => s.insertObject place .collection admin .empty) s).Spelled from
    h _ _ (fun k hk => by
      obtain ⟨p, -, hp⟩ := List.mem_map.1 hk
      exact ⟨p, hp⟩) fun k o ho => by simp [Store.empty] at ho
  intro places
  induction places with
  | nil => exact fun s _ hs => hs
  | cons place places ih =>
    intro s hplaces hs
    obtain ⟨p, rfl⟩ := hplaces place List.mem_cons_self
    exact ih _ (fun k hk => hplaces k (List.mem_cons_of_mem _ hk))
      (hs.inserted p .collection admin .empty)

theorem Spelled.apply (hs : s.Spelled) {change : Change} (h : s.apply change = .ok s') :
    s'.Spelled := by
  obtain he | ⟨users, rfl | ⟨name, -, rfl⟩⟩ := apply_eq_ok h
  · exact hs.effect he
  · exact hs
  · have husers : Spelled { s with users } := hs
    exact husers.inserted (homeOf s.zone name) .collection name .empty

theorem Reachable.spelled (h : s.Reachable) : s.Spelled := by
  induction h with
  | new zone admin => exact spelled_new zone admin
  | step change _ h ih => exact ih.apply h

end StoreMount.Store
