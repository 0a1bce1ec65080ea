import StoreMount.Proofs.Registry.Inverse

/-!
# Moving subtrees of the registry

A shift takes all pairs at or below the source out of both tables and enters them again under their
new places. It keeps the tables inverse if the new places are different from each other and from
those of the pairs that stay. They are different from each other because no two pairs share a place
and the leading components are all that changes; that they are free is what `moveTree` sees to by
clearing the target and `remapTree` by looking first.

`remapTree` is such a shift as it stands. `moveTree` takes each pair out and enters it before it
turns to the next; since no pair that is still to be moved stands where one is entered, this comes
to the same.
-/
namespace StoreMount.Registry

variable {r : Registry} {source target : Path}

/-! ## Entering pairs -/

theorem pathOf?_insertPairs_of_not_mem {pairs : List (Path × Handle)} {h : Handle}
    (hn : h ∉ pairs.map Prod.snd) : (r.insertPairs pairs).pathOf? h = r.pathOf? h := by
  induction pairs generalizing r with
  | nil => rfl
  | cons e es ih =>
    rw [List.map_cons, List.mem_cons, not_or] at hn
    rw [insertPairs, List.foldl_cons, ← insertPairs, ih hn.2, pathOf?, Table.get?_insert_ne _ hn.1,
      pathOf?]

theorem pathOf?_insertPairs_of_mem {pairs : List (Path × Handle)} (hh : (pairs.map Prod.snd).Nodup)
    {e : Path × Handle} (he : e ∈ pairs) : (r.insertPairs pairs).pathOf? e.2 = some e.1 := by
  induction pairs generalizing r with
  | nil => cases he
  | cons d es ih =>
    rw [List.map_cons, List.nodup_cons] at hh
    rw [insertPairs, List.foldl_cons, ← insertPairs]
    rcases List.mem_cons.1 he with rfl | he
    · rw [pathOf?_insertPairs_of_not_mem hh.1, pathOf?, Table.get?_insert_self]
    · exact ih hh.2 he

@[simp] theorem next_insertPairs (pairs : List (Path × Handle)) :
    (r.insertPairs pairs).next = r.next := by
  induction pairs generalizing r with
  | nil => rfl
  | cons e es ih => exact ih

theorem Inverse.insertPairs (hr : r.Inverse) {pairs : List (Path × Handle)}
    (hfree : ∀ e ∈ pairs, r.pathOf? e.2 = none ∧ r.handleOf? e.1 = none)
    (hp : (pairs.map fun e => e.1.place).Nodup) (hh : (pairs.map Prod.snd).Nodup) :
    (r.insertPairs pairs).Inverse := by
  induction pairs generalizing r with
  | nil => exact hr
  | cons e es ih =>
    rw [List.map_cons, List.nodup_cons] at hp hh
    obtain ⟨he, hplace⟩ := hfree e List.mem_cons_self
    rw [Registry.insertPairs, List.foldl_cons, ← Registry.insertPairs]
    refine ih (hr.enter (fun p' hp' => ?_) (fun h' hh' => ?_) r.next) (fun d hd => ?_) hp.2 hh.2
    · simp [he] at hp'
    · simp [hplace] at hh'
    · obtain ⟨hd₁, hd₂⟩ := hfree d (List.mem_cons_of_mem _ hd)
      have hne : d.2 ≠ e.2 := fun h => hh.1 (List.mem_map.2 ⟨d, hd, h⟩)
      have hne' : d.1.place ≠ e.1.place := fun h => hp.1 (List.mem_map.2 ⟨d, hd, h⟩)
      rw [pathOf?, handleOf?, enterPlace, Table.get?_insert_ne _ hne, Table.get?_insert_ne _ hne']
      exact ⟨hd₁, hd₂⟩

/-! ## Subtrees -/

theorem Inverse.mem_subtree (hr : r.Inverse) {top : Path} {e : Path × Handle} :
    e ∈ r.subtree top ↔ r.byPlace.get? e.1.place = some e ∧ e.1.within top = true := by
  rw [subtree, List.mem_filter, Table.values, List.mem_map]
  constructor
  · rintro ⟨⟨d, hd, rfl⟩, hw⟩
    have hget := Table.get?_eq_some_iff.2 hd
    rw [(hr.leads d.1 d.2.1 d.2.2 hget).1]
    exact ⟨hget, hw⟩
  · rintro ⟨hget, hw⟩
    exact ⟨⟨_, Table.get?_eq_some_iff.1 hget, rfl⟩, hw⟩

theorem Inverse.handleOf?_of_mem_subtree (hr : r.Inverse) {top : Path} {e : Path × Handle}
    (he : e ∈ r.subtree top) : r.handleOf? e.1 = some e.2 := by
  rw [handleOf?, (hr.mem_subtree.1 he).1, Option.map_some]

theorem Inverse.nodup_places_subtree (hr : r.Inverse) (top : Path) :
    ((r.subtree top).map fun e => e.1.place).Nodup := by
  have hkeys : (r.byPlace.entries.map Prod.snd).map (fun e => e.1.place) =
      r.byPlace.entries.map Prod.fst := by
    rw [List.map_map]
    exact List.map_congr_left fun e he => (hr.leads e.1 e.2.1 e.2.2 (Table.get?_eq_some_iff.2 he)).1
  exact (hkeys ▸ r.byPlace.nodup).sublist (List.filter_sublist.map _)

theorem Inverse.nodup_handles_subtree (hr : r.Inverse) (top : Path) :
    ((r.subtree top).map Prod.snd).Nodup := by
  refine List.Nodup.map_on ?_ ((hr.nodup_places_subtree top).of_map _)
  intro e he d hd heq
  obtain ⟨p, hp, hpe⟩ := (hr.handle_iff _ _).1 (hr.handleOf?_of_mem_subtree he)
  obtain ⟨q, hq, hqd⟩ := (hr.handle_iff _ _).1 (hr.handleOf?_of_mem_subtree hd)
  obtain rfl : p = q := Option.some.inj (hp.symm.trans (heq ▸ hq))
  have h₁ := (hr.mem_subtree.1 he).1
  rw [← hpe, hqd, (hr.mem_subtree.1 hd).1] at h₁
  exact (Option.some.inj h₁).symm

theorem Inverse.mem_handles_subtree (hr : r.Inverse) {top : Path} {h : Handle} :
    h ∈ (r.subtree top).map Prod.snd ↔ ∃ p, r.pathOf? h = some p ∧ top.place <+: p.place := by
  rw [List.mem_map]
  constructor
  · rintro ⟨e, he, rfl⟩
    obtain ⟨p, hp, hpe⟩ := (hr.handle_iff _ _).1 (hr.handleOf?_of_mem_subtree he)
    exact ⟨p, hp, hpe ▸ Path.within_iff.1 (hr.mem_subtree.1 he).2⟩
  · rintro ⟨p, hp, hw⟩
    obtain ⟨q, hq⟩ := hr.leadsBack h p hp
    have hplace := (hr.leads _ _ _ hq).1
    exact ⟨(q, h), hr.mem_subtree.2 ⟨by rw [hplace, hq], Path.within_iff.2 (hplace ▸ hw)⟩, rfl⟩

theorem Inverse.removePairs_subtree (hr : r.Inverse) (top : Path) :
    (r.removePairs (r.subtree top)).Inverse :=
  hr.removePairs fun _ he => hr.handleOf?_of_mem_subtree he

theorem Inverse.pathOf?_removePairs_subtree (hr : r.Inverse) {top : Path} {h : Handle} {p : Path} :
    (r.removePairs (r.subtree top)).pathOf? h = some p ↔
      r.pathOf? h = some p ∧ ¬top.place <+: p.place := by
  rw [pathOf?_removePairs]
  by_cases hm : h ∈ (r.subtree top).map Prod.snd
  · obtain ⟨q, hq, hw⟩ := hr.mem_handles_subtree.1 hm
    rw [if_pos hm, hq]
    constructor
    · intro hp
      cases hp
    · rintro ⟨hp, hn⟩
      exact absurd (Option.some.inj hp ▸ hw) hn
  · rw [if_neg hm]
    exact ⟨fun hp => ⟨hp, fun hw => hm (hr.mem_handles_subtree.2 ⟨p, hp, hw⟩)⟩, And.left⟩

/-! ## Moving a subtree -/

theorem map_snd_rebased (pairs : List (Path × Handle)) :
    (rebased source target pairs).map Prod.snd = pairs.map Prod.snd := by
  rw [rebased, List.map_map]
  rfl

theorem place_rebase_of_mem_subtree (hr : r.Inverse) (ht : target.strictlyWithin source = false)
    {e : Path × Handle} (he : e ∈ r.subtree source) :
    (e.1.rebase source target).place = Place.moved source.place target.place e.1.place :=
  Path.place_rebase (hr.mem_subtree.1 he).2 ht

theorem nodup_places_rebased (hr : r.Inverse) (ht : target.strictlyWithin source = false) :
    ((rebased source target (r.subtree source)).map fun e => e.1.place).Nodup := by
  have hmap : (rebased source target (r.subtree source)).map (fun e => e.1.place) =
      ((r.subtree source).map fun e => e.1.place).map (Place.moved source.place target.place) := by
    rw [rebased, List.map_map, List.map_map]
    exact List.map_congr_left fun e he => place_rebase_of_mem_subtree hr ht he
  rw [hmap]
  refine List.Nodup.map_on ?_ (hr.nodup_places_subtree source)
  intro k hk k' hk' heq
  obtain ⟨e, he, rfl⟩ := List.mem_map.1 hk
  obtain ⟨e', he', rfl⟩ := List.mem_map.1 hk'
  exact Place.moved_inj (Path.within_iff.1 (hr.mem_subtree.1 he).2)
    (Path.within_iff.1 (hr.mem_subtree.1 he').2) heq

def shifted (r : Registry) (source target : Path) : Registry :=
  (r.removePairs (r.subtree source)).insertPairs (rebased source target (r.subtree source))

/-- Whatever stands in the way of a moving pair is moving itself. -/
def Clear (r : Registry) (source target : Path) : Prop :=
  ∀ e ∈ rebased source target (r.subtree source), ∀ h, r.handleOf? e.1 = some h →
    h ∈ (r.subtree source).map Prod.snd

theorem Inverse.shifted (hr : r.Inverse) (ht : target.strictlyWithin source = false)
    (hc : r.Clear source target) : (r.shifted source target).Inverse := by
  have hr' := hr.removePairs_subtree source
  refine hr'.insertPairs (fun e he => ⟨?_, ?_⟩) (nodup_places_rebased hr ht) ?_
  · rw [pathOf?_removePairs, if_pos]
    rw [← @map_snd_rebased source target]
    exact List.mem_map_of_mem he
  · rw [Option.eq_none_iff_forall_ne_some]
    intro h hh
    obtain ⟨p, hp, hplace⟩ := (hr'.handle_iff h e.1).1 hh
    rw [hr.pathOf?_removePairs_subtree] at hp
    have hm := hc e he h ((hr.handle_iff h e.1).2 ⟨p, hp.1, hplace⟩)
    obtain ⟨q, hq, hw⟩ := hr.mem_handles_subtree.1 hm
    exact hp.2 (Option.some.inj (hq.symm.trans hp.1) ▸ hw)
  · rw [map_snd_rebased]
    exact hr.nodup_handles_subtree source

theorem Inverse.pathOf?_shifted (hr : r.Inverse) (ht : target.strictlyWithin source = false)
    {h : Handle} {p : Path} (hp : r.pathOf? h = some p) :
    (source.place <+: p.place → ∃ p', (r.shifted source target).pathOf? h = some p' ∧
      p'.place = Place.moved source.place target.place p.place) ∧
    (¬source.place <+: p.place → (r.shifted source target).pathOf? h = some p) := by
  constructor
  · intro hw
    obtain ⟨e, he, rfl⟩ := List.mem_map.1 (hr.mem_handles_subtree.2 ⟨p, hp, hw⟩)
    obtain ⟨q, hq, hplace⟩ := (hr.handle_iff _ _).1 (hr.handleOf?_of_mem_subtree he)
    refine ⟨_, pathOf?_insertPairs_of_mem (e := (e.1.rebase source target, e.2)) ?_ ?_, ?_⟩
    · rw [map_snd_rebased]
      exact hr.nodup_handles_subtree source
    · exact List.mem_map_of_mem he
    · rw [place_rebase_of_mem_subtree hr ht he, ← hplace, Option.some.inj (hq.symm.trans hp)]
  · intro hn
    rw [Registry.shifted, pathOf?_insertPairs_of_not_mem, hr.pathOf?_removePairs_subtree]
    · exact ⟨hp, hn⟩
    · rw [map_snd_rebased]
      intro hm
      obtain ⟨q, hq, hw⟩ := hr.mem_handles_subtree.1 hm
      exact hn (Option.some.inj (hq.symm.trans hp) ▸ hw)

theorem Inverse.pathOf?_shifted_eq_none (hr : r.Inverse) {h : Handle} (hp : r.pathOf? h = none) :
    (r.shifted source target).pathOf? h = none := by
  rw [Registry.shifted, pathOf?_insertPairs_of_not_mem, pathOf?_removePairs, hp, ite_self]
  rw [map_snd_rebased]
  intro hm
  obtain ⟨q, hq, -⟩ := hr.mem_handles_subtree.1 hm
  rw [hp] at hq
  cases hq

@[simp] theorem next_shifted (r : Registry) : (r.shifted source target).next = r.next := by
  simp [shifted]

/-! ## The two moves -/

theorem obstacle?_eq_none_iff {moving targets : List (Path × Handle)} :
    r.obstacle? moving targets = none ↔
      ∀ e ∈ targets, ∀ h, r.handleOf? e.1 = some h → h ∈ moving.map Prod.snd := by
  rw [obstacle?, List.findSome?_eq_none_iff]
  refine forall₂_congr fun e _ => ?_
  cases r.handleOf? e.1 with
  | none => simp
  | some h => simp [List.any_eq_true]

theorem remapTree_eq_ok_iff {handle : Handle} {r' : Registry} :
    r.remapTree handle source target = .ok r' ↔ target.strictlyWithin source = false ∧
      r.checkPair handle source = .ok () ∧ r.Clear source target ∧
      r' = r.shifted source target := by
  have hclear : r.Clear source target ↔
      r.obstacle? (r.subtree source) (rebased source target (r.subtree source)) = none :=
    obstacle?_eq_none_iff.symm
  rw [hclear, remapTree]
  cases target.strictlyWithin source with
  | true => exact iff_of_false (fun h => by cases h) fun h => by cases h.1
  | false =>
    cases r.checkPair handle source with
    | error e => exact iff_of_false (fun h => by cases h) fun h => by cases h.2.1
    | ok _ =>
      cases hs : r.obstacle? (r.subtree source) (rebased source target (r.subtree source)) with
      | some e =>
        refine iff_of_false (fun h => ?_) fun h => by cases h.2.2.1
        simp only [hs] at h
        cases h
      | none =>
        simp only [hs]
        refine ⟨fun h => ⟨trivial, trivial, trivial, (Except.ok.inj h).symm⟩, ?_⟩
        rintro ⟨-, -, -, rfl⟩
        rfl

def cleared (r : Registry) (target : Path) : Registry := r.removePairs (r.subtree target)

def relocated (r : Registry) (source target : Path) : Registry :=
  ((r.cleared target).subtree source).foldl (movePair source target) (r.cleared target)

theorem moveTree_eq (ht : target.strictlyWithin source = false) :
    r.moveTree source target =
      .ok ((r.cleared target).handleOf? source, r.relocated source target) := by
  simp only [moveTree, ht]
  rfl

theorem moveTree_of_strictlyWithin (ht : target.strictlyWithin source = true) :
    r.moveTree source target = .error (.moveIntoSelf source) := by
  simp only [moveTree, ht]
  rfl

theorem Inverse.clear_cleared (hr : r.Inverse) (ht : target.strictlyWithin source = false) :
    (r.cleared target).Clear source target := by
  have hc := hr.removePairs_subtree target
  intro e he h hh
  obtain ⟨d, hd, rfl⟩ := List.mem_map.1 he
  obtain ⟨p, hp, hplace⟩ := (hc.handle_iff _ _).1 hh
  refine absurd ?_ (hr.pathOf?_removePairs_subtree.1 hp).2
  rw [hplace, place_rebase_of_mem_subtree hc ht hd]
  exact List.prefix_append ..

theorem enterPlace_erase (t : Table Place (Path × Handle)) {p : Path} {k : Place} (hk : p.place ≠ k)
    (h : Handle) :
    enterPlace (t.erase k) p h = (enterPlace t p h).erase k := by
  rw [enterPlace, enterPlace, Table.get?_erase_ne t hk, Table.erase_insert_comm t hk]

theorem removePairs_insertPairs {pairs : List (Path × Handle)} {e : Path × Handle}
    (hp : ∀ d ∈ pairs, e.1.place ≠ d.1.place) (hh : e.2 ∉ pairs.map Prod.snd) :
    (r.insertPairs [e]).removePairs pairs = (r.removePairs pairs).insertPairs [e] := by
  induction pairs generalizing r with
  | nil => rfl
  | cons d ds ih =>
    rw [List.map_cons, List.mem_cons, not_or] at hh
    have hstep : (r.insertPairs [e]).removePairs [d] = (r.removePairs [d]).insertPairs [e] := by
      simp only [insertPairs, removePairs, List.foldl_cons, List.foldl_nil,
        enterPlace_erase _ (hp d List.mem_cons_self), Table.erase_insert_comm _ hh.1]
    calc (r.insertPairs [e]).removePairs (d :: ds)
        = ((r.insertPairs [e]).removePairs [d]).removePairs ds := rfl
      _ = ((r.removePairs [d]).insertPairs [e]).removePairs ds := by rw [hstep]
      _ = (r.removePairs (d :: ds)).insertPairs [e] :=
        ih (fun d hd => hp d (List.mem_cons_of_mem _ hd)) hh.2

/-- Moving pair by pair is taking all pairs out before the first is entered, unless one is entered
where another still stands. -/
theorem foldl_movePair {pairs : List (Path × Handle)} (hh : (pairs.map Prod.snd).Nodup)
    (hfree : ∀ e ∈ pairs, ∀ d ∈ pairs, (e.1.rebase source target).place ≠ d.1.place) :
    pairs.foldl (movePair source target) r = (r.removePairs pairs).insertPairs
      (rebased source target pairs) := by
  induction pairs generalizing r with
  | nil => rfl
  | cons e es ih =>
    rw [List.map_cons, List.nodup_cons] at hh
    have hcomm : (movePair source target r e).removePairs es =
        (r.removePairs (e :: es)).insertPairs (rebased source target [e]) :=
      removePairs_insertPairs
        (fun d hd => hfree e List.mem_cons_self d (List.mem_cons_of_mem _ hd)) hh.1
    rw [List.foldl_cons, ih hh.2 fun e he d hd =>
        hfree e (List.mem_cons_of_mem _ he) d (List.mem_cons_of_mem _ hd), hcomm]
    rfl

theorem Inverse.relocated_eq (hr : r.Inverse) (ht : target.strictlyWithin source = false) :
    r.relocated source target = (r.cleared target).shifted source target := by
  have hc : (r.cleared target).Inverse := hr.removePairs_subtree target
  refine foldl_movePair (hc.nodup_handles_subtree source) fun e he d hd heq => ?_
  obtain ⟨p, hp, hplace⟩ := (hc.handle_iff _ _).1 (hc.handleOf?_of_mem_subtree hd)
  refine (hr.pathOf?_removePairs_subtree.1 hp).2 ?_
  rw [hplace, ← heq, place_rebase_of_mem_subtree hc ht he]
  exact List.prefix_append ..

theorem Inverse.moveTree (hr : r.Inverse) (ht : target.strictlyWithin source = false) :
    (r.relocated source target).Inverse := by
  rw [hr.relocated_eq ht]
  exact (hr.removePairs_subtree target).shifted ht (hr.clear_cleared ht)

theorem Inverse.next_relocated (hr : r.Inverse) (ht : target.strictlyWithin source = false) :
    (r.relocated source target).next = r.next := by
  rw [hr.relocated_eq ht, next_shifted, cleared, next_removePairs]

theorem Inverse.of_pathOf?_relocated (hr : r.Inverse) (ht : target.strictlyWithin source = false)
    {h : Handle} {p' : Path} (hp' : (r.relocated source target).pathOf? h = some p') :
    ∃ p, r.pathOf? h = some p ∧ ¬target.place <+: p.place ∧
      (source.place <+: p.place ∧ p'.place = Place.moved source.place target.place p.place ∨
        ¬source.place <+: p.place ∧ p' = p) := by
  have hc : (r.cleared target).Inverse := hr.removePairs_subtree target
  rw [hr.relocated_eq ht] at hp'
  cases hp : (r.cleared target).pathOf? h with
  | none =>
    rw [hc.pathOf?_shifted_eq_none hp] at hp'
    cases hp'
  | some p =>
    obtain ⟨hold, hout⟩ := hr.pathOf?_removePairs_subtree.1 hp
    obtain ⟨hmoved, hstays⟩ := hc.pathOf?_shifted ht hp
    refine ⟨p, hold, hout, ?_⟩
    by_cases hs : source.place <+: p.place
    · obtain ⟨q, hq, hplace⟩ := hmoved hs
      obtain rfl := Option.some.inj (hq.symm.trans hp')
      exact .inl ⟨hs, hplace⟩
    · exact .inr ⟨hs, (Option.some.inj ((hstays hs).symm.trans hp')).symm⟩

theorem Inverse.pathOf?_moveTree (hr : r.Inverse) (ht : target.strictlyWithin source = false)
    {h : Handle} {p : Path} (hp : r.pathOf? h = some p) (hs : ¬source.place <+: p.place)
    (htp : ¬target.place <+: p.place) :
    (r.relocated source target).pathOf? h = some p := by
  rw [hr.relocated_eq ht]
  exact ((hr.removePairs_subtree target).pathOf?_shifted ht
    (hr.pathOf?_removePairs_subtree.2 ⟨hp, htp⟩)).2 hs

end StoreMount.Registry
