import StoreMount.Proofs.Registry.Interleaving

/-!
# What a move leaves behind

A move is described by where each handle leads afterwards. With both tables inverse this says all
there is to say about the place side too: a place leads to the handle that leads there. Handles at
or below the source go along with it. Those at or below the target are dropped by `moveTree`;
`remapTree` does not begin if there is one that does not move itself. When the target is the source
or above it, `moveTree` drops the source along with the target and has nothing left to move.

All of this holds of the registry after any run of critical sections, whatever the two paths are.
-/
namespace StoreMount.Registry

variable {r r' : Registry} {source target : Path} {h : Handle} {k : Place}

def placeOf? (r : Registry) (h : Handle) : Option Place := (r.pathOf? h).map Path.place

theorem placeOf?_eq_some_iff : r.placeOf? h = some k ↔ ∃ p, r.pathOf? h = some p ∧ p.place = k :=
  Option.map_eq_some_iff

theorem placeOf?_of_pathOf? {p : Path} (hp : r.pathOf? h = some p) :
    r.placeOf? h = some p.place := by
  rw [placeOf?, hp, Option.map_some]

theorem Inverse.handle_iff_place (hr : r.Inverse) (h : Handle) (p : Path) :
    r.handleOf? p = some h ↔ r.placeOf? h = some p.place := by
  rw [hr.handle_iff, placeOf?_eq_some_iff]

/-- Nothing leads to the top or below it any more, and all else leads where it led. -/
structure Without (r r' : Registry) (top : Path) : Prop where
  dropped : ∀ h rest, r.placeOf? h = some (top.place ++ rest) → r'.pathOf? h = none
  kept : ∀ h p, r.pathOf? h = some p → ¬top.At p → r'.pathOf? h = some p
  unmapped : ∀ h, r.pathOf? h = none → r'.pathOf? h = none
  agree : ∀ h p, r'.handleOf? p = some h ↔ r'.placeOf? h = some p.place
  next : r'.next = r.next

/-- What led to the source or below it leads to the target or below it, with the same rest; what led
to a place that gave way leads nowhere; and all else leads where it led. -/
structure Relocated (r r' : Registry) (source target : Path) (gaveWay : Place → Prop) : Prop where
  moved : ∀ h rest, r.placeOf? h = some (source.place ++ rest) →
    r'.placeOf? h = some (target.place ++ rest)
  dropped : ∀ h k, r.placeOf? h = some k → gaveWay k → r'.pathOf? h = none
  kept : ∀ h p, r.pathOf? h = some p → ¬source.At p → ¬gaveWay p.place → r'.pathOf? h = some p
  unmapped : ∀ h, r.pathOf? h = none → r'.pathOf? h = none
  agree : ∀ h p, r'.handleOf? p = some h ↔ r'.placeOf? h = some p.place
  next : r'.next = r.next

/-- The same places lead to the same handles as before, except for the top and what is below it,
which lead nowhere. -/
structure Restored (r r' : Registry) (top : Path) : Prop where
  places : ∀ h k, r'.placeOf? h = some k ↔ r.placeOf? h = some k ∧ ¬top.place <+: k
  handles : ∀ p h, r'.handleOf? p = some h ↔ r.handleOf? p = some h ∧ ¬top.At p
  next : r'.next = r.next

/-- A subtree can take another place if its top is where it is said to be, and it is not to go below
itself, and each of the new places is free or holds what moves as well. -/
structure Remappable (r : Registry) (handle : Handle) (old new : Path) : Prop where
  outside : ¬old.Below new
  held : r.placeOf? handle = some old.place
  free : ∀ h rest h', r.placeOf? h = some (old.place ++ rest) →
    r.placeOf? h' = some (new.place ++ rest) →
    old.place <+: new.place ++ rest

theorem strictlyWithin_eq_false (h : ¬source.Below target) : target.strictlyWithin source = false :=
  Bool.eq_false_iff.2 fun ht => h (Path.strictlyWithin_iff.1 ht)

/-! ## Moving -/

theorem Inverse.handleOf?_cleared (hr : r.Inverse) {p : Path} :
    (r.cleared target).handleOf? p = some h ↔ r.handleOf? p = some h ∧ ¬target.At p := by
  have hc : (r.cleared target).Inverse := hr.removePairs_subtree target
  rw [hc.handle_iff, hr.handle_iff]
  constructor
  · rintro ⟨q, hq, hplace⟩
    obtain ⟨hq, hout⟩ := hr.pathOf?_removePairs_subtree.1 hq
    exact ⟨⟨q, hq, hplace⟩, fun hat => hout (hplace.symm ▸ hat)⟩
  · rintro ⟨⟨q, hq, hplace⟩, hout⟩
    exact ⟨q, hr.pathOf?_removePairs_subtree.2 ⟨hq, hplace.symm ▸ hout⟩, hplace⟩

theorem Inverse.handleOf?_cleared_outside (hr : r.Inverse) {p : Path} (hout : ¬target.At p) :
    (r.cleared target).handleOf? p = r.handleOf? p :=
  Option.ext fun _ => hr.handleOf?_cleared.trans (and_iff_left hout)

theorem Inverse.pathOf?_relocated_eq_none (hr : r.Inverse)
    (ht : target.strictlyWithin source = false) (hgone : ∀ p, r.pathOf? h = some p → target.At p) :
    (r.relocated source target).pathOf? h = none :=
  Option.eq_none_iff_forall_ne_some.2 fun p' hp' => by
    obtain ⟨p, hp, hout, -⟩ := hr.of_pathOf?_relocated ht hp'
    exact hout (hgone p hp)

theorem at_of_placeOf? {top p : Path} {rest : Place} (hk : r.placeOf? h = some (top.place ++ rest))
    (hp : r.pathOf? h = some p) : top.At p := by
  rw [placeOf?_of_pathOf? hp, Option.some.injEq] at hk
  rw [Path.At, hk]
  exact List.prefix_append ..

theorem Inverse.without_relocated (hr : r.Inverse) (hat : target.At source) :
    r.Without (r.relocated source target) target :=
  have ht : target.strictlyWithin source = false := strictlyWithin_eq_false fun hb =>
    hb.not_prefix hat
  { dropped := fun _ _ hk => hr.pathOf?_relocated_eq_none ht fun _ hp => at_of_placeOf? hk hp
    kept := fun _ _ hp hout => hr.pathOf?_moveTree ht hp (fun hs => hout (hat.trans hs)) hout
    unmapped := fun _ hn => hr.pathOf?_relocated_eq_none ht fun _ hp => by cases hn.symm.trans hp
    agree := (hr.moveTree ht).handle_iff_place
    next := hr.next_relocated ht }

theorem Inverse.relocated_shifted (hr : r.Inverse) (ht : target.strictlyWithin source = false)
    (hc : r.Clear source target) :
    r.Relocated (r.shifted source target) source target fun _ => False where
  moved h rest hk := by
    obtain ⟨p, hp, hplace⟩ := placeOf?_eq_some_iff.1 hk
    obtain ⟨p', hp', hmoved⟩ := (hr.pathOf?_shifted ht hp).1 (hplace ▸ List.prefix_append ..)
    rw [placeOf?_of_pathOf? hp', hmoved, hplace, Place.moved_append]
  dropped _ _ _ := False.elim
  kept h p hp hout _ := (hr.pathOf?_shifted ht hp).2 hout
  unmapped h hn := hr.pathOf?_shifted_eq_none hn
  agree := (hr.shifted ht hc).handle_iff_place
  next := next_shifted r

theorem not_prefix_append_of_apart {a b : Place} (hab : ¬a <+: b) (hba : ¬b <+: a) (rest : Place) :
    ¬a <+: b ++ rest :=
  fun h => (List.prefix_or_prefix_of_prefix h (List.prefix_append b rest)).elim hab hba

theorem Inverse.relocated_apart (hr : r.Inverse) (hst : ¬source.At target)
    (hts : ¬target.At source) :
    r.Relocated (r.relocated source target) source target (target.place <+: ·) :=
  have ht : target.strictlyWithin source = false := strictlyWithin_eq_false fun hb => hst hb.at
  { moved := fun h rest hk => by
      obtain ⟨p, hp, hplace⟩ := placeOf?_eq_some_iff.1 hk
      have hc : (r.cleared target).pathOf? h = some p :=
        hr.pathOf?_removePairs_subtree.2 ⟨hp, hplace ▸ not_prefix_append_of_apart hts hst rest⟩
      rw [hr.relocated_eq ht]
      exact ((hr.removePairs_subtree target).relocated_shifted ht
        (hr.clear_cleared ht)).moved h rest
        (hplace ▸ placeOf?_of_pathOf? hc)
    dropped := fun h k hk hgone => hr.pathOf?_relocated_eq_none ht fun p hp => by
      obtain ⟨rest, rfl⟩ := hgone
      exact at_of_placeOf? hk hp
    kept := fun _ _ hp hs hout => hr.pathOf?_moveTree ht hp hs hout
    unmapped := fun _ hn => hr.pathOf?_relocated_eq_none ht fun _ hp => by cases hn.symm.trans hp
    agree := (hr.moveTree ht).handle_iff_place
    next := hr.next_relocated ht }

theorem Relocated.handleOf?_target {gaveWay : Place → Prop} (hr : r.Inverse)
    (hm : r.Relocated r' source target gaveWay) (ht : gaveWay target.place) :
    r'.handleOf? target = r.handleOf? source := by
  ext h
  rw [hm.agree, hr.handle_iff_place]
  constructor
  · intro hk
    obtain ⟨p', hp', hplace⟩ := placeOf?_eq_some_iff.1 hk
    cases hp : r.pathOf? h with
    | none => cases (hm.unmapped h hp).symm.trans hp'
    | some p =>
      have hold := placeOf?_of_pathOf? hp
      have hstays : ¬gaveWay p.place :=
        fun hgone => by cases (hm.dropped h _ hold hgone).symm.trans hp'
      by_cases hs : source.At p
      · obtain ⟨rest, hrest⟩ := hs
        have hnil : target.place ++ [] = target.place ++ rest :=
          (List.append_nil _).trans
            (Option.some.inj (hk.symm.trans (hm.moved h rest (hrest ▸ hold))))
        rw [hold, ← hrest, ← List.append_cancel_left hnil, List.append_nil]
      · obtain rfl := Option.some.inj ((hm.kept h p hp hs hstays).symm.trans hp')
        exact absurd (hplace ▸ ht) hstays
  · intro hk
    have := hm.moved h [] (by rwa [List.append_nil])
    rwa [List.append_nil] at this

theorem Relocated.restored {r'' : Registry} (hr : r.Inverse)
    (hthere : r.Relocated r' source target (target.place <+: ·))
    (hback : r'.Relocated r'' target source (source.place <+: ·)) : r.Restored r'' target := by
  have hreturns : ∀ h k, r.placeOf? h = some k → ¬target.place <+: k → r''.placeOf? h = some k := by
    intro h k hk hout
    by_cases hs : source.place <+: k
    · obtain ⟨rest, rfl⟩ := hs
      exact hback.moved h rest (hthere.moved h rest hk)
    · obtain ⟨p, hp, rfl⟩ := placeOf?_eq_some_iff.1 hk
      exact placeOf?_of_pathOf? (hback.kept h p (hthere.kept h p hp hs hout) hout hs)
  have hplaces : ∀ h k, r''.placeOf? h = some k ↔ r.placeOf? h = some k ∧ ¬target.place <+: k := by
    refine fun h k => ⟨fun hk => ?_, fun hk => hreturns h k hk.1 hk.2⟩
    obtain ⟨p'', hp'', rfl⟩ := placeOf?_eq_some_iff.1 hk
    cases hp : r.pathOf? h with
    | none => cases (hback.unmapped h (hthere.unmapped h hp)).symm.trans hp''
    | some p =>
      have hold := placeOf?_of_pathOf? hp
      have hout : ¬target.place <+: p.place := fun hgone => by
        cases (hback.unmapped h (hthere.dropped h _ hold hgone)).symm.trans hp''
      obtain heq := Option.some.inj ((hreturns h _ hold hout).symm.trans hk)
      exact ⟨heq ▸ hold, heq ▸ hout⟩
  refine ⟨hplaces, fun p h => ?_, hback.next.trans hthere.next⟩
  rw [hback.agree, hr.handle_iff_place, hplaces]
  rfl

/-! ## Moving only what can be moved -/

theorem checkPair_eq_ok_iff {p : Path} :
    r.checkPair h p = .ok () ↔ r.placeOf? h = some p.place := by
  rw [checkPair, placeOf?]
  cases r.pathOf? h with
  | none => simp
  | some q => by_cases hq : q.place = p.place <;> simp [hq]

theorem Inverse.clear_iff (hr : r.Inverse) (ht : target.strictlyWithin source = false) :
    r.Clear source target ↔ ∀ h rest h', r.placeOf? h = some (source.place ++ rest) →
      r.placeOf? h' = some (target.place ++ rest) → source.place <+: target.place ++ rest := by
  constructor
  · intro hc h rest h' hk hk'
    obtain ⟨p, hp, hplace⟩ := placeOf?_eq_some_iff.1 hk
    obtain ⟨e, he, rfl⟩ :=
      List.mem_map.1 (hr.mem_handles_subtree.2 ⟨p, hp, hplace ▸ List.prefix_append ..⟩)
    have hsame := (hr.handle_iff_place _ _).1 (hr.handleOf?_of_mem_subtree he)
    have hnew : (e.1.rebase source target).place = target.place ++ rest := by
      rw [place_rebase_of_mem_subtree hr ht he, Option.some.inj (hsame.symm.trans hk),
        Place.moved_append]
    have howner := hc _ (List.mem_map_of_mem he) h' ((hr.handle_iff_place _ _).2 (hnew ▸ hk'))
    obtain ⟨q, hq, hwithin⟩ := hr.mem_handles_subtree.1 howner
    rw [placeOf?_of_pathOf? hq, Option.some.injEq] at hk'
    exact hk' ▸ hwithin
  · intro hfree e he h' hh'
    obtain ⟨d, hd, rfl⟩ := List.mem_map.1 he
    obtain ⟨rest, hrest⟩ := Path.within_iff.1 (hr.mem_subtree.1 hd).2
    have hnew : (d.1.rebase source target).place = target.place ++ rest := by
      rw [place_rebase_of_mem_subtree hr ht hd, ← hrest, Place.moved_append]
    have hk := (hr.handle_iff_place _ _).1 (hr.handleOf?_of_mem_subtree hd)
    have hk' := (hr.handle_iff_place _ _).1 hh'
    rw [hnew] at hk'
    obtain ⟨p, hp, hplace⟩ := placeOf?_eq_some_iff.1 hk'
    exact hr.mem_handles_subtree.2 ⟨p, hp, hplace ▸ hfree d.2 rest h' (hrest ▸ hk) hk'⟩

theorem Inverse.remapTree_iff (hr : r.Inverse) :
    r.remapTree h source target = .ok r' ↔
      r.Remappable h source target ∧ r' = r.shifted source target := by
  rw [remapTree_eq_ok_iff, checkPair_eq_ok_iff]
  constructor
  · rintro ⟨ht, hheld, hc, rfl⟩
    have hout : ¬source.Below target :=
      fun hb => by rw [Path.strictlyWithin_iff.2 hb] at ht; cases ht
    exact ⟨⟨hout, hheld, (hr.clear_iff ht).1 hc⟩, rfl⟩
  · rintro ⟨⟨hout, hheld, hfree⟩, rfl⟩
    have ht := strictlyWithin_eq_false hout
    exact ⟨ht, hheld, (hr.clear_iff ht).2 hfree, rfl⟩

/-! ## The critical sections -/

theorem Inverse.checkMove (hr : r.Inverse) (ht : target.strictlyWithin source = false) :
    r.checkMove source target = .ok () := by
  simp only [Registry.checkMove, ht]
  cases hs : r.handleOf? source with
  | none => rfl
  | some h => exact checkPair_eq_ok_iff.2 ((hr.handle_iff_place h source).1 hs)

theorem step_into_self {s : Shared} (hb : source.Below target) :
    s.step (.first (.moveTree source target)) = (some (.error (.moveIntoSelf source)), s) ∧
    s.step (.first (.checkMove source target)) = (some (.error (.moveIntoSelf source)), s) := by
  have ht : target.strictlyWithin source = true := Path.strictlyWithin_iff.2 hb
  refine ⟨?_, ?_⟩
  · simp only [Shared.step, moveTree_of_strictlyWithin ht]
  · simp only [Shared.step, Registry.checkMove, ht]
    rfl

theorem Inverse.step_moves {s : Shared} (hs : s.registry.Inverse) (hb : ¬source.Below target) :
    s.step (.first (.moveTree source target)) =
      (some (.ok ((s.registry.cleared target).handleOf? source)),
        s.put (s.registry.relocated source target)) ∧
    s.step (.first (.checkMove source target)) = (some (.ok none), s) := by
  have ht := strictlyWithin_eq_false hb
  refine ⟨?_, ?_⟩
  · simp only [Shared.step, moveTree_eq ht]
  · simp only [Shared.step, hs.checkMove ht]
    rfl

/-- A move below itself is refused, by the check and by the move. All other moves are made, and all
that changes is that the target gives way and the source takes its place; the way back restores what
did not give way. A target at or above the source takes the source along. -/
theorem moves_exact (sections : List Section) (source target : Path) :
    let s := Shared.empty.run sections
    let move := s.step (.first (.moveTree source target))
    let check := s.step (.first (.checkMove source target))
    (source.Below target →
      move = (some (.error (.moveIntoSelf source)), s) ∧
        check = (some (.error (.moveIntoSelf source)), s)) ∧
    (¬source.Below target → check = (some (.ok none), s) ∧ ∃ answer r',
      move = (some (.ok answer), s.put r') ∧
      (target.At source → answer = none ∧ s.registry.Without r' target) ∧
      (¬source.At target → ¬target.At source →
        answer = s.registry.handleOf? source ∧
        s.registry.Relocated r' source target (target.place <+: ·) ∧
        ∃ r'', (s.put r').step (.first (.moveTree target source)) = (some (.ok answer), s.put r'') ∧
          s.registry.Restored r'' target)) := by
  intro s move check
  have hs : s.registry.Inverse := inverse_empty.run sections
  refine ⟨step_into_self, fun hb => ?_⟩
  obtain ⟨hmove, hcheck⟩ := hs.step_moves hb
  refine ⟨hcheck, _, _, hmove, fun hat => ⟨?_, hs.without_relocated hat⟩, fun hst hts => ?_⟩
  · exact Option.eq_none_iff_forall_ne_some.2 fun h hh => (hs.handleOf?_cleared.1 hh).2 hat
  · have hs' : (s.registry.relocated source target).Inverse :=
      hs.moveTree (strictlyWithin_eq_false hb)
    have hanswer := hs.handleOf?_cleared_outside hts
    have hthere := hs.relocated_apart hst hts
    have hback := hs'.relocated_apart hts hst
    refine ⟨hanswer, hthere, _, ?_, hthere.restored hs hback⟩
    rw [hanswer, ← hthere.handleOf?_target hs List.prefix_rfl, ← hs'.handleOf?_cleared_outside hst]
    exact (Inverse.step_moves (s := s.put (s.registry.relocated source target)) hs' fun hb =>
        hts hb.at).1

/-- Either all of the subtree moves and nothing else does, or nothing changes; and it is known
which. -/
theorem remaps_whole_or_nothing (sections : List Section) (handle : Handle) (old new : Path) :
    let s := Shared.empty.run sections
    let remap := s.step (.first (.remapTree handle old new))
    (s.registry.Remappable handle old new →
      ∃ r', remap = (some (.ok none), s.put r') ∧ s.registry.Relocated r' old new fun _ => False) ∧
    (¬s.registry.Remappable handle old new → ∃ e, remap = (some (.error e), s)) := by
  intro s remap
  have hs : s.registry.Inverse := inverse_empty.run sections
  refine ⟨fun hm => ?_, fun hm => ?_⟩
  · have hok : s.registry.remapTree handle old new = .ok (s.registry.shifted old new) :=
      hs.remapTree_iff.2 ⟨hm, rfl⟩
    have ht := strictlyWithin_eq_false hm.outside
    refine ⟨s.registry.shifted old new, ?_, hs.relocated_shifted ht ((hs.clear_iff ht).2 hm.free)⟩
    change s.conclude none (s.registry.remapTree handle old new) = _
    rw [hok]
    rfl
  · change ∃ e, s.conclude none (s.registry.remapTree handle old new) = _
    cases hr : s.registry.remapTree handle old new with
    | ok r' => exact absurd (hs.remapTree_iff.1 hr).1 hm
    | error e => exact ⟨e, rfl⟩

/-- One level up, where what moves meets the places that it leaves. -/
example : (do
    let r ← empty.map 2 ⟨"/z/a/a"⟩
    let r ← r.map 3 ⟨"/z/a/a/a"⟩
    let r ← r.remapTree 2 ⟨"/z/a/a"⟩ ⟨"/z/a"⟩
    return (r.pathOf? 2, r.pathOf? 3)).toOption = some (some ⟨"/z/a"⟩, some ⟨"/z/a/a"⟩) := by
  decide +kernel

end StoreMount.Registry
