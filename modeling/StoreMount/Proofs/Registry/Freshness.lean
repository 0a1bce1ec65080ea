import StoreMount.Proofs.Registry.Interleaving

/-!
# Fresh handles

The next handle never goes down, and it is above every handle that leads somewhere. Taking pairs
out, moving them and giving a handle another path make no handle lead anywhere that led nowhere;
handing one out does, and begins at the next handle. A pair that is entered under a given handle may
bring back one that had been given up, but then the next handle is lifted above it. So a handle that
is handed out is above all that were given out before, whatever has become of them since.
-/
namespace StoreMount.Registry

variable {r r' : Registry} {h : Handle} {p : Path}

/-- What leads somewhere for the first time since is not below the next handle of then. -/
structure Onward (r r' : Registry) : Prop where
  next : r.next ≤ r'.next
  fresh : ∀ h p, r.pathOf? h = none → r'.pathOf? h = some p → r.next ≤ h ∧ h < r'.next

structure Ahead (r : Registry) : Prop where
  root : rootHandle < r.next
  mapped : ∀ h p, r.pathOf? h = some p → h < r.next

theorem ahead_empty : empty.Ahead where
  root := Nat.lt_succ_self _
  mapped h p hp := by simp [empty, pathOf?] at hp

namespace Onward

theorem refl (r : Registry) : r.Onward r where
  next := Nat.le_refl _
  fresh h p hn hp := by
    rw [hn] at hp
    cases hp

theorem of_rearranged (hnext : r'.next = r.next)
    (hnone : ∀ h, r.pathOf? h = none → r'.pathOf? h = none) : r.Onward r' where
  next := Nat.le_of_eq hnext.symm
  fresh h p hn hp := by
    rw [hnone h hn] at hp
    cases hp

theorem trans {r'' : Registry} (h : r.Onward r') (h' : r'.Onward r'') : r.Onward r'' where
  next := Nat.le_trans h.next h'.next
  fresh i p hn hp := by
    cases hq : r'.pathOf? i with
    | none =>
      obtain ⟨hle, hlt⟩ := h'.fresh i p hq hp
      exact ⟨Nat.le_trans h.next hle, hlt⟩
    | some q =>
      obtain ⟨hle, hlt⟩ := h.fresh i q hn hq
      exact ⟨hle, Nat.lt_of_lt_of_le hlt h'.next⟩

theorem unmapped (ho : r.Onward r') (hlt : h < r.next) (hn : r.pathOf? h = none) :
    r'.pathOf? h = none := by
  cases hp : r'.pathOf? h with
  | none => rfl
  | some p => exact absurd (ho.fresh h p hn hp).1 (Nat.not_le.2 hlt)

end Onward

theorem Ahead.onward (hr : r.Ahead) (ho : r.Onward r') : r'.Ahead where
  root := Nat.lt_of_lt_of_le hr.root ho.next
  mapped h p hp := by
    cases hq : r.pathOf? h with
    | none => exact (ho.fresh h p hq hp).2
    | some q => exact Nat.lt_of_lt_of_le (hr.mapped h q hq) ho.next

theorem Ahead.lt_of_handleOf? (hr : r.Ahead) (hi : r.Inverse) (hp : r.handleOf? p = some h) :
    h < r.next := by
  obtain ⟨q, hq, -⟩ := (hi.handle_iff h p).1 hp
  exact hr.mapped h q hq

/-! ## What goes onward -/

theorem onward_allocate (r : Registry) : r.Onward r.allocate.2 where
  next := Nat.le_succ_of_le (le_firstFree ..)
  fresh h p hn hp := by
    change r.pathOf? h = some p at hp
    rw [hn] at hp
    cases hp

theorem onward_handleFor (r : Registry) (p : Path) : r.Onward (r.handleFor p).2 where
  next := next_handleFor r p
  fresh h q hn hq := by
    rcases r.pathOf?_handleFor p h with he | hnew
    · rw [he, hn] at hq
      cases hq
    · exact ⟨hnew.fresh, hnew.issued⟩

theorem handleFor_eq_assign (r : Registry) (p : Path) : r.handleFor p = r.assign p := by
  unfold handleFor
  split
  · next hp => simp only [assign, hp]
  · rfl

theorem assign_of_none (hp : r.handleOf? p = none) :
    (r.assign p).1 = r.allocate.1 ∧ (r.assign p).2.next = r.allocate.1 + 1 := by
  rw [assign, hp]
  exact ⟨rfl, rfl⟩

theorem onward_unmap (hu : r.unmap h p = .ok r') : r.Onward r' := by
  obtain ⟨-, rfl⟩ := unmap_eq_ok hu
  refine .of_rearranged (next_removePairs _) fun h' hn => ?_
  rw [pathOf?_removePairs, hn, ite_self]

theorem onward_remap {new : Path} (hm : r.remap h p new = .ok r') : r.Onward r' := by
  obtain ⟨⟨q, hq, -⟩, -, rfl⟩ := remap_eq_ok hm
  refine .of_rearranged rfl fun h' hn => ?_
  have hne : h' ≠ h := by
    rintro rfl
    rw [hn] at hq
    cases hq
  exact (Table.get?_insert_ne _ hne _).trans hn

theorem Inverse.onward_remapTree (hr : r.Inverse) {new : Path} (hm : r.remapTree h p new = .ok r') :
    r.Onward r' := by
  obtain ⟨-, -, -, rfl⟩ := remapTree_eq_ok_iff.1 hm
  exact .of_rearranged (next_shifted r) fun h' hn => hr.pathOf?_shifted_eq_none hn

theorem Inverse.onward_moveTree (hr : r.Inverse) {source target : Path}
    {answer : Option Handle × Registry} (hm : r.moveTree source target = .ok answer) :
    r.Onward answer.2 := by
  cases ht : target.strictlyWithin source with
  | true =>
    rw [moveTree_of_strictlyWithin ht] at hm
    cases hm
  | false =>
    rw [moveTree_eq ht] at hm
    obtain rfl := Except.ok.inj hm
    refine .of_rearranged (hr.next_relocated ht) fun h' hn =>
      Option.eq_none_iff_forall_ne_some.2 fun p' hp' => ?_
    obtain ⟨p, hp, -⟩ := hr.of_pathOf?_relocated ht hp'
    rw [hn] at hp
    cases hp

theorem Ahead.enter (hr : r.Ahead) (hh : h < lastHandle) (p : Path) :
    (r.enter h p).2.Ahead ∧ r.next ≤ (r.enter h p).2.next ∧
      ((r.enter h p).1 = .ok () → h < (r.enter h p).2.next) := by
  rcases enter_cases r h p with ⟨e, he⟩ | ⟨-, -, he⟩ <;> rw [he]
  · exact ⟨hr, Nat.le_refl _, fun hok => nomatch hok⟩
  · have hnext : r.next ≤ max r.next (min (h + 1) lastHandle) := Nat.le_max_left ..
    have habove : h < max r.next (min (h + 1) lastHandle) :=
      Nat.lt_of_lt_of_le (Nat.lt_min.2 ⟨Nat.lt_succ_self h, hh⟩) (Nat.le_max_right ..)
    refine ⟨⟨Nat.lt_of_lt_of_le hr.root hnext, fun h' q hq => ?_⟩, hnext, fun _ => habove⟩
    change (r.byHandle.insert h p).get? h' = some q at hq
    obtain ⟨rfl, -⟩ | ⟨-, hq⟩ := Table.get?_insert_eq_some_iff.1 hq
    · exact habove
    · exact Nat.lt_of_lt_of_le (hr.mapped h' q hq) hnext

/-! ## Sections -/

/-- A handle that a caller names for a new pair is not the last. -/
def Section.InRange : Section → Prop
  | .first (.map h _) => h < lastHandle
  | _ => True

namespace Shared

/-- The section gives the handle out: it answers with it or enters a pair under it. -/
inductive Issues (s : Shared) (h : Handle) : Section → Prop
  | answered {c : Section} (answer : (s.step c).1 = some (.ok (some h))) : Issues s h c
  | bound {p : Path} (answer : (s.step (.first (.map h p))).1 = some (.ok none)) :
      Issues s h (.first (.map h p))

/-- The section hands out a handle for the first time: it allocates, or is the second section of a
call for a path that is not mapped at that point. -/
inductive Assigns (s : Shared) : Section → Prop
  | allocate : Assigns s (.first .allocate)
  | assign {position : Nat} {p : Path} (waits : s.waiting[position]? = some p)
      (unnamed : s.registry.handleOf? p = none) :
      Assigns s (.second position)

variable {s : Shared} {c : Section}

theorem onward_conclude (handle : Option Handle) {outcome : Except Error Registry}
    (ho : ∀ r, outcome = .ok r → s.registry.Onward r) :
    s.registry.Onward (s.conclude handle outcome).2.registry := by
  cases outcome with
  | ok r => exact ho r rfl
  | error e => exact .refl _

theorem onward_or_enters (hs : s.registry.Inverse) (c : Section) :
    s.registry.Onward (s.step c).2.registry ∨
    ∃ h p, (c = .first (.map h p) ∨ h = rootHandle) ∧
      (s.step c).2.registry = (s.registry.enter h p).2 := by
  cases c with
  | first call =>
    cases call with
    | establishRoot p => exact .inr ⟨rootHandle, p, .inr rfl, rfl⟩
    | allocate => exact .inl (onward_allocate s.registry)
    | map h p => exact .inr ⟨h, p, .inl rfl, rfl⟩
    | handleFor p =>
      left
      simp only [Shared.step]
      split <;> exact .refl _
    | unmap h p => exact .inl (onward_conclude none fun r hr => onward_unmap hr)
    | remap h old new => exact .inl (onward_conclude none fun r hr => onward_remap hr)
    | remapTree h old new => exact .inl (onward_conclude none fun r hr => hs.onward_remapTree hr)
    | checkMove source target =>
      refine .inl (onward_conclude none fun r hr => ?_)
      cases hc : s.registry.checkMove source target with
      | error e => rw [hc] at hr; cases hr
      | ok _ => rw [hc] at hr; cases hr; exact .refl _
    | moveTree source target =>
      left
      simp only [Shared.step]
      cases hm : s.registry.moveTree source target with
      | error e => exact .refl _
      | ok answer => exact hs.onward_moveTree hm
  | second position =>
    left
    simp only [Shared.step]
    split
    · exact .refl _
    · next p _ => exact handleFor_eq_assign s.registry p ▸ onward_handleFor s.registry p

theorem ahead_step (hs : s.registry.Inverse) (ha : s.registry.Ahead) (hc : c.InRange) :
    (s.step c).2.registry.Ahead ∧ s.registry.next ≤ (s.step c).2.registry.next := by
  rcases onward_or_enters hs c with ho | ⟨h, p, hh, he⟩
  · exact ⟨ha.onward ho, ho.next⟩
  · have hlast : h < lastHandle := by
      rcases hh with rfl | rfl
      · exact hc
      · decide
    rw [he]
    exact ⟨(ha.enter hlast p).1, (ha.enter hlast p).2.1⟩

theorem conclude_none_ne (outcome : Except Error Registry) :
    (s.conclude none outcome).1 ≠ some (.ok (some h)) := by
  cases outcome <;> simp [conclude]

theorem answered_cases (hs : s.registry.Inverse) (answer : (s.step c).1 = some (.ok (some h))) :
    h = rootHandle ∨ (∃ p, s.registry.handleOf? p = some h) ∨
      (s.step c).2.registry.next = h + 1 := by
  cases c with
  | first call =>
    cases call with
    | establishRoot p =>
      simp only [Shared.step] at answer
      cases he : (s.registry.enter rootHandle p).1 with
      | error e => simp [he, Except.map] at answer
      | ok u => simp [he, Except.map] at answer; exact .inl answer.symm
    | allocate =>
      obtain rfl : s.registry.allocate.1 = h := by simpa [Shared.step] using answer
      exact .inr (.inr rfl)
    | map h' p =>
      simp only [Shared.step] at answer
      cases he : (s.registry.enter h' p).1 <;> simp [he, Except.map] at answer
    | handleFor p =>
      cases hp : s.registry.handleOf? p with
      | none => simp [Shared.step, hp] at answer
      | some h' =>
        obtain rfl : h' = h := by simpa [Shared.step, hp] using answer
        exact .inr (.inl ⟨p, hp⟩)
    | unmap h' p => exact absurd answer (conclude_none_ne _)
    | remap h' old new => exact absurd answer (conclude_none_ne _)
    | remapTree h' old new => exact absurd answer (conclude_none_ne _)
    | checkMove source target => exact absurd answer (conclude_none_ne _)
    | moveTree source target =>
      cases ht : target.strictlyWithin source with
      | true => simp [Shared.step, moveTree_of_strictlyWithin ht] at answer
      | false =>
        have hmoving : (s.registry.cleared target).handleOf? source = some h := by
          simpa [Shared.step, moveTree_eq ht] using answer
        obtain ⟨q, hq, -⟩ := ((hs.removePairs_subtree target).handle_iff h source).1 hmoving
        exact .inr (.inl ⟨q, hs.handleOf?_of_pathOf? (hs.pathOf?_removePairs_subtree.1 hq).1⟩)
  | second position =>
    cases hw : s.waiting[position]? with
    | none => simp [Shared.step, hw] at answer
    | some p =>
      have hanswer : (s.registry.assign p).1 = h := by simpa [Shared.step, hw] using answer
      cases hp : s.registry.handleOf? p with
      | some h' =>
        simp only [assign, hp] at hanswer
        exact .inr (.inl ⟨p, hanswer ▸ hp⟩)
      | none =>
        obtain ⟨hfirst, hnext⟩ := assign_of_none hp
        refine .inr (.inr ?_)
        simp only [Shared.step, hw, hnext, ← hfirst, hanswer]

theorem Issues.lt_next (hs : s.registry.Inverse) (ha : s.registry.Ahead) (hc : c.InRange)
    (hi : s.Issues h c) :
    h < (s.step c).2.registry.next := by
  obtain ⟨hafter, hle⟩ := ahead_step hs ha hc
  cases hi with
  | @bound p answer =>
    refine (ha.enter hc p).2.2 ?_
    simp only [Shared.step] at answer
    cases he : (s.registry.enter h p).1 with
    | error e => simp [he, Except.map] at answer
    | ok u => rfl
  | answered answer =>
    rcases answered_cases hs answer with rfl | ⟨p, hp⟩ | hnext
    · exact hafter.root
    · exact Nat.lt_of_lt_of_le (ha.lt_of_handleOf? hs hp) hle
    · exact hnext ▸ Nat.lt_succ_self h

theorem run_append (s : Shared) (before after : List Section) :
    s.run (before ++ after) = (s.run before).run after :=
  List.foldl_append ..

theorem ahead_run (hs : s.registry.Inverse) (ha : s.registry.Ahead) {sections : List Section}
    (hc : ∀ c ∈ sections, c.InRange) :
    (s.run sections).registry.Ahead ∧ s.registry.next ≤ (s.run sections).registry.next := by
  induction sections generalizing s with
  | nil => exact ⟨ha, Nat.le_refl _⟩
  | cons c sections ih =>
    obtain ⟨hstep, hle⟩ := ahead_step hs ha (hc c List.mem_cons_self)
    obtain ⟨hrun, hle'⟩ := ih (hs.step c) hstep fun d hd => hc d (List.mem_cons_of_mem c hd)
    exact ⟨hrun, Nat.le_trans hle hle'⟩

theorem Issues.lt_next_run {before after : List Section}
    (hc : ∀ c' ∈ before ++ c :: after, c'.InRange) (hi : (Shared.empty.run before).Issues h c) :
    h < (Shared.empty.run (before ++ c :: after)).registry.next := by
  have hbefore : ∀ c' ∈ before, c'.InRange := fun c' hc' => hc c' (List.mem_append_left _ hc')
  have hat : c.InRange := hc c (List.mem_append_right _ List.mem_cons_self)
  have hafter : ∀ c' ∈ after, c'.InRange := fun c' hc' =>
    hc c' (List.mem_append_right _ (List.mem_cons_of_mem c hc'))
  have hs := inverse_empty.run (s := Shared.empty) before
  have ha := (ahead_run (s := Shared.empty) inverse_empty ahead_empty hbefore).1
  have hlt := hi.lt_next hs ha hat
  have hle := (ahead_run (hs.step c) (ahead_step hs ha hat).1 hafter).2
  rw [run_append]
  exact Nat.lt_of_lt_of_le hlt hle

theorem Assigns.answers (ha : s.Assigns c) :
    ∃ h, (s.step c).1 = some (.ok (some h)) ∧ s.registry.next ≤ h := by
  cases ha with
  | allocate => exact ⟨_, rfl, le_firstFree ..⟩
  | @assign position p waits unnamed =>
    refine ⟨s.registry.allocate.1, ?_, le_firstFree ..⟩
    simp only [Shared.step, waits, (assign_of_none unnamed).1]

end Shared

end StoreMount.Registry
