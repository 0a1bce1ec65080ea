import StoreMount.Proofs.Resolver.Loads

/-!
# What the callers of a run learn

The order and the record are kept by every event, so they hold of every run. A number that is known
stays known, and nobody who starts from then on holds a slot for it. While no load for a number has
failed, a second one for it does not begin once the first has ended, so there is no second one.
-/
namespace StoreMount.Resolver.Batch

variable {b b' : Batch} {owner : Owners} {caller slot i : Nat} {uid u : UInt32} {stage st : Stage}
    {load : Option Load}
  {before : Table UInt32 Principal} {loads : List Load}

def Unfailing (loads : List Load) (u : UInt32) : Prop :=
  ∀ load ∈ loads, load.uid = u → ∃ p, load.answer = .ok p

def countFor (loads : List Load) (u : UInt32) : Nat :=
  loads.countP fun load => decide (load.uid = u)

theorem Unfailing.of_append {loads' : List Load} (h : Unfailing (loads ++ loads') u) :
    Unfailing loads u :=
  fun load hl => h load (List.mem_append_left _ hl)

theorem countFor_append (loads loads' : List Load) (u : UInt32) :
    countFor (loads ++ loads') u = countFor loads u + countFor loads' u := List.countP_append

theorem countFor_eq_zero : countFor loads u = 0 ↔ ∀ load ∈ loads, load.uid ≠ u := by
  simp [countFor, List.countP_eq_zero]

/-- While no load for a number has failed there is at most one. -/
def Single (loads : List Load) : Prop := ∀ u, Unfailing loads u → countFor loads u ≤ 1

namespace Recorded

theorem firstLoad?_uid (h : Recorded before owner loads b) {load : Load} (hl : load ∈ loads) :
    ∃ first ∈ loads, firstLoad? loads load.slot = some first ∧ first.slot = load.slot ∧
      first.uid = load.uid := by
  cases hf : firstLoad? loads load.slot with
  | none => exact absurd rfl (firstLoad?_eq_none_iff.1 hf load hl)
  | some first =>
    obtain ⟨hm, hs⟩ := mem_of_firstLoad? hf
    exact ⟨first, hm, rfl, hs, (h.owned first hm).2.symm.trans (hs ▸ (h.owned load hl).2)⟩

theorem known_of_load (h : Recorded before owner loads b) (hu : Unfailing loads u) {load : Load}
    (hl : load ∈ loads) (hload : load.uid = u) : ∃ p, b.resolver.known.get? u = some p := by
  obtain ⟨⟨s, u', answer⟩, hm, hf, hs, hu'⟩ := h.firstLoad?_uid hl
  obtain rfl : u' = u := hu'.trans hload
  obtain ⟨p, rfl⟩ := hu _ hm rfl
  exact ⟨p, (h.known u' p).2 (.inr ⟨s, by rw [show s = load.slot from hs, hf, ← hs]⟩)⟩

theorem free_of_known (h : Recorded before owner loads b) (ho : b.Orderly owner)
    (hu : Unfailing loads u) {p : Principal} (hp : b.resolver.known.get? u = some p)
    (hc : b.At caller u stage) : stage.held? = none := by
  cases hs : stage.held? with
  | none => rfl
  | some slot =>
    obtain ⟨queue, hslot⟩ := ho.unanswered hc hs
    have howner := (ho.kept slot _ hslot).theirs caller u stage hc (Stage.slot?_of_held? hs)
    have hlt := ho.placed caller u stage slot hc (Stage.slot?_of_held? hs)
    by_cases hl : ∀ load ∈ loads, load.slot ≠ slot
    · cases hp.symm.trans (h.unknown u slot ((h.listed u slot).2 ⟨hlt, howner, hl⟩))
    · simp only [Classical.not_forall, Decidable.not_not] at hl
      obtain ⟨⟨s, u', answer⟩, hm, rfl⟩ := hl
      obtain rfl : u' = u := (h.owned _ hm).2.symm.trans howner
      obtain ⟨p', rfl⟩ := hu _ hm rfl
      obtain ⟨queue', hslot'⟩ := (h.kept s p').2 ⟨u', hm⟩
      cases hslot.symm.trans hslot'

end Recorded

theorem Act.load_for {load : Load} (ho : b.Orderly owner) (ha : b.Act caller (some load) b')
    (hc : b.At caller uid stage) :
    load.uid = uid ∧ stage.held? = some load.slot := by
  cases hs : stage.held? with
  | none => cases (ha.load_of_free hc hs).1
  | some slot =>
    obtain ⟨stage', -, hl⟩ := ha.load_of_held ho hc hs
    obtain ⟨answer, -, rfl⟩ := Option.map_eq_some_iff.1 hl.symm
    exact ⟨rfl, rfl⟩

theorem Turned.unknown {load : Load} (ht : b.Turned caller (some load) b') (ho : b.Orderly owner)
    (h : Recorded before owner loads b) (hu : Unfailing loads load.uid) :
    b.resolver.known.get? load.uid = none := by
  cases ht with
  | act _ _ ha =>
    obtain ⟨uid, stage, hc⟩ := ha.at
    obtain ⟨rfl, hs⟩ := ha.load_for ho hc
    cases hp : b.resolver.known.get? load.uid with
    | none => rfl
    | some p => cases hs.symm.trans (h.free_of_known ho hu hp hc)
  | first uid hc hk hs _ _ ha =>
    rw [(ha.load_for (ho.opened hc hs) (at_opened hc)).1]
    exact hk

theorem Single.turned (hb : Single loads) (ht : b.Turned caller load b') (ho : b.Orderly owner)
    (h : Recorded before owner loads b) : Single (loads ++ load.toList) := by
  intro u hu
  have hsingle := hb u hu.of_append
  cases load with
  | none => exact (List.append_nil loads).symm ▸ hsingle
  | some load =>
    rw [countFor_append]
    by_cases hload : load.uid = u
    · subst hload
      have hnone := ht.unknown ho h hu.of_append
      have hzero : countFor loads load.uid = 0 := countFor_eq_zero.2 fun load' hl hu' => by
        obtain ⟨p, hp⟩ := h.known_of_load hu.of_append hl hu'
        cases hnone.symm.trans hp
      rw [hzero]
      simp [countFor]
    · have hzero : countFor (some load).toList u = 0 := countFor_eq_zero.2 fun load' hl =>
        List.mem_singleton.1 hl ▸ hload
      rw [hzero]
      exact hsingle

/-! ## Runs -/

structure Sound (before : Table UInt32 Principal) (loads : List Load) (b : Batch) : Prop where
  recorded : ∃ owner, b.Orderly owner ∧ Recorded before owner loads b
  single : Single loads

theorem sound_start (r : Resolver) (l : Link) (uids : List UInt32) :
    Sound r.known [] (start r l uids) := by
  have hstarting : ∀ c u answer, ¬(start r l uids).At c u (.done answer) := fun c u answer hd => by
    cases starting_of_at_start hd
  refine ⟨⟨fun _ => 0, orderly_start r l uids _, ?_⟩, fun u _ => Nat.zero_le _⟩
  refine ⟨?_, ?_, nofun, ?_, fun c u p hd => absurd hd (hstarting c u _), ?_, nofun, nofun⟩
  · simp [start, Table.size, Table.empty, Table.get?]
  · simp [start]
  · simp [start, firstLoad?]
  · simp [start]

theorem Sound.step (h : Sound before loads b) (e : Event) :
    Sound before (loads ++ (b.ended? e).toList) (b.step e) := by
  obtain ⟨owner, ho, hr⟩ := h.recorded
  cases e with
  | call uid =>
    exact (List.append_nil loads).symm ▸ ⟨⟨owner, ho.called uid, hr.called uid⟩, h.single⟩
  | meddle link =>
    exact (List.append_nil loads).symm ▸ ⟨⟨owner, ho.meddled link, hr.meddled link⟩, h.single⟩
  | turn ids caller =>
    obtain ⟨load, ht⟩ := b.turned ids caller
    rw [← ht.load_eq ho rfl]
    exact ⟨hr.turned ho ht, h.single.turned ht ho hr⟩

theorem Sound.run (h : Sound before loads b) (events : List Event) :
    Sound before (loads ++ b.loads events) (b.run events) := by
  induction events generalizing b loads with
  | nil => exact (List.append_nil loads).symm ▸ h
  | cons e events ih =>
    rw [Batch.loads, ← List.append_assoc]
    exact ih (h.step e)

theorem Sound.known_run (h : Sound before loads b) {p : Principal}
    (hp : b.resolver.known.get? u = some p) (events : List Event) :
    (b.run events).resolver.known.get? u = some p := by
  obtain ⟨owner, -, hr⟩ := h.recorded
  obtain ⟨owner', -, hr'⟩ := (h.run events).recorded
  refine (hr'.known u p).2 (((hr.known u p).1 hp).imp_right fun ⟨s, hs⟩ => ⟨s, ?_⟩)
  rw [firstLoad?, List.find?_append,
    show loads.find? (fun load => decide (load.slot = s)) = _ from hs]
  rfl

/-! ## What a caller sees of the turns of the others -/

theorem callers_setStage_of_ne (hi : i ≠ caller) :
    (b.setStage caller stage).callers[i]? = b.callers[i]? := by
  rw [callers_setStage]
  simp [hi]

theorem Act.elsewhere (ha : b.Act caller load b') (ho : b.Orderly owner) (hi : i ≠ caller) :
    b'.callers[i]? = b.callers[i]? ∨ ∃ u slot, b.At i u (.queued slot) ∧
      b'.At i u (.granted slot) := by
  cases ha with
  | recalled | shared | joined | connected => exact .inl (callers_setStage_of_ne hi)
  | succeeded uid slot person hc p link =>
    rw [callers_succeed]
    exact .inl (callers_setStage_of_ne hi)
  | failed uid slot stage hc hs e link =>
    have hcallers := callers_fail { b with link } caller slot uid e i
    by_cases hn : ({ b with link } : Batch).next? slot = some i
    · obtain ⟨u, hu⟩ := ho.next_queued (show b.next? slot = some i from hn)
      refine .inr ⟨u, slot, hu, ?_⟩
      rw [At, hcallers, show b.callers[i]? = some (u, .queued slot) from hu]
      simp [hn]
    · exact .inl (hcallers.trans (by simp [hn, hi]))

theorem Turned.elsewhere (ht : b.Turned caller load b') (ho : b.Orderly owner) (hi : i ≠ caller) :
    b'.callers[i]? = b.callers[i]? ∨ ∃ u slot, b.At i u (.queued slot) ∧
      b'.At i u (.granted slot) := by
  cases ht with
  | idle => exact .inl rfl
  | act _ _ ha => exact ha.elsewhere ho hi
  | first uid hc _ hs _ _ ha =>
    have hopened : (b.opened caller uid).callers[i]? = b.callers[i]? := callers_setStage_of_ne hi
    rcases ha.elsewhere (ho.opened hc hs) hi with h | ⟨u, slot, hq, hg⟩
    · exact .inl (h.trans hopened)
    · exact .inr ⟨u, slot, hopened.symm.trans hq, hg⟩

theorem Turned.stays (ht : b.Turned caller load b') (ho : b.Orderly owner) (hi : i ≠ caller)
    (hb : b.At i u st) (hst : st.waits = false) : b'.At i u st := by
  rcases ht.elsewhere ho hi with h | ⟨u', slot, hq, -⟩
  · exact h.trans hb
  · rw [(hb.unique hq).2] at hst
    cases hst

theorem Turned.done (ht : b.Turned caller load b') (ho : b.Orderly owner)
    {answer : Except FacadeError Principal} (hb : b.At i u (.done answer)) :
    b'.At i u (.done answer) := by
  by_cases hi : i = caller
  · subst hi
    cases ht with
    | idle => exact hb
    | first uid hc => cases (hb.unique hc).2
    | act _ _ ha =>
      cases ha with
      | recalled uid p hc | shared uid slot p queue hc | joined uid slot hc | connected uid slot hc
      | succeeded uid slot person hc => cases (hb.unique hc).2
      | failed uid slot stage hc hs =>
        rw [← (hb.unique hc).2] at hs
        cases hs
  · exact ht.stays ho hi hb rfl

theorem Sound.done_run (h : Sound before loads b) {answer : Except FacadeError Principal}
    (hc : b.At caller uid (.done answer)) (events : List Event) :
    (b.run events).At caller uid (.done answer) := by
  induction events generalizing b loads with
  | nil => exact hc
  | cons e events ih =>
    refine ih (h.step e) ?_
    cases e with
    | call u => exact at_call.2 (.inl hc)
    | meddle link => exact hc
    | turn ids i =>
      obtain ⟨owner, ho, -⟩ := h.recorded
      obtain ⟨load, ht⟩ := b.turned ids i
      exact ht.done ho hc

theorem turn_of_known {p : Principal} (hp : b.resolver.known.get? u = some p) (ids : Identities)
    (hc : b.At caller u .starting ∨ b.At caller u (.done (.ok p))) :
    b.turn ids caller = b.setStage caller (.done (.ok p)) := by
  rcases hc with hc | hc <;> have hc' : b.callers[caller]? = _ := hc
  · simp only [turn, hc', hp]
  · have hcallers : (b.setStage caller (.done (.ok p))).callers = b.callers :=
        List.ext_getElem? fun i => by
      rw [callers_setStage]
      by_cases hi : i = caller
      · simp [hi, hc']
      · simp [hi]
    have hturn : b.turn ids caller = b := by simp only [turn, hc']
    rw [hturn]
    show b = { b with callers := (b.setStage caller (.done (.ok p))).callers }
    rw [hcallers]

theorem Sound.known_caller (h : Sound before loads b) {p : Principal}
    (hp : b.resolver.known.get? u = some p)
    (hc : b.At caller u .starting ∨ b.At caller u (.done (.ok p))) (events : List Event) :
    (b.run events).At caller u .starting ∨ (b.run events).At caller u (.done (.ok p)) := by
  induction events generalizing b loads with
  | nil => exact hc
  | cons e events ih =>
    refine ih (h.step e) (h.known_run hp [e]) ?_
    rcases hc with hc | hc
    · cases e with
      | call uid => exact .inl (at_call.2 (.inl hc))
      | meddle link => exact .inl hc
      | turn ids i =>
        by_cases hi : caller = i
        · subst hi
          refine .inr ?_
          rw [show b.step (.turn ids caller) = b.setStage caller (.done (.ok p)) from
            turn_of_known hp ids (.inl hc)]
          exact (at_setStage hc).2 (.inl ⟨rfl, rfl, rfl⟩)
        · obtain ⟨owner, ho, -⟩ := h.recorded
          obtain ⟨load, ht⟩ := b.turned ids i
          exact .inl (ht.stays ho hi hc rfl)
    · exact .inr (h.done_run hc [e])

end StoreMount.Resolver.Batch
