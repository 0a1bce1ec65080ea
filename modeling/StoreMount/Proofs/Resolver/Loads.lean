import StoreMount.Proofs.Resolver.Queues

/-!
# What the record of loads tells

A slot is on the table from when it is opened until the first load on it has ended. So the first
load on a slot is the one that counts: if it succeeds its principal is remembered, and if it fails
nothing that comes of the slot later is. An answer was remembered, or it is that of some load on the
caller's slot.
-/
namespace StoreMount.Resolver.Batch

def firstLoad? (loads : List Load) (slot : Nat) : Option Load :=
  loads.find? fun load => decide (load.slot = slot)

theorem firstLoad?_eq_none_iff {loads : List Load} {slot : Nat} :
    firstLoad? loads slot = none ↔ ∀ load ∈ loads, load.slot ≠ slot := by
  simp [firstLoad?]

theorem firstLoad?_append (loads : List Load) (load : Load) (slot : Nat) :
    firstLoad? (loads ++ [load]) slot =
      (firstLoad? loads slot).or (if load.slot = slot then some load else none) := by
  rw [firstLoad?, List.find?_append, firstLoad?, List.find?_singleton]
  simp only [decide_eq_true_eq]

theorem mem_of_firstLoad? {loads : List Load} {slot : Nat} {load : Load}
    (h : firstLoad? loads slot = some load) :
    load ∈ loads ∧ load.slot = slot := by
  have hs :=
    List.find?_some (show loads.find? (fun load => decide (load.slot = slot)) = some load from h)
  exact ⟨List.mem_of_find?_eq_some h, of_decide_eq_true hs⟩

theorem firstLoad?_append_ok {loads : List Load} {slot s : Nat} {uid u : UInt32}
    {p p' : Principal} :
    firstLoad? (loads ++ [⟨slot, uid, .ok p⟩]) s = some ⟨s, u, .ok p'⟩ ↔
      firstLoad? loads s = some ⟨s, u, .ok p'⟩ ∨
      (firstLoad? loads slot = none ∧ slot = s ∧ uid = u ∧ p = p') := by
  rw [firstLoad?_append]
  cases hs : firstLoad? loads s with
  | none =>
    by_cases he : slot = s
    · simp [he, hs]
    · simp [he]
  | some load =>
    have hne : ¬(firstLoad? loads slot = none ∧ slot = s ∧ uid = u ∧ p = p') := by
      rintro ⟨hn, rfl, -⟩
      cases hn.symm.trans hs
    rw [or_iff_left hne]
    rfl

/-- How a batch stands to the loads that have ended and to what was known before. -/
structure Recorded (before : Table UInt32 Principal) (owner : Owners) (loads : List Load)
    (b : Batch) : Prop where
  listed : ∀ u s, b.current.get? u = some s ↔
    s < b.slots.size ∧ owner s = u ∧ ∀ load ∈ loads, load.slot ≠ s
  unknown : ∀ u s, b.current.get? u = some s → b.resolver.known.get? u = none
  owned : ∀ load ∈ loads, load.slot < b.slots.size ∧ owner load.slot = load.uid
  known : ∀ u p, b.resolver.known.get? u = some p ↔
    before.get? u = some p ∨ ∃ s, firstLoad? loads s = some ⟨s, u, .ok p⟩
  answered : ∀ c u p, b.At c u (.done (.ok p)) → before.get? u = some p ∨ ∃ s, ⟨s, u, .ok p⟩ ∈ loads
  kept : ∀ s p, (∃ queue, b.slots.get? s = some ⟨some p, queue⟩) ↔ ∃ u, ⟨s, u, .ok p⟩ ∈ loads
  credited : ∀ s u p, ⟨s, u, .ok p⟩ ∈ loads → ∃ c, b.At c u (.done (.ok p))
  fresh : ∀ s, s < b.slots.size → before.get? (owner s) = none

variable {b b' : Batch} {owner : Owners} {caller slot : Nat} {uid : UInt32} {stage : Stage}
    {load : Option Load}
  {before : Table UInt32 Principal} {loads : List Load}

namespace Recorded

theorem of_known (h : Recorded before owner loads b) {p : Principal}
    (hp : b.resolver.known.get? uid = some p) :
    before.get? uid = some p ∨ ∃ s, ⟨s, uid, .ok p⟩ ∈ loads := by
  rcases (h.known uid p).1 hp with hp | ⟨s, hs⟩
  · exact .inl hp
  · exact .inr ⟨s, (mem_of_firstLoad? hs).1⟩

theorem before_of_unknown (h : Recorded before owner loads b)
    (hk : b.resolver.known.get? uid = none) :
    before.get? uid = none := by
  cases hp : before.get? uid with
  | none => rfl
  | some p => cases hk.symm.trans ((h.known uid p).2 (.inl hp))

theorem setStage (h : Recorded before owner loads b) (hc : b.At caller uid stage)
    (hs : stage.finished = false) {stage' : Stage}
    (hs' : ∀ p, stage' = .done (.ok p) → before.get? uid = some p ∨ ∃ s, ⟨s, uid, .ok p⟩ ∈ loads) :
    Recorded before owner loads (b.setStage caller stage') := by
  refine ⟨h.listed, h.unknown, h.owned, h.known,
    fun c u p hd => ?_, h.kept, fun s u p hl => ?_, h.fresh⟩
  · obtain ⟨-, rfl, he⟩ | ⟨-, hd⟩ := (at_setStage hc).1 hd
    · exact hs' p he.symm
    · exact h.answered c u p hd
  · obtain ⟨c, hd⟩ := h.credited s u p hl
    refine ⟨c, (at_setStage hc).2 (.inr ⟨?_, hd⟩)⟩
    rintro rfl
    rw [(hc.unique hd).2] at hs
    cases hs

theorem requeued (h : Recorded before owner loads b) {slots : Table Nat Slot}
    (hsize : slots.size = b.slots.size)
    (hs : ∀ s, (slots.get? s).bind Slot.principal = (b.slots.get? s).bind Slot.principal) :
    Recorded before owner loads { b with slots } := by
  have hkept : ∀ (t : Table Nat Slot) s p, (∃ queue, t.get? s = some ⟨some p, queue⟩) ↔
      (t.get? s).bind Slot.principal = some p := fun t s p => by
    constructor
    · rintro ⟨queue, hq⟩
      rw [hq]
      rfl
    · intro hp
      obtain ⟨⟨p', queue⟩, hq, rfl⟩ := Option.bind_eq_some_iff.1 hp
      exact ⟨queue, hq⟩
  refine ⟨?_, h.unknown, ?_, h.known, h.answered, fun s p => ?_, h.credited, ?_⟩
  · simpa only [hsize] using h.listed
  · simpa only [hsize] using h.owned
  · rw [hkept, hs, ← hkept]
    exact h.kept s p
  · simpa only [hsize] using h.fresh

theorem opened (h : Recorded before owner loads b) (ho : b.Orderly owner)
    (hk : b.resolver.known.get? uid = none) (hc : b.current.get? uid = none) :
    Recorded before (fun s => if s = b.slots.size then uid else owner s) loads
      { b with
        slots := b.slots.insert b.slots.size ⟨none, []⟩
        current := b.current.insert uid b.slots.size } := by
  have hfree := ho.free
  have hsize : (b.slots.insert b.slots.size ⟨none, []⟩).size = b.slots.size + 1 := by
    rw [Table.size_insert, hfree]
    rfl
  refine ⟨fun u s => ?_, fun u s hu => ?_, fun load hl => ?_, h.known, h.answered,
    fun s p => ?_, h.credited, fun s hs => ?_⟩
  · simp only [hsize, Table.get?_insert]
    by_cases he : s = b.slots.size
    · have hnone : b.current.get? u ≠ some s :=
        fun hu => Nat.lt_irrefl _ (he ▸ ((h.listed u s).1 hu).1)
      have hfresh : ∀ load ∈ loads, load.slot ≠ s :=
        fun load hl => Nat.ne_of_lt (he ▸ (h.owned load hl).1)
      simp only [he, if_true] at hnone hfresh ⊢
      constructor
      · intro hu
        refine ⟨Nat.lt_succ_self _, ?_, hfresh⟩
        split at hu
        · next he => exact he.symm
        · exact absurd hu hnone
      · rintro ⟨-, rfl, -⟩
        exact if_pos rfl
    · rw [if_neg he, Nat.lt_succ_iff_lt_or_eq, or_iff_left he]
      split
      · next hu =>
        rw [hu, ← h.listed, hc]
        simp [Ne.symm he]
      · exact h.listed u s
  · simp only [Table.get?_insert] at hu
    split at hu
    · next he => exact he ▸ hk
    · exact h.unknown u s hu
  · obtain ⟨hlt, he⟩ := h.owned load hl
    simp only [hsize]
    exact ⟨Nat.lt_succ_of_lt hlt, (if_neg (Nat.ne_of_lt hlt)).trans he⟩
  · rw [← h.kept s p]
    simp only [Table.get?_insert]
    split
    · next he => simp [he, hfree]
    · rfl
  · by_cases he : s = b.slots.size
    · rw [if_pos he]
      exact h.before_of_unknown hk
    · rw [if_neg he]
      exact h.fresh s ((Nat.lt_succ_iff_lt_or_eq.1 (Nat.lt_of_lt_of_eq hs hsize)).resolve_right he)

theorem abandoned (h : Recorded before owner loads b) (hlt : slot < b.slots.size)
    (ho : owner slot = uid) (e : FacadeError) :
    Recorded before owner (loads ++ [⟨slot, uid, .error e⟩]) (b.unlist uid slot) := by
  have hcurrent : ∀ u s, (b.unlist uid slot).current.get? u = some s ↔
      b.current.get? u = some s ∧ s ≠ slot := fun u s => by
    rw [current_unlist]
    split
    · next hu => simp [hu.1, hu.2, eq_comm]
    · next hu =>
      refine ⟨fun hs => ⟨hs, ?_⟩, And.left⟩
      rintro rfl
      obtain rfl : u = uid := ((h.listed u s).1 hs).2.1.symm.trans ho
      exact hu ⟨rfl, hs⟩
  have hok : ∀ {s u p}, (⟨s, u, .ok p⟩ : Load) ∈ loads ++ [⟨slot, uid, .error e⟩] ↔
      (⟨s, u, .ok p⟩ : Load) ∈ loads := by
    simp
  refine ⟨fun u s => ?_, fun u s hu => ?_, fun load hl => ?_, fun u p => ?_, fun c u p hd => ?_,
    fun s p => ?_, fun s u p hl => ?_, ?_⟩
  · rw [hcurrent, h.listed, slots_unlist]
    simp only [List.forall_mem_append, List.forall_mem_singleton, and_assoc, ne_comm]
  · rw [resolver_unlist]
    exact h.unknown u s ((hcurrent u s).1 hu).1
  · rw [slots_unlist]
    rcases List.mem_append.1 hl with hl | hl
    · exact h.owned load hl
    · obtain rfl := List.mem_singleton.1 hl
      exact ⟨hlt, ho⟩
  · rw [resolver_unlist, h.known]
    refine or_congr Iff.rfl (exists_congr fun s => ?_)
    rw [firstLoad?_append]
    cases firstLoad? loads s with
    | none => split <;> simp
    | some load => rfl
  · rw [At, callers_unlist] at hd
    simpa only [hok] using h.answered c u p hd
  · rw [slots_unlist, h.kept]
    exact exists_congr fun u => hok.symm
  · obtain ⟨c, hd⟩ := h.credited s u p (hok.1 hl)
    exact ⟨c, by rw [At, callers_unlist]; exact hd⟩
  · rw [slots_unlist]
    exact h.fresh

theorem known_succeeded (h : Recorded before owner loads b) (hlt : slot < b.slots.size)
    (howner : owner slot = uid) (p : Principal) (u : UInt32) (p' : Principal) :
    (b.succeed caller uid slot p).resolver.known.get? u = some p' ↔
      before.get? u = some p' ∨ ∃ s,
        firstLoad? (loads ++ [⟨slot, uid, .ok p⟩]) s = some ⟨s, u, .ok p'⟩ := by
  have hfirst : firstLoad? loads slot = none ↔ b.current.get? uid = some slot := by
    rw [h.listed, firstLoad?_eq_none_iff]
    exact ⟨fun hs => ⟨hlt, howner, hs⟩, fun hs => hs.2.2⟩
  rw [known_succeed]
  simp only [firstLoad?_append_ok, hfirst, exists_or, ← or_assoc, ← h.known]
  split
  · next hu =>
    obtain ⟨rfl, hcur⟩ := hu
    simp [h.unknown u slot hcur, hcur]
  · next hu =>
    refine (or_iff_left ?_).symm
    rintro ⟨s, hcur, -, rfl, -⟩
    exact hu ⟨rfl, hcur⟩

theorem succeeded (h : Recorded before owner loads b) (ho : b.Orderly owner) {person : Person}
    (hc : b.At caller uid (.connecting slot person)) (p : Principal) :
    Recorded before owner (loads ++ [⟨slot, uid, .ok p⟩]) (b.succeed caller uid slot p) := by
  obtain ⟨queue, hslot⟩ := ho.unanswered hc rfl
  have hlt := ho.lt_size hslot
  have howner := (ho.kept slot _ hslot).theirs caller uid _ hc rfl
  have hsize := ho.size_succeeded hc p
  refine ⟨fun u s => ?_, fun u s hu => ?_, fun load hl => ?_, h.known_succeeded hlt howner p,
    fun c u p' hd => ?_, fun s p' => ?_, fun s u p' hl => ?_, ?_⟩
  · rw [ho.current_succeeded hc p, h.listed, hsize]
    simp only [List.forall_mem_append, List.forall_mem_singleton, and_assoc, ne_comm]
  · obtain ⟨hs, hne⟩ := (ho.current_succeeded hc p u).1 hu
    rw [known_succeed, if_neg]
    · exact h.unknown u s hs
    · rintro ⟨rfl, hs'⟩
      exact hne (Option.some.inj (hs.symm.trans hs'))
  · rw [hsize]
    rcases List.mem_append.1 hl with hl | hl
    · exact h.owned load hl
    · obtain rfl := List.mem_singleton.1 hl
      exact ⟨hlt, howner⟩
  · obtain ⟨-, rfl, hst⟩ | ⟨-, hd⟩ := (Orderly.at_succeeded hc p).1 hd
    · cases hst
      exact .inr ⟨slot, by simp⟩
    · exact (h.answered c u p' hd).imp_right fun ⟨s, hs⟩ => ⟨s, List.mem_append_left _ hs⟩
  · rw [slots_succeed]
    simp only [List.mem_append, List.mem_singleton, exists_or, ← h.kept s p']
    split
    · next he => simp [he, hslot, eq_comm]
    · next he => simp [he]
  · rcases List.mem_append.1 hl with hl | hl
    · obtain ⟨c, hd⟩ := h.credited s u p' hl
      refine ⟨c, (Orderly.at_succeeded hc p).2 (.inr ⟨?_, hd⟩)⟩
      rintro rfl
      cases (hc.unique hd).2
    · cases List.mem_singleton.1 hl
      exact ⟨caller, (Orderly.at_succeeded hc p).2 (.inl ⟨rfl, rfl, rfl⟩)⟩
  · rw [hsize]
    exact h.fresh

theorem meddled (h : Recorded before owner loads b) (link : Link) :
    Recorded before owner loads { b with link } :=
  ⟨h.listed, h.unknown, h.owned, h.known, h.answered, h.kept, h.credited, h.fresh⟩

theorem failed (h : Recorded before owner loads b) (ho : b.Orderly owner)
    (hc : b.At caller uid stage) (hs : stage.held? = some slot) (e : FacadeError) :
    Recorded before owner (loads ++ [⟨slot, uid, .error e⟩]) (b.fail caller uid slot e) := by
  obtain ⟨queue, hslot⟩ := ho.unanswered hc hs
  have hlt := ho.placed caller uid stage slot hc (Stage.slot?_of_held? hs)
  have hk := ho.kept slot _ hslot
  have hdone : Recorded before owner loads (b.setStage caller (.done (.error e))) := by
    exact h.setStage hc (Stage.finished_of_held? hs) fun _ he => by cases he
  rw [fail_eq]
  obtain ⟨-, hw⟩ | ⟨p, next, rest, -, hslot', hw⟩ :=
    wake_cases (b.setStage caller (.done (.error e))) slot <;> rw [hw]
  · exact hdone.abandoned hlt (hk.theirs caller uid stage hc (Stage.slot?_of_held? hs)) e
  · rw [slots_setStage] at hslot'
    obtain ⟨rfl, rfl⟩ := Slot.mk.inj (Option.some.inj (hslot'.symm.trans hslot))
    have hsize : (b.slots.insert slot ⟨none, rest⟩).size = b.slots.size := by
      rw [Table.size_insert, hslot]
      rfl
    obtain ⟨u, hu⟩ := hk.queued next List.mem_cons_self
    have hnext : (b.setStage caller (.done (.error e))).At next u (.queued slot) := by
      refine (at_setStage hc).2 (.inr ⟨?_, hu⟩)
      rintro rfl
      rw [(hc.unique hu).2] at hs
      cases hs
    have hpassed : Recorded before owner loads
        { b.setStage caller (.done (.error e)) with
          slots := b.slots.insert slot ⟨none, rest⟩ } := by
      refine hdone.requeued hsize fun s => ?_
      rw [Table.get?_insert]
      split
      · next he => rw [he, slots_setStage, hslot]; rfl
      · rfl
    have hgranted : Recorded before owner loads (({ b.setStage caller (.done (.error e)) with
        slots := b.slots.insert slot ⟨none, rest⟩ }).setStage next (.granted slot)) :=
      hpassed.setStage hnext rfl fun _ he => by cases he
    exact hgranted.abandoned (Nat.lt_of_lt_of_eq hlt hsize.symm)
      (hk.theirs caller uid stage hc (Stage.slot?_of_held? hs)) e

theorem act (h : Recorded before owner loads b) (ho : b.Orderly owner) (ha : b.Act caller load b') :
    Recorded before owner (loads ++ load.toList) b' := by
  cases ha with
  | recalled uid p hc hp =>
    exact List.append_nil _ ▸ h.setStage hc rfl fun p' he => by
      cases he
      exact h.of_known hp
  | shared uid slot p queue hc hs =>
    refine List.append_nil _ ▸ h.setStage hc rfl fun p' he => ?_
    cases he
    obtain ⟨u, hl⟩ := (h.kept slot p).1 ⟨queue, hs⟩
    obtain rfl : u = uid :=
      (h.owned _ hl).2.symm.trans ((ho.kept slot _ hs).theirs caller uid _ hc rfl)
    exact .inr ⟨slot, hl⟩
  | joined uid slot hc hs =>
    obtain ⟨queue, hslot, -⟩ := ho.holder_of_listed hs
    have hqueued : Recorded before owner loads
        { b with
          slots := b.slots.adjust slot fun s => { s with queue := s.queue ++ [caller] } } := by
      refine h.requeued ?_ fun s => ?_
      · rw [Table.adjust, hslot, Table.size_insert, hslot]
        rfl
      · rw [Table.get?_adjust]
        split
        · next he => rw [he, hslot]; rfl
        · rfl
    exact List.append_nil _ ▸ hqueued.setStage hc rfl fun _ he => by cases he
  | connected uid slot hc person link =>
    exact List.append_nil _ ▸ (h.meddled link).setStage hc rfl fun _ he => by cases he
  | failed uid slot stage hc hs e link => exact (h.meddled link).failed (ho.meddled link) hc hs e
  | succeeded uid slot person hc p link => exact (h.meddled link).succeeded (ho.meddled link) hc p

theorem called (h : Recorded before owner loads b) (uid : UInt32) :
    Recorded before owner loads (b.step (.call uid)) := by
  have hat : ∀ {c u answer}, (b.step (.call uid)).At c u (.done answer) ↔ b.At c u (.done answer) :=
      fun {c u answer} => by
    rw [at_call]
    exact or_iff_left nofun
  refine ⟨h.listed, h.unknown, h.owned, h.known, ?_, h.kept, ?_, h.fresh⟩
  · simpa only [hat] using h.answered
  · simpa only [hat] using h.credited

theorem turned (h : Recorded before owner loads b) (ho : b.Orderly owner)
    (ht : b.Turned caller load b') :
    ∃ owner', b'.Orderly owner' ∧ Recorded before owner' (loads ++ load.toList) b' := by
  cases ht with
  | idle => exact ⟨owner, ho, List.append_nil _ ▸ h⟩
  | act _ _ ha => exact ⟨owner, ho.act ha, h.act ho ha⟩
  | first uid hc hk hs _ _ ha =>
    have hopened : Recorded before _ loads (b.opened caller uid) :=
      Recorded.setStage (h.opened ho hk hs) hc rfl fun _ he => by cases he
    exact ⟨_, (ho.opened hc hs).act ha, hopened.act (ho.opened hc hs) ha⟩

end Recorded

/-! ## The load of a turn -/

theorem Act.at (ha : b.Act caller load b') : ∃ uid stage, b.At caller uid stage := by
  cases ha with
  | recalled uid _ hc | shared uid _ _ _ hc | joined uid _ hc | connected uid _ hc
  | succeeded uid _ _ hc => exact ⟨uid, _, hc⟩
  | failed uid _ stage hc => exact ⟨uid, stage, hc⟩

theorem Act.load_of_free (ha : b.Act caller load b') (hc : b.At caller uid stage)
    (hs : stage.held? = none) :
    load = none ∧ b.loadsFor? caller = none := by
  cases ha with
  | recalled uid' p hc' hp => simp [loadsFor?, hc', hp]
  | shared uid' slot p queue hc' => simp [loadsFor?, hc', Stage.held?]
  | joined uid' slot hc' hs' => simp [loadsFor?, hc', hs']
  | connected uid' slot hc' | succeeded uid' slot person hc' =>
    rw [(hc.unique hc').2] at hs
    cases hs
  | failed uid' slot stage' hc' hs' =>
    rw [(hc.unique hc').2, hs'] at hs
    cases hs

theorem Act.load_of_held (ho : b.Orderly owner) (ha : b.Act caller load b')
    (hc : b.At caller uid stage) (hs : stage.held? = some slot) :
    ∃ stage', b'.At caller uid stage' ∧ load = stage'.answer?.map fun answer =>
      ⟨slot, uid, answer⟩ := by
  cases ha with
  | recalled uid' p hc' | shared uid' slot' p queue hc' | joined uid' slot' hc' =>
    rw [(hc.unique hc').2] at hs
    cases hs
  | connected uid' slot' hc' person link =>
    obtain ⟨rfl, rfl⟩ := hc.unique hc'
    exact ⟨.connecting slot' person,
      (at_setStage (b := { b with link }) hc).2 (.inl ⟨rfl, rfl, rfl⟩), rfl⟩
  | failed uid' slot' stage' hc' hs' e link =>
    obtain ⟨rfl, rfl⟩ := hc.unique hc'
    obtain rfl : slot' = slot := Option.some.inj (hs'.symm.trans hs)
    exact ⟨.done (.error e), (ho.meddled link).at_failed hc hs e, rfl⟩
  | succeeded uid' slot' person hc' p link =>
    obtain ⟨rfl, rfl⟩ := hc.unique hc'
    obtain rfl : slot' = slot := Option.some.inj hs
    exact ⟨.done (.ok p),
      (at_succeed p).2 ((at_setStage (b := { b with link }) hc).2 (.inl ⟨rfl, rfl, rfl⟩)), rfl⟩

theorem loadsFor?_of_held (hc : b.At caller uid stage) (hs : stage.held? = some slot) :
    b.loadsFor? caller = some slot := by
  have hc : b.callers[caller]? = some (uid, stage) := hc
  cases stage <;> first | cases hs; done | simp only [loadsFor?, hc, hs]

theorem loadsFor?_opened (hc : b.At caller uid .starting) (hk : b.resolver.known.get? uid = none)
    (hs : b.current.get? uid = none) : b.loadsFor? caller = some b.slots.size := by
  have hc : b.callers[caller]? = some (uid, .starting) := hc
  simp [loadsFor?, hc, hk, hs]

theorem ended?_eq {ids : Identities} (hs : b.loadsFor? caller = some slot)
    (hc : (b.turn ids caller).At caller uid stage) :
    b.ended? (.turn ids caller) = stage.answer?.map fun answer => ⟨slot, uid, answer⟩ := by
  have hc : (b.turn ids caller).callers[caller]? = some (uid, stage) := hc
  simp only [ended?, hs, hc]
  cases stage <;> rfl

theorem ended?_eq_none {ids : Identities} (hs : b.loadsFor? caller = none) :
    b.ended? (.turn ids caller) = none := by
  simp only [ended?, hs]
  rfl

theorem at_opened (hc : b.At caller uid .starting) :
    (b.opened caller uid).At caller uid (.granted b.slots.size) :=
  (at_setStage (b := { b with slots := _, current := _ }) hc).2 (.inl ⟨rfl, rfl, rfl⟩)

theorem Turned.load_eq {ids : Identities} (ho : b.Orderly owner) (ht : b.Turned caller load b')
    (hb' : b.turn ids caller = b') : load = b.ended? (.turn ids caller) := by
  cases ht with
  | idle h =>
    refine (ended?_eq_none ?_).symm
    cases hc : b.callers[caller]? with
    | none => simp only [loadsFor?, hc]
    | some x =>
      obtain ⟨uid, stage⟩ := x
      obtain ⟨answer, rfl⟩ | ⟨slot, rfl, -⟩ :=
        h uid stage hc <;> simp only [loadsFor?, hc, Stage.held?]
  | act load b' ha =>
    obtain ⟨uid, stage, hc⟩ := ha.at
    cases hs : stage.held? with
    | none =>
      obtain ⟨rfl, hfree⟩ := ha.load_of_free hc hs
      exact (ended?_eq_none hfree).symm
    | some slot =>
      obtain ⟨stage', hc', rfl⟩ := ha.load_of_held ho hc hs
      exact (ended?_eq (loadsFor?_of_held hc hs) (hb' ▸ hc')).symm
  | first uid hc hk hs load b' ha =>
    obtain ⟨stage', hc', rfl⟩ := ha.load_of_held (ho.opened hc hs) (at_opened hc) rfl
    exact (ended?_eq (loadsFor?_opened hc hk hs) (hb' ▸ hc')).symm

end StoreMount.Resolver.Batch
