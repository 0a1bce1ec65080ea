import StoreMount.Proofs.Resolver.Runs

/-!
# What is left to do

Every stage has a weight, and every turn that is not idle takes weight from its caller and from
nobody else. A caller whose turn will not be idle is ready, and stays so until its turn comes. As
long as somebody has not answered, somebody is ready.
-/
namespace StoreMount.Resolver

namespace Stage

/-- What a caller has left to do. A connection that it has yet to ask for counts `k` more than one
it has asked for. -/
def weight (k : Nat) : Stage → Nat
  | .starting => k + 3
  | .queued _ | .granted _ => k + 2
  | .connecting .. => 1
  | .done _ => 0

def due : Stage → Bool
  | .starting | .granted _ | .connecting .. => true
  | .queued _ | .done _ => false

theorem due_of_held? {stage : Stage} {slot : Nat} (h : stage.held? = some slot) :
    stage.due = true := by
  cases stage <;> first | rfl | cases h

theorem not_waits_of_due {stage : Stage} (h : stage.due = true) : stage.waits = false := by
  cases stage <;> first | rfl | cases h

theorem due_of_isGranted {stage : Stage} (h : stage.isGranted = true) : stage.due = true := by
  cases stage <;> first | rfl | cases h

theorem not_connecting_of_isGranted {stage : Stage} (h : stage.isGranted = true) :
    stage.isConnecting = false := by
  cases stage <;> first | rfl | cases h

theorem due_of_isConnecting {stage : Stage} (h : stage.isConnecting = true) : stage.due = true := by
  cases stage <;> first | rfl | cases h

theorem weight_of_due {stage : Stage} {k : Nat} (h : stage.due = true) : 0 < stage.weight k := by
  cases stage <;> first | exact Nat.succ_pos _ | cases h

theorem finished_of_weight {stage : Stage} {k : Nat} (h : stage.weight k = 0) :
    stage.finished = true := by
  cases stage <;> first | rfl | cases h

theorem cases_due {stage : Stage} (h : stage.due = false) :
    stage.finished = true ∨ ∃ slot, stage = .queued slot := by
  cases stage with
  | queued slot => exact .inr ⟨slot, rfl⟩
  | done => exact .inl rfl
  | starting | granted | connecting => cases h

end Stage

namespace Batch

variable {b b' : Batch} {owner : Owners} {caller slot i k : Nat} {uid u : UInt32}
    {stage stage' st : Stage}
  {load : Option Load} {before : Table UInt32 Principal} {loads : List Load} {ids : Identities}

def total (k : Nat) (b : Batch) : Nat := b.callers.foldr (fun c n => c.2.weight k + n) 0

theorem foldr_modify {α : Type} (g : α → Nat) (f : α → α) {l : List α} {i : Nat} {x : α}
    (h : l[i]? = some x) :
    (l.modify i f).foldr (fun y n => g y + n) 0 + g x =
      l.foldr (fun y n => g y + n) 0 + g (f x) := by
  induction l generalizing i with
  | nil => cases h
  | cons a l ih =>
    cases i with
    | zero =>
      cases h
      simp only [List.modify_zero_cons, List.foldr_cons]
      omega
    | succ i =>
      have hl := ih h
      simp only [List.modify_succ_cons, List.foldr_cons]
      omega

theorem total_setStage (hc : b.At caller uid stage) :
    (b.setStage caller stage').total k + stage.weight k = b.total k + stage'.weight k :=
  foldr_modify (fun c : UInt32 × Stage => c.2.weight k) _ hc

theorem weight_le_total (hc : b.At caller uid stage) : stage.weight k ≤ b.total k := by
  have hdone : (b.setStage caller (.done (.error (.unknownPrincipal uid)))).total k +
      stage.weight k = b.total k :=
    total_setStage hc
  exact Nat.le_of_add_left_le (Nat.le_of_eq hdone)

theorem total_fail (ho : b.Orderly owner) (hc : b.At caller uid stage)
    (hs : stage.held? = some slot) (e : FacadeError) :
    (b.fail caller uid slot e).total k + stage.weight k = b.total k := by
  have hdone : (b.setStage caller (.done (.error e))).total k + stage.weight k = b.total k :=
    total_setStage hc
  rw [fail_eq, total, callers_unlist, ← total]
  obtain ⟨-, hw⟩ | ⟨p, next, rest, hn, hslot, hw⟩ :=
    wake_cases (b.setStage caller (.done (.error e))) slot <;> rw [hw]
  · exact hdone
  · obtain ⟨u, hu⟩ := (ho.kept slot _ hslot).queued next List.mem_cons_self
    have hnext : (b.setStage caller (.done (.error e))).At next u (.queued slot) := by
      refine (at_setStage hc).2 (.inr ⟨?_, hu⟩)
      rintro rfl
      rw [(hc.unique hu).2] at hs
      cases hs
    have hgranted : (({ b.setStage caller (.done (.error e)) with
        slots := b.slots.insert slot ⟨none, rest⟩ }).setStage
        next (.granted slot)).total k + (k + 2) =
          (b.setStage caller (.done (.error e))).total k + (k + 2) :=
      total_setStage (b := { b.setStage caller (.done (.error e)) with slots := _ }) hnext
    exact Nat.add_right_cancel hgranted ▸ hdone

/-! ## Turns that are not idle -/

/-- What a turn that is not idle does to its caller, and that it takes no weight from the others. -/
structure Falls (k : Nat) (b b' : Batch) (caller : Nat) (uid : UInt32)
    (stage stage' : Stage) : Prop where
  at' : b'.At caller uid stage'
  total : b'.total k + stage.weight k = b.total k + stage'.weight k
  weight : stage'.weight k + (if stage'.isConnecting then k else 0) < stage.weight k
  due : stage'.due = stage'.isConnecting

theorem Act.falls (ha : b.Act caller load b') (ho : b.Orderly owner) (hc : b.At caller uid stage)
    (k : Nat) :
    ∃ stage', Falls k b b' caller uid stage stage' := by
  cases ha with
  | recalled uid' p hc' =>
    obtain ⟨rfl, rfl⟩ := hc.unique hc'
    exact ⟨.done (.ok p), (at_setStage hc).2 (.inl ⟨rfl, rfl, rfl⟩), total_setStage hc,
      Nat.succ_pos _, rfl⟩
  | shared uid' slot p queue hc' =>
    obtain ⟨rfl, rfl⟩ := hc.unique hc'
    exact ⟨.done (.ok p), (at_setStage hc).2 (.inl ⟨rfl, rfl, rfl⟩), total_setStage hc,
      Nat.succ_pos _, rfl⟩
  | joined uid' slot hc' =>
    obtain ⟨rfl, rfl⟩ := hc.unique hc'
    exact ⟨.queued slot, (at_setStage (b := { b with slots := _ }) hc).2 (.inl ⟨rfl, rfl, rfl⟩),
      total_setStage (b := { b with slots := _ }) hc, Nat.lt_succ_self _, rfl⟩
  | connected uid' slot hc' person link =>
    obtain ⟨rfl, rfl⟩ := hc.unique hc'
    refine ⟨.connecting slot person,
      (at_setStage (b := { b with link }) hc).2 (.inl ⟨rfl, rfl, rfl⟩),
      total_setStage (b := { b with link }) hc, ?_, rfl⟩
    show 1 + k < k + 2
    omega
  | failed uid' slot stage' hc' hs' e link =>
    obtain ⟨rfl, rfl⟩ := hc.unique hc'
    refine ⟨.done (.error e), (ho.meddled link).at_failed hc hs' e,
      total_fail (ho.meddled link) hc hs' e, ?_, rfl⟩
    exact Stage.weight_of_due (Stage.due_of_held? hs')
  | succeeded uid' slot person hc' p link =>
    obtain ⟨rfl, rfl⟩ := hc.unique hc'
    refine ⟨.done (.ok p), (at_succeed p).2
      ((at_setStage (b := { b with link }) hc).2 (.inl ⟨rfl, rfl, rfl⟩)), ?_, Nat.succ_pos _, rfl⟩
    rw [total, callers_succeed, ← total]
    exact total_setStage (b := { b with link }) hc

theorem Turned.falls (ht : b.Turned caller load b') (ho : b.Orderly owner) (k : Nat) :
    (b' = b ∧ b.Idle caller) ∨ ∃ uid stage stage', b.At caller uid stage ∧
      Falls k b b' caller uid stage stage' := by
  cases ht with
  | idle h => exact .inl ⟨rfl, h⟩
  | act _ _ ha =>
    obtain ⟨uid, stage, hc⟩ := ha.at
    obtain ⟨stage', h⟩ := ha.falls ho hc k
    exact .inr ⟨uid, stage, stage', hc, h⟩
  | first uid hc _ hs _ _ ha =>
    obtain ⟨stage', hat, htotal, hweight, hdue⟩ := ha.falls (ho.opened hc hs) (at_opened hc) k
    have hopened : (b.opened caller uid).total k + (k + 3) = b.total k + (k + 2) :=
      total_setStage (b := { b with slots := _, current := _ }) hc
    refine .inr ⟨uid, .starting, stage', hc, hat, ?_, Nat.lt_succ_of_lt hweight, hdue⟩
    simp only [Stage.weight] at htotal ⊢
    omega

def uids (b : Batch) : List UInt32 := b.callers.map Prod.fst

theorem uids_setStage : (b.setStage caller stage).uids = b.uids := by
  refine List.ext_getElem? fun i => ?_
  rw [uids, uids, List.getElem?_map, List.getElem?_map, callers_setStage, Option.map_map]
  refine congrArg (Option.map · _) (funext fun x => ?_)
  simp only [Function.comp_apply]
  split <;> rfl

theorem Act.uids (ha : b.Act caller load b') : b'.uids = b.uids := by
  cases ha with
  | recalled | shared => exact uids_setStage
  | joined => exact uids_setStage (b := { b with slots := _ })
  | connected _ _ _ _ link => exact uids_setStage (b := { b with link })
  | succeeded uid slot person hc p link =>
    rw [Batch.uids, callers_succeed]
    exact uids_setStage (b := { b with link })
  | failed uid slot stage hc hs e link =>
    rw [Batch.uids, fail_eq, callers_unlist, ← Batch.uids]
    have hdone : ({ b with link }.setStage caller (.done (.error e))).uids = b.uids :=
      uids_setStage (b := { b with link })
    obtain ⟨-, hw⟩ | ⟨p, next, rest, -, -, hw⟩ :=
      wake_cases ({ b with link }.setStage caller (.done (.error e))) slot <;> rw [hw]
    · exact hdone
    · rw [uids_setStage]
      exact hdone

theorem Turned.uids (ht : b.Turned caller load b') : b'.uids = b.uids := by
  cases ht with
  | idle => rfl
  | act _ _ ha => exact ha.uids
  | first _ _ _ _ _ _ ha =>
    exact ha.uids.trans (uids_setStage (b := { b with slots := _, current := _ }))

/-! ## Who is ready -/

def Ready (b : Batch) (caller : Nat) : Prop :=
  ∃ uid stage, b.At caller uid stage ∧
    (stage.due = true ∨ ∃ slot p queue,
      stage = .queued slot ∧ b.slots.get? slot = some ⟨some p, queue⟩)

theorem Ready.not_idle (h : b.Ready caller) : ¬b.Idle caller := by
  intro hidle
  obtain ⟨uid, stage, hc, hready⟩ := h
  obtain ⟨answer, rfl⟩ | ⟨slot, rfl, hnone⟩ := hidle uid stage hc <;>
    obtain hdue | ⟨slot', p, queue, he, hs⟩ := hready
  · cases hdue
  · cases he
  · cases hdue
  · cases he
    rw [hs] at hnone
    cases hnone

namespace Sound

theorem answer_stays (h : Sound before loads b) (e : Event) {p : Principal} {queue : List Nat}
    (hs : b.slots.get? slot = some ⟨some p, queue⟩) :
    ∃ queue', (b.step e).slots.get? slot = some ⟨some p, queue'⟩ := by
  obtain ⟨owner, -, hr⟩ := h.recorded
  obtain ⟨owner', -, hr'⟩ := (h.step e).recorded
  obtain ⟨u, hl⟩ := (hr.kept slot p).1 ⟨queue, hs⟩
  exact (hr'.kept slot p).2 ⟨u, List.mem_append_left _ hl⟩

theorem ready_turn (h : Sound before loads b) (hr : b.Ready i) (hi : i ≠ caller) :
    (b.turn ids caller).Ready i := by
  obtain ⟨owner, ho, -⟩ := h.recorded
  obtain ⟨load, ht⟩ := b.turned ids caller
  obtain ⟨uid, stage, hb, hready⟩ := hr
  rcases ht.elsewhere ho hi with heq | ⟨u, slot, -, hg⟩
  · refine ⟨uid, stage, heq.trans hb, hready.imp_right ?_⟩
    rintro ⟨slot, p, queue, rfl, hs⟩
    obtain ⟨queue', hs'⟩ := h.answer_stays (.turn ids caller) hs
    exact ⟨slot, p, queue', rfl, hs'⟩
  · exact ⟨u, _, hg, .inl rfl⟩

theorem answered_or_held (h : Sound before loads b) (hc : b.At caller uid (.queued slot)) :
    (∃ p queue, b.slots.get? slot = some ⟨some p, queue⟩) ∨ ∃ i u st, b.At i u st ∧
      st.held? = some slot := by
  obtain ⟨owner, ho, -⟩ := h.recorded
  obtain ⟨⟨p, queue⟩, hslot⟩ :=
    Option.ne_none_iff_exists'.1 ((ho.numbered slot).2 (ho.placed caller uid _ slot hc rfl))
  have hk := ho.kept slot _ hslot
  cases p with
  | some p => exact .inl ⟨p, queue, hslot⟩
  | none => exact .inr (hk.held rfl (.inl (List.ne_nil_of_mem (hk.waits caller uid hc rfl))))

theorem exists_ready (h : Sound before loads b) (hc : b.At caller uid stage)
    (hf : stage.finished ≠ true) : ∃ i, b.Ready i := by
  cases hd : stage.due with
  | true => exact ⟨caller, uid, stage, hc, .inl hd⟩
  | false =>
    obtain hf' | ⟨slot, rfl⟩ := Stage.cases_due hd
    · exact absurd hf' hf
    · rcases h.answered_or_held hc with ⟨p, queue, hslot⟩ | ⟨i, u, st, hi, hs⟩
      · exact ⟨caller, uid, _, hc, .inr ⟨slot, p, queue, rfl, hslot⟩⟩
      · exact ⟨i, u, st, hi, .inl (Stage.due_of_held? hs)⟩

end Sound

/-! ## Many turns -/

def takeTurns (b : Batch) (ids : Identities) (turns : List Nat) : Batch :=
  b.run (turns.map (.turn ids))

theorem takeTurns_cons (turns : List Nat) :
    b.takeTurns ids (caller :: turns) = (b.turn ids caller).takeTurns ids turns := rfl

theorem takeTurns_append (turns turns' : List Nat) :
    b.takeTurns ids (turns ++ turns') = (b.takeTurns ids turns).takeTurns ids turns' := by
  rw [takeTurns, List.map_append, run_append]
  rfl

theorem round_eq (b : Batch) (ids : Identities) :
    b.round ids = b.takeTurns ids (List.range b.callers.length) := by
  rw [round, takeTurns, run, List.foldl_map]
  rfl

theorem uids_takeTurns (turns : List Nat) : (b.takeTurns ids turns).uids = b.uids := by
  induction turns generalizing b with
  | nil => rfl
  | cons caller turns ih =>
    obtain ⟨load, ht⟩ := b.turned ids caller
    exact ih.trans ht.uids

theorem length_takeTurns (turns : List Nat) :
    (b.takeTurns ids turns).callers.length = b.callers.length := by
  have huids : (b.takeTurns ids turns).uids.length = b.uids.length :=
    congrArg List.length (uids_takeTurns turns)
  rwa [uids, uids, List.length_map, List.length_map] at huids

theorem At.uids (h : b.At caller uid stage) : b.uids[caller]? = some uid := by
  rw [Batch.uids, List.getElem?_map, show b.callers[caller]? = _ from h]
  rfl

theorem At.of_uids (h : b.uids[caller]? = some uid) : ∃ stage, b.At caller uid stage := by
  rw [Batch.uids, List.getElem?_map] at h
  obtain ⟨⟨u, stage⟩, hc, rfl⟩ := Option.map_eq_some_iff.1 h
  exact ⟨stage, hc⟩

theorem At.before_takeTurns {turns : List Nat} (h : (b.takeTurns ids turns).At i u st) :
    ∃ st', b.At i u st' :=
  At.of_uids (uids_takeTurns turns ▸ h.uids)

namespace Sound

theorem takeTurns (h : Sound before loads b) (ids : Identities) (turns : List Nat) :
    Sound before (loads ++ b.loads (turns.map (.turn ids))) (b.takeTurns ids turns) := h.run _

theorem total_turn_le (h : Sound before loads b) : (b.turn ids caller).total k ≤ b.total k := by
  obtain ⟨owner, ho, -⟩ := h.recorded
  obtain ⟨load, ht⟩ := b.turned ids caller
  obtain ⟨he, -⟩ | ⟨uid, stage, stage', -, -, htotal, hweight, -⟩ := ht.falls ho k
  · exact Nat.le_of_eq (congrArg (total k) he)
  · omega

theorem total_turn_lt (h : Sound before loads b) (hr : b.Ready caller) :
    (b.turn ids caller).total k < b.total k := by
  obtain ⟨owner, ho, -⟩ := h.recorded
  obtain ⟨load, ht⟩ := b.turned ids caller
  obtain ⟨-, hidle⟩ | ⟨uid, stage, stage', -, -, htotal, hweight, -⟩ := ht.falls ho k
  · exact absurd hidle hr.not_idle
  · omega

theorem total_takeTurns_le (h : Sound before loads b) (turns : List Nat) :
    (b.takeTurns ids turns).total k ≤ b.total k := by
  induction turns generalizing b loads with
  | nil => exact Nat.le_refl _
  | cons caller turns ih => exact Nat.le_trans (ih (h.step (.turn ids caller))) h.total_turn_le

theorem total_takeTurns_lt (h : Sound before loads b) (hr : b.Ready i) {turns : List Nat}
    (hi : i ∈ turns) :
    (b.takeTurns ids turns).total k < b.total k := by
  induction turns generalizing b loads with
  | nil => cases hi
  | cons caller turns ih =>
    by_cases hc : i = caller
    · subst hc
      exact Nat.lt_of_le_of_lt (total_takeTurns_le (h.step (.turn ids i)) turns)
        (h.total_turn_lt hr)
    · have hi := (List.mem_cons.1 hi).resolve_left hc
      exact Nat.lt_of_lt_of_le
        (ih (h.step (.turn ids caller)) (h.ready_turn hr hc) hi) h.total_turn_le

theorem total_takeTurns_of_ready (h : Sound before loads b) {turns : List Nat} (hn : turns.Nodup)
    (hr : ∀ i ∈ turns, b.Ready i) : (b.takeTurns ids turns).total k + turns.length ≤ b.total k := by
  induction turns generalizing b loads with
  | nil => exact Nat.le_refl _
  | cons caller turns ih =>
    obtain ⟨hout, hn⟩ := List.nodup_cons.1 hn
    have hready : ∀ i ∈ turns, (b.turn ids caller).Ready i := fun i hi =>
      h.ready_turn (hr i (List.mem_cons_of_mem _ hi)) fun he => hout (he ▸ hi)
    have hrest := ih (h.step (.turn ids caller)) hn hready
    have hfirst : (b.turn ids caller).total k < b.total k :=
      h.total_turn_lt (hr caller List.mem_cons_self)
    have hstep : b.step (.turn ids caller) = b.turn ids caller := rfl
    rw [takeTurns_cons, List.length_cons]
    rw [hstep] at hrest
    omega

end Sound

end Batch
end StoreMount.Resolver
