import StoreMount.Resolver.Together

/-!
# What a turn does

Callers come at any time and take turns in any order, against whatever the identity source and the
link are at that moment. A turn is idle, or it is one act of the caller, or it is two, of which the
first opens a slot. A load on a slot begins with the caller that opened it or that was granted it,
and ends when that caller is done; the record of a run shows the loads that ended, in order.
-/
namespace StoreMount

theorem Table.size_insert {κ α : Type} [DecidableEq κ] (t : Table κ α) (k : κ) (v : α) :
    (t.insert k v).size = if (t.get? k).isSome then t.size else t.size + 1 := by
  have hk : k ∈ t.keys ↔ (t.get? k).isSome := by
    rw [Option.isSome_iff_ne_none, ne_eq, get?_eq_none_iff, Decidable.not_not]
  by_cases h : k ∈ t.keys
  · rw [insert, dif_pos h, if_pos (hk.1 h)]
    exact List.length_map _
  · rw [insert, dif_neg h, if_neg (mt hk.2 h)]
    rfl

namespace Resolver

structure Load where
  slot : Nat
  uid : UInt32
  answer : Except FacadeError Principal

namespace Stage

def slot? : Stage → Option Nat
  | .queued slot | .granted slot | .connecting slot _ => some slot
  | .starting | .done _ => none

def held? : Stage → Option Nat
  | .granted slot | .connecting slot _ => some slot
  | .starting | .queued _ | .done _ => none

def answer? : Stage → Option (Except FacadeError Principal)
  | .done answer => some answer
  | _ => none

def waits : Stage → Bool
  | .queued _ => true
  | .starting | .granted _ | .connecting .. | .done _ => false

theorem finished_of_held? {stage : Stage} {slot : Nat} (h : stage.held? = some slot) :
    stage.finished = false := by
  cases stage <;> first | rfl | cases h

theorem slot?_starting (slot : Nat) : Stage.starting.slot? ≠ some slot :=
  (Option.some_ne_none slot).symm

theorem slot?_done (answer : Except FacadeError Principal) (slot : Nat) :
    (Stage.done answer).slot? ≠ some slot :=
  (Option.some_ne_none slot).symm

theorem slot?_of_held? {stage : Stage} {slot : Nat} (h : stage.held? = some slot) :
    stage.slot? = some slot := by
  cases stage <;> first | exact h | cases h

theorem eq_queued {stage : Stage} {slot : Nat} (h : stage.slot? = some slot)
    (hs : stage.held? = none) :
    stage = .queued slot := by
  cases stage <;> cases h <;> first | rfl | cases hs

end Stage

/-- A call is made, a caller takes a turn, or the link becomes another one. -/
inductive Event
  | call (uid : UInt32)
  | turn (identities : Identities) (caller : Nat)
  | meddle (link : Link)

namespace Batch

def step (b : Batch) : Event → Batch
  | .call uid => { b with callers := b.callers ++ [(uid, .starting)] }
  | .turn ids caller => b.turn ids caller
  | .meddle link => { b with link }

def run (b : Batch) (events : List Event) : Batch := events.foldl step b

def loadsFor? (b : Batch) (caller : Nat) : Option Nat :=
  match b.callers[caller]? with
  | some (uid, .starting) =>
    if (b.resolver.known.get? uid).isSome || (b.current.get? uid).isSome then none
      else some b.slots.size
  | some (_, stage) => stage.held?
  | none => none

def ended? (b : Batch) : Event → Option Load
  | .turn ids caller => do
    let slot ← b.loadsFor? caller
    let (uid, stage) ← (b.turn ids caller).callers[caller]?
    let answer ← stage.answer?
    return ⟨slot, uid, answer⟩
  | .call _ | .meddle _ => none

def loads (b : Batch) : List Event → List Load
  | [] => []
  | e :: events => (b.ended? e).toList ++ (b.step e).loads events

theorem run_append (b : Batch) (events events' : List Event) :
    b.run (events ++ events') = (b.run events).run events' :=
  List.foldl_append ..

/-! ## Stages -/

variable {b b' : Batch} {caller i slot : Nat} {uid : UInt32} {stage : Stage}

theorem callers_setStage : (b.setStage caller stage).callers[i]? =
    (b.callers[i]?).map fun x => if i = caller then (x.1, stage) else x := by
  rw [setStage, List.getElem?_modify]
  by_cases h : caller = i
  · simp [h]
  · simp [h, Ne.symm h]

def At (b : Batch) (caller : Nat) (uid : UInt32) (stage : Stage) : Prop :=
  b.callers[caller]? = some (uid, stage)

theorem At.unique {uid' : UInt32} {stage' : Stage} (h : b.At caller uid stage)
    (h' : b.At caller uid' stage') :
    uid = uid' ∧ stage = stage' := Prod.mk.inj (Option.some.inj (h.symm.trans h'))

theorem at_setStage {stage₀ : Stage} (h : b.At caller uid stage₀) {u : UInt32} {st : Stage} :
    (b.setStage caller stage).At i u st ↔ (i = caller ∧ u = uid ∧ st = stage) ∨
      (i ≠ caller ∧ b.At i u st) := by
  rw [At, callers_setStage]
  by_cases hi : i = caller
  · subst hi
    rw [show b.callers[i]? = some (uid, stage₀) from h]
    simp [eq_comm]
  · simp [hi, At]

theorem at_setStage_elsewhere {stage₀ : Stage} (h : b.At caller uid stage₀)
    (h₀ : stage₀.slot? ≠ some slot) (h₁ : stage.slot? ≠ some slot) {u : UInt32} {st : Stage}
    (hst : st.slot? = some slot) :
    (b.setStage caller stage).At i u st ↔ b.At i u st := by
  constructor
  · intro hb
    obtain ⟨-, -, rfl⟩ | ⟨-, hb⟩ := (at_setStage h).1 hb
    · exact absurd hst h₁
    · exact hb
  · intro hb
    refine (at_setStage h).2 (.inr ⟨?_, hb⟩)
    rintro rfl
    exact absurd ((hb.unique h).2 ▸ hst) h₀

theorem at_call {uid' : UInt32} : (b.step (.call uid')).At i uid stage ↔
    b.At i uid stage ∨ (i = b.callers.length ∧ uid = uid' ∧ stage = .starting) := by
  rw [At, step, List.getElem?_append]
  split
  · next hi => simp [At, Nat.ne_of_lt hi]
  · next hi =>
    have hnone : b.callers[i]? = none := List.getElem?_eq_none (Nat.le_of_not_lt hi)
    rw [At, hnone, List.getElem?_singleton]
    by_cases he : i = b.callers.length
    · simp [he, eq_comm]
    · have hne : i - b.callers.length ≠ 0 := by omega
      simp [he, hne]

theorem setStage_setStage (stage' : Stage) :
    (b.setStage caller stage).setStage caller stage' = b.setStage caller stage' := by
  simp only [setStage, List.modify_modify_eq]
  rfl

@[simp] theorem resolver_setStage : (b.setStage caller stage).resolver = b.resolver := rfl
@[simp] theorem link_setStage : (b.setStage caller stage).link = b.link := rfl
@[simp] theorem slots_setStage : (b.setStage caller stage).slots = b.slots := rfl
@[simp] theorem current_setStage : (b.setStage caller stage).current = b.current := rfl

/-! ## Failing and succeeding -/

def next? (b : Batch) (slot : Nat) : Option Nat := (b.slots.get? slot).bind fun s => s.queue.head?

def passed (s : Slot) : Slot :=
  match s.queue with
  | [] => s
  | _ :: queue => ⟨none, queue⟩

def wake (b : Batch) (slot : Nat) : Batch :=
  match b.slots.get? slot with
  | some ⟨_, next :: queue⟩ =>
    { b with slots := b.slots.insert slot ⟨none, queue⟩ }.setStage next (.granted slot)
  | _ => b

def unlist (b : Batch) (uid : UInt32) (slot : Nat) : Batch :=
  if b.current.get? uid = some slot then { b with current := b.current.erase uid } else b

theorem fail_eq (b : Batch) (caller : Nat) (uid : UInt32) (slot : Nat) (e : FacadeError) :
    b.fail caller uid slot e =
      ((b.setStage caller (.done (.error e))).wake slot).unlist uid slot := rfl

@[simp] theorem resolver_unlist : (b.unlist uid slot).resolver = b.resolver := by
  unfold unlist; split <;> rfl
@[simp] theorem slots_unlist : (b.unlist uid slot).slots = b.slots := by
  unfold unlist; split <;> rfl
@[simp] theorem callers_unlist : (b.unlist uid slot).callers = b.callers := by
  unfold unlist; split <;> rfl

theorem current_unlist (u : UInt32) : (b.unlist uid slot).current.get? u =
    if u = uid ∧ b.current.get? uid = some slot then none else b.current.get? u := by
  unfold unlist
  by_cases h : b.current.get? uid = some slot
  · simp [h, Table.get?_erase]
  · simp [h]

theorem wake_cases (b : Batch) (slot : Nat) :
    (b.next? slot = none ∧ b.wake slot = b) ∨ ∃ p next queue, b.next? slot = some next ∧
      b.slots.get? slot = some ⟨p, next :: queue⟩ ∧
      b.wake slot =
        { b with slots := b.slots.insert slot ⟨none, queue⟩ }.setStage next (.granted slot) := by
  unfold wake next?
  cases hs : b.slots.get? slot with
  | none => exact .inl ⟨rfl, rfl⟩
  | some s =>
    obtain ⟨p, queue⟩ := s
    cases queue with
    | nil => exact .inl ⟨rfl, rfl⟩
    | cons next queue => exact .inr ⟨p, next, queue, rfl, rfl, rfl⟩

section Fail
variable (b caller uid slot) (e : FacadeError)

theorem slots_fail (s : Nat) : (b.fail caller uid slot e).slots.get? s =
    if s = slot then (b.slots.get? slot).map passed else b.slots.get? s := by
  rw [fail_eq, slots_unlist]
  obtain ⟨hn, h⟩ | ⟨p, next, queue, -, hs, h⟩ :=
    wake_cases (b.setStage caller (.done (.error e))) slot
  · rw [h, slots_setStage]
    split
    · next hslot =>
      subst hslot
      have hn : (b.slots.get? s).bind (fun s => s.queue.head?) = none := hn
      cases hs : b.slots.get? s with
      | none => rfl
      | some x =>
        obtain ⟨p, queue⟩ := x
        rw [hs, Option.bind_some, List.head?_eq_none_iff] at hn
        rw [Option.map_some, passed, hn]
    · rfl
  · rw [h, slots_setStage, Table.get?_insert]
    rw [slots_setStage] at hs
    rw [hs]
    rfl

theorem size_fail : (b.fail caller uid slot e).slots.size = b.slots.size := by
  rw [fail_eq, slots_unlist]
  obtain ⟨hn, h⟩ | ⟨p, next, queue, -, hs, h⟩ :=
    wake_cases (b.setStage caller (.done (.error e))) slot
  · rw [h, slots_setStage]
  · rw [h, slots_setStage, Table.size_insert, hs]
    rfl

theorem current_fail (u : UInt32) : (b.fail caller uid slot e).current.get? u =
    if u = uid ∧ b.current.get? uid = some slot then none else b.current.get? u := by
  rw [fail_eq, current_unlist]
  obtain ⟨-, h⟩ | ⟨p, next, queue, -, -, h⟩ :=
    wake_cases (b.setStage caller (.done (.error e))) slot <;> rw [h] <;> rfl

theorem resolver_fail : (b.fail caller uid slot e).resolver = b.resolver := by
  rw [fail_eq, resolver_unlist]
  obtain ⟨-, h⟩ | ⟨p, next, queue, -, -, h⟩ :=
    wake_cases (b.setStage caller (.done (.error e))) slot <;> rw [h] <;> rfl

theorem callers_fail (i : Nat) :
    (b.fail caller uid slot e).callers[i]? = (b.callers[i]?).map fun x =>
    if b.next? slot = some i then (x.1, .granted slot)
      else if i = caller then (x.1, .done (.error e)) else x := by
  rw [fail_eq, callers_unlist]
  obtain ⟨hn, h⟩ | ⟨p, next, queue, hn, -, h⟩ :=
    wake_cases (b.setStage caller (.done (.error e))) slot
  · have hn : b.next? slot = none := hn
    rw [h, callers_setStage]
    simp [hn]
  · have hn : b.next? slot = some next := hn
    rw [h, callers_setStage, hn]
    simp only [callers_setStage, Option.map_map, Option.some.injEq]
    refine congrArg (Option.map · b.callers[i]?) (funext fun x => ?_)
    by_cases hi : i = next
    · simp only [hi, if_true, Function.comp]
      split <;> rfl
    · simp [hi, Ne.symm hi]

end Fail

theorem at_fail {stage₀ : Stage} (h : b.At caller uid stage₀) (e : FacadeError) {u : UInt32}
    {st : Stage} (hn : ∀ next, b.next? slot = some next → ∃ u, b.At next u (.queued slot)) :
    (b.fail caller uid slot e).At i u st ↔
      (b.next? slot = some i ∧ b.At i u (.queued slot) ∧ st = .granted slot) ∨
      (b.next? slot ≠ some i ∧ i = caller ∧ u = uid ∧ st = .done (.error e)) ∨
      (b.next? slot ≠ some i ∧ i ≠ caller ∧ b.At i u st) := by
  rw [At, callers_fail]
  by_cases hi : b.next? slot = some i
  · obtain ⟨u', hu'⟩ := hn i hi
    have hu' : b.callers[i]? = some (u', .queued slot) := hu'
    simp [hi, At, hu', eq_comm]
  · by_cases hc : i = caller
    · subst hc
      rw [show b.callers[i]? = some (uid, stage₀) from h]
      simp [hi, eq_comm]
    · simp [hi, hc, At]

def answered (b : Batch) (caller slot : Nat) (p : Principal) : Batch :=
  { b.setStage caller (.done (.ok p)) with slots := b.slots.insert slot ⟨some p, []⟩ }

theorem succeed_eq (b : Batch) (caller : Nat) (uid : UInt32) (slot : Nat) (p : Principal) :
    b.succeed caller uid slot p = if b.current.get? uid = some slot then
      { b.answered caller slot p with
        current := b.current.erase uid
        resolver := { b.resolver with known := b.resolver.known.insert uid p } }
    else b.answered caller slot p := rfl

section Succeed
variable (b caller uid slot) (p : Principal)

theorem known_succeed (u : UInt32) : (b.succeed caller uid slot p).resolver.known.get? u =
    if u = uid ∧ b.current.get? uid = some slot then some p else b.resolver.known.get? u := by
  rw [succeed_eq]
  by_cases h : b.current.get? uid = some slot
  · simp only [h, if_true, and_true]
    exact Table.get?_insert ..
  · simp only [h, if_false, and_false]
    rfl

theorem slots_succeed (s : Nat) : (b.succeed caller uid slot p).slots.get? s =
    if s = slot then some ⟨some p, []⟩ else b.slots.get? s := by
  rw [succeed_eq]
  split <;> exact Table.get?_insert ..

theorem size_succeed (h : (b.slots.get? slot).isSome) :
    (b.succeed caller uid slot p).slots.size = b.slots.size := by
  have hs : (b.slots.insert slot ⟨some p, []⟩).size = b.slots.size := by
    rw [Table.size_insert, if_pos h]
  rw [succeed_eq]
  split <;> exact hs

theorem current_succeed (u : UInt32) : (b.succeed caller uid slot p).current.get? u =
    if u = uid ∧ b.current.get? uid = some slot then none else b.current.get? u := by
  rw [succeed_eq]
  by_cases h : b.current.get? uid = some slot
  · simp only [h, if_true, and_true]
    exact Table.get?_erase ..
  · simp only [h, if_false, and_false]
    rfl

theorem callers_succeed : (b.succeed caller uid slot p).callers =
      (b.setStage caller (.done (.ok p))).callers := by
  rw [succeed_eq]
  split <;> rfl

end Succeed

theorem at_succeed (p : Principal) {u : UInt32} {st : Stage} :
    (b.succeed caller uid slot p).At i u st ↔ (b.setStage caller (.done (.ok p))).At i u st := by
  rw [At, At, callers_succeed]

/-! ## Acts -/

def opened (b : Batch) (caller : Nat) (uid : UInt32) : Batch :=
  { b with
    slots := b.slots.insert b.slots.size ⟨none, []⟩
    current := b.current.insert uid b.slots.size }.setStage caller (.granted b.slots.size)

def joined (b : Batch) (caller slot : Nat) : Batch :=
  { b with slots := b.slots.adjust slot fun s => { s with queue := s.queue ++ [caller] } }.setStage
    caller (.queued slot)

/-- What a caller can do: remember, share the answer of its slot, join a queue, ask for a
connection, and end a load either way. A load is recorded when it ends. -/
inductive Act (b : Batch) (caller : Nat) : Option Load → Batch → Prop
  | recalled (uid : UInt32) (p : Principal) (h : b.callers[caller]? = some (uid, .starting))
      (hp : b.resolver.known.get? uid = some p) :
        Act b caller none (b.setStage caller (.done (.ok p)))
  | shared (uid : UInt32) (slot : Nat) (p : Principal) (queue : List Nat)
      (h : b.callers[caller]? = some (uid, .queued slot))
      (hs : b.slots.get? slot = some ⟨some p, queue⟩) :
        Act b caller none (b.setStage caller (.done (.ok p)))
  | joined (uid : UInt32) (slot : Nat) (h : b.callers[caller]? = some (uid, .starting))
      (hc : b.current.get? uid = some slot) : Act b caller none (b.joined caller slot)
  | connected (uid : UInt32) (slot : Nat) (h : b.callers[caller]? = some (uid, .granted slot))
      (person : Person)
      (link : Link) : Act b caller none ({ b with link }.setStage caller (.connecting slot person))
  | failed (uid : UInt32) (slot : Nat) (stage : Stage) (h : b.callers[caller]? = some (uid, stage))
      (hs : stage.held? = some slot) (e : FacadeError) (link : Link) :
      Act b caller (some ⟨slot, uid, .error e⟩) ({ b with link }.fail caller uid slot e)
  | succeeded (uid : UInt32) (slot : Nat) (person : Person)
      (h : b.callers[caller]? = some (uid, .connecting slot person))
      (p : Principal) (link : Link) :
      Act b caller (some ⟨slot, uid, .ok p⟩) ({ b with link }.succeed caller uid slot p)

def Idle (b : Batch) (caller : Nat) : Prop :=
  ∀ uid stage, b.callers[caller]? = some (uid, stage) →
    (∃ answer, stage = .done answer) ∨ ∃ slot, stage = .queued slot ∧
    (b.slots.get? slot).bind Slot.principal = none

/-- A turn is idle or one act, before which a slot may be opened. -/
inductive Turned (b : Batch) (caller : Nat) : Option Load → Batch → Prop
  | idle (h : b.Idle caller) : Turned b caller none b
  | act (load : Option Load) (b' : Batch) (h : b.Act caller load b') : Turned b caller load b'
  | first (uid : UInt32) (h : b.callers[caller]? = some (uid, .starting))
      (hk : b.resolver.known.get? uid = none)
      (hc : b.current.get? uid = none) (load : Option Load) (b' : Batch)
      (h' : (b.opened caller uid).Act caller load b') :
      Turned b caller load b'

theorem fail_setStage (e : FacadeError) :
    (b.setStage caller stage).fail caller uid slot e = b.fail caller uid slot e := by
  rw [fail_eq, fail_eq, setStage_setStage]

theorem act_beginLoad (h : b.callers[caller]? = some (uid, .granted slot)) (ids : Identities) :
    ∃ load, b.Act caller load (b.beginLoad ids caller uid slot) := by
  unfold beginLoad
  split
  · next e _ => exact ⟨_, .failed uid slot _ h rfl e b.link⟩
  · next person _ =>
    split
    · next e link _ => exact ⟨_, .failed uid slot _ h rfl (loadError uid e) link⟩
    · next link _ => exact ⟨_, .connected uid slot h person link⟩

theorem act_finishLoad {person : Person}
    (h : b.callers[caller]? = some (uid, .connecting slot person)) :
    ∃ load, b.Act caller load (b.finishLoad caller uid slot person) := by
  unfold finishLoad
  split
  · next e link _ => exact ⟨_, .failed uid slot _ h rfl (loadError uid e) link⟩
  · next session link _ =>
    rcases hc : confirm b.resolver.admin uid person session link with ⟨e | p, link'⟩
    · exact ⟨_, .failed uid slot _ h rfl e (link'.close session)⟩
    · exact ⟨_, .succeeded uid slot person h p (link'.close session)⟩

theorem beginLoad_setStage (ids : Identities) :
    (b.setStage caller stage).beginLoad ids caller uid slot = b.beginLoad ids caller uid slot := by
  unfold beginLoad
  split
  · exact fail_setStage _
  · simp only [resolver_setStage, link_setStage]
    split
    · next e link _ => exact fail_setStage (b := { b with link }) _
    · next link _ => exact setStage_setStage (b := { b with link }) _

theorem turned (b : Batch) (ids : Identities) (caller : Nat) :
    ∃ load, b.Turned caller load (b.turn ids caller) := by
  unfold turn
  cases h : b.callers[caller]? with
  | none => exact ⟨none, .idle fun uid stage hs => by simp [h] at hs⟩
  | some c =>
    obtain ⟨uid, stage⟩ := c
    cases stage with
    | done answer => exact ⟨none, .idle fun uid' stage' hs => by
        obtain ⟨rfl, rfl⟩ := Prod.mk.inj (Option.some.inj (h.symm.trans hs))
        exact .inl ⟨answer, rfl⟩⟩
    | starting =>
      cases hk : b.resolver.known.get? uid with
      | some p => simp only [hk]; exact ⟨none, .act _ _ (.recalled uid p h hk)⟩
      | none =>
        cases hc : b.current.get? uid with
        | some slot => simp only [hk, hc]; exact ⟨none, .act _ _ (.joined uid slot h hc)⟩
        | none =>
          simp only [hk, hc]
          have hgranted : (b.opened caller uid).callers[caller]? =
              some (uid, .granted b.slots.size) := by
            simp [opened, callers_setStage, h]
          obtain ⟨load, hload⟩ := act_beginLoad hgranted ids
          refine ⟨load, .first uid h hk hc load _ ?_⟩
          rw [opened, beginLoad_setStage] at hload
          exact hload
    | queued slot =>
      cases hs : (b.slots.get? slot).bind Slot.principal with
      | some p =>
        simp only [hs]
        obtain ⟨⟨p', queue⟩, hslot, rfl⟩ := Option.bind_eq_some_iff.1 hs
        exact ⟨none, .act _ _ (.shared uid slot p queue h hslot)⟩
      | none =>
        simp only [hs]
        exact ⟨none, .idle fun uid' stage' hs' => by
          obtain ⟨rfl, rfl⟩ := Prod.mk.inj (Option.some.inj (h.symm.trans hs'))
          exact .inr ⟨slot, rfl, hs⟩⟩
    | granted slot =>
      obtain ⟨load, hload⟩ := act_beginLoad h ids
      exact ⟨load, .act _ _ hload⟩
    | connecting slot person =>
      obtain ⟨load, hload⟩ := act_finishLoad h
      exact ⟨load, .act _ _ hload⟩

end Batch
end Resolver
end StoreMount
