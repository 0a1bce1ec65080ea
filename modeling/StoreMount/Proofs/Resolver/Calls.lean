import StoreMount.Proofs.Link
import StoreMount.Proofs.Resolver.Settling

/-!
# What calls leave behind

A number is remembered after some calls if and only if it was known before, or in one of the calls
the first load on a slot for it succeeded. An answer that comes of a later load on the slot is not
remembered: the slot had left the table when the first one failed. What is remembered is answered
again without a load, and no slot is left on the table.
-/
namespace StoreMount.Resolver
namespace Batch

variable {b : Batch} {i : Nat} {u : UInt32} {p : Principal} {before : Table UInt32 Principal}
    {loads : List Load}

/-- The first load on a slot for the number succeeded. -/
def Remembered (loads : List Load) (u : UInt32) (p : Principal) : Prop :=
  ∃ s, firstLoad? loads s = some ⟨s, u, .ok p⟩

/-- A load for the number succeeded on a slot on which another one had failed first. -/
def Late (loads : List Load) (u : UInt32) (p : Principal) : Prop :=
  ∃ s e, firstLoad? loads s = some ⟨s, u, .error e⟩ ∧ ⟨s, u, .ok p⟩ ∈ loads

structure Learned (before : Table UInt32 Principal) (loads : List Load) (b : Batch) : Prop where
  known : ∀ u p, b.resolver.known.get? u = some p ↔ before.get? u = some p ∨ Remembered loads u p
  answered : ∀ i u p, b.At i u (.done (.ok p)) → b.resolver.known.get? u = some p ∨ Late loads u p
  single : Single loads
  fresh : ∀ load ∈ loads, before.get? load.uid = none
  untold : ∀ u, (∀ i p, ¬b.At i u (.done (.ok p))) → b.resolver.known.get? u = before.get? u
  cleared : ∀ u, (∀ i st, b.At i u st → st.finished = true) → b.current.get? u = none

theorem Recorded.remembered_or_late {owner : Owners} {s : Nat} (h : Recorded before owner loads b)
    (hl : ⟨s, u, .ok p⟩ ∈ loads) :
    Remembered loads u p ∨ Late loads u p := by
  obtain ⟨⟨s', u', answer⟩, hm, hf, hs, hu⟩ := h.firstLoad?_uid hl
  obtain rfl : s' = s := hs
  obtain rfl : u' = u := hu
  cases answer with
  | error e => exact .inr ⟨s', e, hf, hl⟩
  | ok p' =>
    obtain ⟨queue, hslot⟩ := (h.kept s' p).2 ⟨u', hl⟩
    obtain ⟨queue', hslot'⟩ := (h.kept s' p').2 ⟨u', hm⟩
    cases hslot.symm.trans hslot'
    exact .inl ⟨s', hf⟩

theorem Sound.learned (h : Sound before loads b) : Learned before loads b := by
  obtain ⟨owner, ho, hr⟩ := h.recorded
  refine ⟨hr.known, fun i u p hi => ?_, h.single, fun load hl => ?_, fun u hu => ?_, fun u hu => ?_⟩
  · rcases hr.answered i u p hi with hp | ⟨s, hl⟩
    · exact .inl ((hr.known u p).2 (.inl hp))
    · exact (hr.remembered_or_late hl).imp_left fun hp => (hr.known u p).2 (.inr hp)
  · obtain ⟨hlt, howner⟩ := hr.owned load hl
    exact howner ▸ hr.fresh load.slot hlt
  · refine Option.ext fun p => (hr.known u p).trans (or_iff_left ?_)
    rintro ⟨s, hs⟩
    obtain ⟨i, hi⟩ := hr.credited s u p (mem_of_firstLoad? hs).1
    exact hu i p hi
  · cases hs : b.current.get? u with
    | none => rfl
    | some s =>
      obtain ⟨queue, hslot, howner, i, u', st, hi, hst⟩ := ho.holder_of_listed hs
      obtain rfl : u' = u :=
        ((ho.kept s _ hslot).theirs i u' st hi (Stage.slot?_of_held? hst)).symm.trans howner
      cases st <;> first | cases hst; done | cases hu i _ hi

structure Recalls (b : Batch) (i : Nat) (u : UInt32) (p : Principal) : Prop where
  known : b.resolver.known.get? u = some p
  at' : b.At i u .starting ∨ b.At i u (.done (.ok p))
  turn : ∀ ids, b.turn ids i = b.setStage i (.done (.ok p))

theorem Sound.recalls (h : Sound before loads b) (hp : b.resolver.known.get? u = some p)
    (hi : b.At i u .starting) (events : List Event) : Recalls (b.run events) i u p where
  known := h.known_run hp events
  at' := h.known_caller hp (.inl hi) events
  turn ids := turn_of_known (h.known_run hp events) ids (h.known_caller hp (.inl hi) events)

theorem getElem?_answers : b.answers[i]? = some (.ok p) ↔ ∃ u, b.At i u (.done (.ok p)) := by
  rw [answers, List.getElem?_map, Option.map_eq_some_iff]
  constructor
  · rintro ⟨⟨u, st⟩, hi, ha⟩
    cases st with
    | done answer => exact ⟨u, ha ▸ hi⟩
    | starting | queued | granted | connecting => cases ha
  · rintro ⟨u, hi⟩
    exact ⟨_, hi, rfl⟩

end Batch

open Batch

/-! ## Calls as they are made -/

theorem load_eq (admin : Account) (ids : Identities) (uid : UInt32) (l : Link) :
    load admin ids uid l =
    match identify ids uid with
    | .error e => (.error e, l)
    | .ok person =>
      match Link.announce (admin.actingAs person.name) l with
      | (.error e, l) => (.error (loadError uid e), l)
      | (.ok (), l) =>
        match Link.enter (admin.actingAs person.name) l with
        | (.error e, l) => (.error (loadError uid e), l)
        | (.ok session, l) =>
          ((confirm admin uid person session l).1,
            (confirm admin uid person session l).2.close session) := by
  unfold load
  cases hi : identify ids uid with
  | error e => rfl
  | ok person =>
    simp only [bind_apply, Link.during, Link.failingAs, Link.connect, lift_apply]
    rcases ha : Link.announce (admin.actingAs person.name) l with ⟨e | u, l'⟩
    · rfl
    · rcases he : Link.enter (admin.actingAs person.name) l' with ⟨e | session, l''⟩
        <;> simp only [he] <;> rfl

theorem resolveTogether_singleton (r : Resolver) (ids : Identities) (uid : UInt32) (l : Link) :
    r.resolveTogether ids [uid] l = ([(r.resolve ids uid l).1], (r.resolve ids uid l).2) := by
  have hsettle : ∀ b : Batch, b.callers.length = 1 → b.settle ids = rounds ids 4 b := fun b hb => by
    simp [settle, hb, smallSize]
  have hround : ∀ b : Batch, b.callers.length = 1 → b.round ids = b.turn ids 0 := fun b hb => by
    simp [Batch.round, hb, List.range_succ]
  unfold resolve
  cases hk : r.known.get? uid with
  | some p =>
    simp [resolveTogether, hsettle, hround, start, rounds, turn, hk, setStage, Batch.answers,
      Stage.finished]
  | none =>
    rw [load_eq]
    -- the first turn fails, or asks for the connection that the second one gets or does not get
    rcases hi : identify ids uid with e | person
    on_goal 2 => rcases ha : Link.announce (r.admin.actingAs person.name) l with ⟨e | u, l₁⟩
    on_goal 3 => rcases he : Link.enter (r.admin.actingAs person.name) l₁ with ⟨e | session, l₂⟩
    on_goal 4 => rcases hc : confirm r.admin uid person session l₂ with ⟨e | p, l₃⟩
    all_goals simp [resolveTogether, start, rounds, turn, setStage, Batch.answers, Stage.finished,
      beginLoad, finishLoad, fail, succeed, *]

structure Call where
  identities : Identities
  link : Link
  uids : List UInt32

namespace Call

variable (call : Call) (r : Resolver)

def start : Batch := .start r call.link call.uids

def events : List Resolver.Event :=
  ((call.start r).settleTurns call.identities).map (.turn call.identities)

def finish : Batch := (call.start r).run (call.events r)

def loads : List Load := (call.start r).loads (call.events r)

theorem finish_eq : call.finish r = (call.start r).settle call.identities :=
  takeTurns_settleTurns _ _

theorem outcome_eq : r.resolveTogether call.identities call.uids call.link =
    ((call.finish r).answers, (call.finish r).resolver, (call.finish r).link) := by
  rw [finish_eq]
  rfl

theorem sound : Sound r.known (call.loads r) (call.finish r) :=
  (sound_start r call.link call.uids).run _

theorem finished : (call.finish r).Finished := by
  rw [finish_eq]
  exact settle_finished r call.link call.uids call.identities

theorem uids_start : (call.start r).uids = call.uids := by
  simp [start, Batch.start, Batch.uids, Function.comp_def]

theorem uids_finish : (call.finish r).uids = call.uids :=
  (uids_takeTurns _).trans (call.uids_start r)

end Call

def after (r : Resolver) (calls : List Call) : Resolver :=
  calls.foldl (fun r call => (r.resolveTogether call.identities call.uids call.link).2.1) r

def records (r : Resolver) : List Call → List (List Load)
  | [] => []
  | call :: calls => call.loads r :: records (call.finish r).resolver calls

theorem after_cons (r : Resolver) (call : Call) (calls : List Call) :
    r.after (call :: calls) = (call.finish r).resolver.after calls := by
  rw [after, List.foldl_cons, call.outcome_eq, ← after]

theorem known_after (r : Resolver) (calls : List Call) (u : UInt32) (p : Principal) :
    (r.after calls).known.get? u = some p ↔ r.known.get? u = some p ∨ ∃ loads ∈ r.records calls,
      Remembered loads u p := by
  induction calls generalizing r with
  | nil => simp [after, records]
  | cons call calls ih =>
    rw [after_cons, ih, (call.sound r).learned.known, records, or_assoc]
    simp only [List.mem_cons, exists_eq_or_imp]

structure Served (r : Resolver) (call : Call) : Prop where
  outcome : r.resolveTogether call.identities call.uids call.link =
    ((call.finish r).answers, (call.finish r).resolver, (call.finish r).link)
  learned : Learned r.known (call.loads r) (call.finish r)
  finished : (call.finish r).Finished
  cleared : ∀ u, (call.finish r).current.get? u = none
  answered : ∀ (i : Nat) u p, call.uids[i]? = some u → (call.finish r).answers[i]? = some (.ok p) →
    (call.finish r).resolver.known.get? u = some p ∨ Late (call.loads r) u p
  recalled : ∀ (i : Nat) u p, call.uids[i]? = some u → r.known.get? u = some p →
    (call.finish r).answers[i]? = some (.ok p) ∧ ∀ load ∈ call.loads r, load.uid ≠ u

theorem served (r : Resolver) (call : Call) : Served r call where
  outcome := call.outcome_eq r
  learned := (call.sound r).learned
  finished := call.finished r
  cleared u := (call.sound r).learned.cleared u fun i st hi => call.finished r i u st hi
  answered i u p hu ha := by
    obtain ⟨u', hi⟩ := getElem?_answers.1 ha
    obtain rfl : u' = u := Option.some.inj ((hi.uids).symm.trans (call.uids_finish r ▸ hu))
    exact (call.sound r).learned.answered i u' p hi
  recalled i u p hu hp := by
    have hstart : (call.start r).At i u .starting := by
      obtain ⟨st, hi⟩ := At.of_uids (call.uids_start r ▸ hu)
      exact starting_of_at_start hi ▸ hi
    have hrecalls := (sound_start r call.link call.uids).recalls hp hstart (call.events r)
    refine ⟨getElem?_answers.2 ⟨u, ?_⟩, fun load hl he => ?_⟩
    · rcases hrecalls.at' with hi | hi
      · cases call.finished r i u _ hi
      · exact hi
    · cases hp.symm.trans (he ▸ (call.sound r).learned.fresh load hl)

theorem not_loaded {r : Resolver} {u : UInt32} {p : Principal} (hp : r.known.get? u = some p)
    (calls : List Call) :
    ∀ load ∈ (r.records calls).flatten, load.uid ≠ u := by
  induction calls generalizing r with
  | nil => nofun
  | cons call calls ih =>
    intro load hl
    rcases List.mem_append.1 hl with hl | hl
    · rintro rfl
      cases hp.symm.trans ((call.sound r).learned.fresh load hl)
    · exact ih (((call.sound r).learned.known u p).2 (.inl hp)) load hl

theorem single_records (r : Resolver) (calls : List Call) : Single (r.records calls).flatten := by
  induction calls generalizing r with
  | nil => exact fun u _ => Nat.zero_le _
  | cons call calls ih =>
    intro u hu
    have hcall : Unfailing (call.loads r) u := hu.of_append
    have hrest : Unfailing (records (call.finish r).resolver calls).flatten u := fun load hl =>
      hu load (List.mem_append_right _ hl)
    rw [records, List.flatten_cons, countFor_append]
    by_cases hnone : ∀ load ∈ call.loads r, load.uid ≠ u
    · rw [countFor_eq_zero.2 hnone, Nat.zero_add]
      exact ih _ u hrest
    · obtain ⟨load, hl, hload⟩ : ∃ load ∈ call.loads r, load.uid = u := by
        simpa only [Classical.not_forall, Decidable.not_not, exists_prop] using hnone
      obtain ⟨owner, -, hr⟩ := (call.sound r).recorded
      obtain ⟨p, hp⟩ := hr.known_of_load hcall hl hload
      rw [countFor_eq_zero.2 (not_loaded hp calls)]
      exact (call.sound r).single u hcall

/-- However callers come and take turns, and whatever the link does to them, a number is remembered
if and only if the first load on a slot for it succeeded, and an answer that is not remembered is a
late one. What is remembered is answered from then on without a load, no slot is left on the table
when everybody has answered, and while no load for a number fails there is at most one. So it is
with one number looked up alone, and with any calls one after another. -/
theorem cached_iff_first_load_succeeded (r : Resolver) :
    (∀ l uids events,
      Learned r.known ((start r l uids).loads events) ((start r l uids).run events)) ∧
    (∀ l uids events later i u p, ((start r l uids).run events).resolver.known.get? u = some p →
      ((start r l uids).run events).At i u .starting →
        Recalls ((start r l uids).run (events ++ later)) i u p) ∧
    (∀ calls u p, (r.after calls).known.get? u = some p ↔
      r.known.get? u = some p ∨ ∃ loads ∈ r.records calls, Remembered loads u p) ∧
    (∀ calls, Single (r.records calls).flatten) ∧ (∀ calls call, Served (r.after calls) call) ∧
    ∀ ids u l, r.resolveTogether ids [u] l = ([(r.resolve ids u l).1], (r.resolve ids u l).2) := by
  refine ⟨fun l uids events => ((sound_start r l uids).run events).learned,
    fun l uids events later i u p hp hi => ?_,
    known_after r, single_records r, fun calls call => served _ call, resolveTogether_singleton r⟩
  rw [run_append]
  exact ((sound_start r l uids).run events).recalls hp hi later

def faultyResolver : Resolver := .new .empty ⟨"", 0, "zone", "", "rods", "", "rods", .slash⟩ .asKept

def faultyLink : Link :=
  { Link.ofServer (.ofStore ((Store.new "zone" "rods").addUser "alice" .regular)) with
    faults := [⟨"find_user", none, some 1, .connection "down"⟩] }

def faultyCall : Call := ⟨Identities.empty.addUser "alice" 1000 1000, faultyLink, [1000, 1000]⟩

theorem faultyCall_outcome :
    (faultyResolver.resolveTogether faultyCall.identities faultyCall.uids faultyCall.link).1[1]? =
      some (.ok ⟨"alice", 1000, 1000, faultyResolver.admin.actingAs "alice"⟩) ∧
    (faultyResolver.resolveTogether faultyCall.identities faultyCall.uids
      faultyCall.link).2.1.known.get? 1000 = none := by
  decide +kernel

theorem second_answer_late : Late (faultyCall.loads faultyResolver) 1000
    ⟨"alice", 1000, 1000, faultyResolver.admin.actingAs "alice"⟩ := by
  have hserved : Served faultyResolver faultyCall :=
    (cached_iff_first_load_succeeded faultyResolver).2.2.2.2.1 [] faultyCall
  obtain ⟨hanswer, hknown⟩ := faultyCall_outcome
  rw [hserved.outcome] at hanswer hknown
  refine (hserved.answered 1 1000 _ rfl hanswer).resolve_left fun hp => ?_
  cases hknown.symm.trans hp

theorem late_answer_forgotten :
    ¬∀ (r : Resolver) (ids : Identities) (uids : List UInt32) (l : Link) (i : Nat) (u : UInt32)
    (p : Principal), uids[i]? = some u → (r.resolveTogether ids uids l).1[i]? = some (.ok p) →
      (r.resolveTogether ids uids l).2.1.known.get? u = some p := by
  intro h
  obtain ⟨hanswer, hknown⟩ := faultyCall_outcome
  cases hknown.symm.trans (h _ _ _ _ 1 1000 _ rfl hanswer)

end StoreMount.Resolver
