import StoreMount.Proofs.Resolver.Progress

/-!
# A batch settles

The rounds of a small batch and the lines of a large one are turns of its callers in a certain
order, and there are enough of them: in every round but the first somebody is ready, and everybody
who stands in a line is, so the weights run out before the turns do.
-/
namespace StoreMount.Resolver.Batch

variable {b b' : Batch} {owner : Owners} {caller slot i k : Nat} {uid u : UInt32} {stage st : Stage}
    {load : Option Load}
  {before : Table UInt32 Principal} {loads : List Load} {ids : Identities}

def Finished (b : Batch) : Prop := ∀ i u st, b.At i u st → st.finished = true

def Resting (b : Batch) : Prop := ∀ i u st, b.At i u st → st.due = false

theorem finished_iff : (b.callers.all fun c => c.2.finished) = true ↔ b.Finished := by
  rw [List.all_eq_true]
  constructor
  · intro h i u st hi
    exact h (u, st) (List.mem_of_getElem? hi)
  · rintro h ⟨u, st⟩ hm
    obtain ⟨i, hi⟩ := List.mem_iff_getElem?.1 hm
    exact h i u st hi

theorem lt_length (hc : b.At caller uid stage) : caller < b.callers.length :=
  (List.getElem?_eq_some_iff.1 hc).1

/-! ## Rounds -/

def roundsTurns (ids : Identities) : Nat → Batch → List Nat
  | 0, _ => []
  | n + 1, b =>
    if b.callers.all fun c => c.2.finished then []
    else List.range b.callers.length ++ roundsTurns ids n (b.round ids)

theorem takeTurns_roundsTurns (n : Nat) (b : Batch) :
    b.takeTurns ids (roundsTurns ids n b) = rounds ids n b := by
  induction n generalizing b with
  | zero => rfl
  | succ n ih =>
    rw [roundsTurns, rounds]
    split
    · rfl
    · rw [takeTurns_append, ← round_eq, ih]

theorem Sound.round (h : Sound before loads b) (ids : Identities) :
    ∃ loads', Sound before loads' (b.round ids) := by
  rw [round_eq]
  exact ⟨_, h.takeTurns ids _⟩

theorem Sound.total_round_lt (h : Sound before loads b) (hr : b.Ready i) :
    (b.round ids).total k < b.total k := by
  obtain ⟨u, st, hi, -⟩ := id hr
  rw [round_eq]
  exact h.total_takeTurns_lt hr (List.mem_range.2 (lt_length hi))

theorem Sound.rounds (h : Sound before loads b) {n : Nat} (hn : b.total 0 ≤ n) :
    (rounds ids n b).Finished := by
  induction n generalizing b loads with
  | zero => exact fun i u st hi =>
    Stage.finished_of_weight (Nat.le_zero.1 (Nat.le_trans (weight_le_total hi) hn))
  | succ n ih =>
    rw [Batch.rounds]
    split
    · next hf => exact finished_iff.1 hf
    · next hf =>
      obtain ⟨i, u, st, hi, hst⟩ : ∃ i u st, b.At i u st ∧ st.finished ≠ true := by
        simpa only [finished_iff, Finished, Classical.not_forall, exists_prop] using hf
      obtain ⟨j, hj⟩ := h.exists_ready hi hst
      have hlt : (b.round ids).total 0 < b.total 0 := h.total_round_lt hj
      obtain ⟨loads', h'⟩ := h.round ids
      exact ih h' (Nat.le_of_lt_succ (Nat.lt_of_lt_of_le hlt hn))

/-! ## Lines -/

def serveTurns (ids : Identities) : Nat → List Nat → List Nat → Batch → List Nat
  | 0, _, _, _ => []
  | _ + 1, [], [], _ => []
  | n + 1, [], w :: waiting, b => serveTurns ids n (w :: waiting) [] b
  | n + 1, caller :: line, waiting, b =>
    let b := b.turn ids caller
    let granted := (b.callersAt Stage.isGranted).filter fun c => !line.contains c
    let waiting :=
      if (b.callersAt Stage.isConnecting).contains caller then caller :: waiting else waiting
    caller :: serveTurns ids n (line ++ granted) waiting b

theorem takeTurns_serveTurns (n : Nat) (line waiting : List Nat) (b : Batch) :
    b.takeTurns ids (serveTurns ids n line waiting b) = serve ids n line waiting b := by
  induction n, line, waiting, b using serveTurns.induct ids with
  | case1 | case2 => rfl
  | case3 n w waiting b ih => exact ih
  | case4 n caller line waiting b b' granted waiting' ih => exact ih

theorem mem_callersAt {p : Stage → Bool} :
    i ∈ b.callersAt p ↔ ∃ u st, b.At i u st ∧ p st = true := by
  rw [callersAt, List.mem_filterMap]
  constructor
  · rintro ⟨⟨⟨u, st⟩, j⟩, hm, hj⟩
    simp only [Option.ite_none_right_eq_some, Option.some.injEq] at hj
    obtain ⟨hp, rfl⟩ := hj
    exact ⟨u, st, List.mk_mem_zipIdx_iff_getElem?.1 hm, hp⟩
  · rintro ⟨u, st, hi, hp⟩
    exact ⟨((u, st), i), List.mk_mem_zipIdx_iff_getElem?.2 hi, if_pos hp⟩

theorem nodup_callersAt (b : Batch) (p : Stage → Bool) : (b.callersAt p).Nodup := by
  have hfilter : ∀ l : List ((UInt32 × Stage) × Nat),
      (l.filterMap fun x => if p x.1.2 then some x.2 else none) =
      (l.filter fun x => p x.1.2).map Prod.snd := fun l => by
    induction l with
    | nil => rfl
    | cons x l ih =>
      rw [List.filterMap_cons, List.filter_cons, ih]
      split <;> simp_all
  rw [show b.callersAt p = _ from hfilter b.callers.zipIdx]
  refine List.Nodup.sublist (List.filter_sublist.map _) ?_
  rw [List.zipIdx_map_snd]
  exact List.nodup_range'

/-- Who can go on stands in the line or waits for a connection, and nobody else does. -/
structure Lined (line waiting : List Nat) (b : Batch) : Prop where
  nodup : (line ++ waiting).Nodup
  due : ∀ i ∈ line, ∃ u st, b.At i u st ∧ st.due = true
  connecting : ∀ i ∈ waiting, ∃ u st, b.At i u st ∧ st.isConnecting = true
  all : ∀ i u st, b.At i u st → st.due = true → i ∈ line ∨ i ∈ waiting

theorem Lined.turned {waiting : List Nat} (h : Lined [] waiting b) : Lined waiting [] b where
  nodup := (List.append_nil waiting).symm ▸ h.nodup
  due i hi := by
    obtain ⟨u, st, hu, hst⟩ := h.connecting i hi
    exact ⟨u, st, hu, Stage.due_of_isConnecting hst⟩
  connecting := nofun
  all i u st hi hst := .inl ((h.all i u st hi hst).resolve_left List.not_mem_nil)

def granted (b : Batch) (line : List Nat) : List Nat :=
  (b.callersAt Stage.isGranted).filter fun c => !line.contains c

theorem mem_granted {line : List Nat} :
    i ∈ b.granted line ↔ (∃ u st, b.At i u st ∧ st.isGranted = true) ∧ i ∉ line := by
  rw [granted, List.mem_filter, mem_callersAt]
  simp

theorem mem_waiting {waiting : List Nat} :
    i ∈ (if stage.isConnecting then caller :: waiting else waiting) ↔
    (i = caller ∧ stage.isConnecting = true) ∨ i ∈ waiting := by
  cases stage.isConnecting <;> simp

section Passed
variable {line waiting : List Nat} (h : Lined (caller :: line) waiting b) (ho : b.Orderly owner)
  (ht : b.Turned caller load b') (hat : b'.At caller uid stage)
include h ho ht

theorem Lined.stays {st : Stage} (hi : i ∈ line ∨ i ∈ waiting) (hb : b.At i u st)
    (hst : st.due = true) : b'.At i u st := by
  refine ht.stays ho ?_ hb (Stage.not_waits_of_due hst)
  rintro rfl
  exact (List.nodup_cons.1 h.nodup).1 (List.mem_append.2 hi)

include hat

theorem Lined.connecting_passed
    (hi : i ∈ (if stage.isConnecting then caller :: waiting else waiting)) :
    ∃ u st, b'.At i u st ∧ st.isConnecting = true := by
  rcases mem_waiting.1 hi with ⟨rfl, hst⟩ | hi
  · exact ⟨uid, stage, hat, hst⟩
  · obtain ⟨u, st, hb, hst⟩ := h.connecting i hi
    exact ⟨u, st, h.stays ho ht (.inr hi) hb (Stage.due_of_isConnecting hst), hst⟩

theorem Lined.nodup_passed :
    ((line ++ b'.granted line) ++ if stage.isConnecting then caller :: waiting
      else waiting).Nodup := by
  obtain ⟨hout, hnodup⟩ := List.nodup_cons.1 h.nodup
  obtain ⟨hline, hwaiting, hapart⟩ := List.nodup_append.1 hnodup
  refine List.nodup_append.2
    ⟨List.nodup_append.2 ⟨hline, (nodup_callersAt _ _).filter _, ?_⟩, ?_, ?_⟩
  · rintro i hi j hj rfl
    exact (mem_granted.1 hj).2 hi
  · split
    · exact List.nodup_cons.2 ⟨fun hm => hout (List.mem_append_right _ hm), hwaiting⟩
    · exact hwaiting
  · rintro i hi j hj rfl
    rcases List.mem_append.1 hi with hi | hi
    · rcases mem_waiting.1 hj with ⟨rfl, -⟩ | hw
      · exact hout (List.mem_append_left _ hi)
      · exact hapart i hi i hw rfl
    · obtain ⟨u, st, hb, hst⟩ := h.connecting_passed ho ht hat hj
      obtain ⟨⟨u', st', hb', hst'⟩, -⟩ := mem_granted.1 hi
      obtain ⟨rfl, rfl⟩ := hb.unique hb'
      cases hst.symm.trans (Stage.not_connecting_of_isGranted hst')

theorem Lined.passed (hdue : stage.due = stage.isConnecting) :
    Lined (line ++ b'.granted line)
      (if stage.isConnecting then caller :: waiting else waiting) b' where
  nodup := h.nodup_passed ho ht hat
  due i hi := by
    rcases List.mem_append.1 hi with hi | hi
    · obtain ⟨u, st, hb, hst⟩ := h.due i (List.mem_cons_of_mem _ hi)
      exact ⟨u, st, h.stays ho ht (.inl hi) hb hst, hst⟩
    · obtain ⟨⟨u, st, hb, hst⟩, -⟩ := mem_granted.1 hi
      exact ⟨u, st, hb, Stage.due_of_isGranted hst⟩
  connecting i hi := h.connecting_passed ho ht hat hi
  all i u st hi hst := by
    by_cases he : i = caller
    · subst he
      obtain ⟨rfl, rfl⟩ := hi.unique hat
      exact .inr (mem_waiting.2 (.inl ⟨rfl, hdue.symm.trans hst⟩))
    · rcases ht.elsewhere ho he with hsame | ⟨u', slot, -, hg⟩
      · rcases h.all i u st (hsame.symm.trans hi) hst with hl | hw
        · exact .inl (List.mem_append_left _ ((List.mem_cons.1 hl).resolve_left he))
        · exact .inr (mem_waiting.2 (.inr hw))
      · by_cases hl : i ∈ line
        · exact .inl (List.mem_append_left _ hl)
        · exact .inl (List.mem_append_right _ (mem_granted.2 ⟨⟨u', _, hg, rfl⟩, hl⟩))

end Passed

theorem Lined.served {line waiting : List Nat} (h : Lined (caller :: line) waiting b)
    (hs : Sound before loads b) (ids : Identities) : ∃ u st, (b.turn ids caller).At caller u st ∧
      Lined (line ++ (b.turn ids caller).granted line)
        (if st.isConnecting then caller :: waiting else waiting) (b.turn ids caller) ∧
      (b.turn ids caller).total 1 +
        (if st.isConnecting then caller :: waiting else waiting).length <
        b.total 1 + waiting.length := by
  obtain ⟨owner, ho, -⟩ := hs.recorded
  obtain ⟨load, ht⟩ := b.turned ids caller
  obtain ⟨u₀, st₀, hc₀, hdue₀⟩ := h.due caller List.mem_cons_self
  obtain ⟨-, hidle⟩ | ⟨uid, stage, stage', hc, hat, htotal, hweight, hdue⟩ := ht.falls ho 1
  · exact absurd hidle (Ready.not_idle ⟨u₀, st₀, hc₀, .inl hdue₀⟩)
  refine ⟨uid, stage', hat, h.passed ho ht hat hdue, ?_⟩
  cases hconn : stage'.isConnecting with
  | true =>
    simp only [hconn, if_true] at hweight ⊢
    rw [List.length_cons]
    omega
  | false =>
    simp only [hconn, Bool.false_eq_true, if_false] at hweight ⊢
    omega

theorem Sound.serve (h : Sound before loads b) {n : Nat} {line waiting : List Nat}
    (hl : Lined line waiting b) (hn : b.total 1 + waiting.length ≤ n) :
    (serve ids n line waiting b).Resting := by
  -- serving the first in the line, and taking a new line, both make the bound smaller
  induction n generalizing line waiting b loads with
  | zero =>
    intro i u st hi
    have hi : b.At i u st := hi
    cases hst : st.due with
    | false => rfl
    | true =>
      have hweight := Nat.lt_of_lt_of_le (Stage.weight_of_due hst) (weight_le_total (k := 1) hi)
      omega
  | succ n ih =>
    cases line with
    | nil =>
      cases waiting with
      | nil =>
        intro i u st hi
        cases hst : st.due with
        | false => rfl
        | true => cases hl.all i u st hi hst <;> contradiction
      | cons w waiting =>
        refine ih h hl.turned ?_
        rw [List.length_cons] at hn
        exact Nat.le_trans (Nat.le_add_right _ _) (Nat.le_of_succ_le_succ hn)
    | cons caller line =>
      obtain ⟨u, st, hat, hl', hless⟩ := hl.served h ids
      -- the caller is kept aside exactly if its turn has left it connecting
      have hcontains : ((b.turn ids caller).callersAt Stage.isConnecting).contains caller =
          st.isConnecting := by
        rw [Bool.eq_iff_iff, List.contains_iff_mem, mem_callersAt]
        constructor
        · rintro ⟨u', st', hat', hst'⟩
          exact (hat.unique hat').2 ▸ hst'
        · exact fun hst => ⟨u, st, hat, hst⟩
      rw [Batch.serve]
      simp only [hcontains]
      exact ih (h.step (.turn ids caller)) hl' (Nat.le_of_lt_succ (Nat.lt_of_lt_of_le hless hn))

theorem Sound.resting_turn (h : Sound before loads b) (hr : b.Resting) (ids : Identities)
    (caller : Nat) :
    (b.turn ids caller).Resting ∧ ∀ u st, (b.turn ids caller).At caller u st →
      st.finished = true := by
  cases hc : b.callers[caller]? with
  | none =>
    have hturn : b.turn ids caller = b := by simp only [turn, hc]
    rw [hturn]
    exact ⟨hr, fun u st hat => by cases hc.symm.trans hat⟩
  | some x =>
    obtain ⟨uid, stage⟩ := x
    obtain hf | ⟨slot, rfl⟩ := Stage.cases_due (hr caller uid stage hc)
    · have hturn : b.turn ids caller = b := by
        cases stage <;> first | cases hf; done | simp only [turn, hc]
      rw [hturn]
      exact ⟨hr, fun u st hat => (At.unique hc hat).2 ▸ hf⟩
    · rcases h.answered_or_held hc with ⟨p, queue, hslot⟩ | ⟨i, u, st, hi, hs⟩
      · have hturn : b.turn ids caller = b.setStage caller (.done (.ok p)) := by
          simp [turn, hc, hslot]
        rw [hturn]
        refine ⟨fun i u st hat => ?_, fun u st hat => ?_⟩
        · obtain ⟨-, -, rfl⟩ | ⟨-, hat⟩ := (at_setStage hc).1 hat
          · rfl
          · exact hr i u st hat
        · obtain ⟨-, -, rfl⟩ | ⟨hne, -⟩ := (at_setStage hc).1 hat
          · rfl
          · exact absurd rfl hne
      · cases (hr i u st hi).symm.trans (Stage.due_of_held? hs)

theorem Sound.resting_takeTurns (h : Sound before loads b) (hr : b.Resting) (turns : List Nat) :
    ∀ i ∈ turns, ∀ u st, (b.takeTurns ids turns).At i u st → st.finished = true := by
  induction turns generalizing b loads with
  | nil => nofun
  | cons caller turns ih =>
    have h' : Sound before _ (b.turn ids caller) := h.step (.turn ids caller)
    obtain ⟨hr', hcaller⟩ := h.resting_turn hr ids caller
    intro i hi u st hat
    by_cases hturns : i ∈ turns
    · exact ih h' hr' i hturns u st hat
    · obtain rfl := (List.mem_cons.1 hi).resolve_right hturns
      rw [takeTurns_cons] at hat
      obtain ⟨st', hat'⟩ := At.before_takeTurns hat
      have hf := hcaller u st' hat'
      cases st' with
      | done answer => exact (hat.unique (h'.done_run hat' _)).2 ▸ rfl
      | starting | queued | granted | connecting => cases hf

/-! ## Settling -/

def settleTurns (b : Batch) (ids : Identities) : List Nat :=
  let size := b.callers.length
  if size ≤ smallSize then roundsTurns ids (2 * size + 2) b
  else serveTurns ids (4 * size + 1) (List.range size) [] b ++ List.range size

theorem takeTurns_settleTurns (b : Batch) (ids : Identities) :
    b.takeTurns ids (b.settleTurns ids) = b.settle ids := by
  unfold settleTurns settle
  simp only
  split
  · exact takeTurns_roundsTurns _ b
  · rw [takeTurns_append, round_eq, ← takeTurns_serveTurns, length_takeTurns]

section Start
variable (r : Resolver) (l : Link) (uids : List UInt32)

theorem length_start : (start r l uids).callers.length = uids.length := List.length_map _

theorem total_start (k : Nat) : (start r l uids).total k = uids.length * (k + 3) := by
  rw [total, start]
  induction uids with
  | nil => exact (Nat.zero_mul _).symm
  | cons uid uids ih =>
    rw [List.map_cons, List.foldr_cons, ih, List.length_cons, Nat.succ_mul, Nat.add_comm]
    rfl

theorem ready_start (h : i < uids.length) : (start r l uids).Ready i := by
  obtain ⟨x, hx⟩ : ∃ x, (start r l uids).callers[i]? = some x :=
    ⟨_, List.getElem?_eq_getElem (length_start r l uids ▸ h)⟩
  exact ⟨x.1, x.2, hx, .inl (starting_of_at_start hx ▸ rfl)⟩

theorem lined_start : Lined (List.range uids.length) [] (start r l uids) where
  nodup := (List.append_nil _).symm ▸ List.nodup_range
  due i hi := by
    obtain ⟨u, st, hat, -⟩ := ready_start r l uids (List.mem_range.1 hi)
    exact ⟨u, st, hat, starting_of_at_start hat ▸ rfl⟩
  connecting := nofun
  all i u st hat _ := .inl (List.mem_range.2 (length_start r l uids ▸ lt_length hat))

theorem settle_finished (ids : Identities) : ((start r l uids).settle ids).Finished := by
  have hstart := sound_start r l uids
  unfold settle
  simp only [length_start]
  split
  · rw [rounds]
    split
    · next hf => exact finished_iff.1 hf
    · have hround : ((start r l uids).round ids).total 0 + uids.length ≤ uids.length * 3 := by
        have hall : ((start r l uids).takeTurns ids (List.range uids.length)).total 0 +
            (List.range uids.length).length ≤
            (start r l uids).total 0 :=
          hstart.total_takeTurns_of_ready List.nodup_range fun i hi =>
            ready_start r l uids (List.mem_range.1 hi)
        rwa [total_start, List.length_range, ← length_start r l uids, ← round_eq,
          length_start] at hall
      obtain ⟨loads, h⟩ := hstart.round ids
      exact h.rounds (by omega)
  · have hserved :
        (serve ids (4 * uids.length + 1) (List.range uids.length) [] (start r l uids)).Resting := by
      refine hstart.serve (lined_start r l uids) ?_
      rw [total_start, List.length_nil]
      omega
    rw [← takeTurns_serveTurns] at hserved ⊢
    rw [round_eq]
    intro i u st hat
    have hlt := lt_length hat
    rw [length_takeTurns] at hlt
    exact (hstart.takeTurns ids _).resting_takeTurns hserved _ i (List.mem_range.2 hlt) u st hat

end Start

end StoreMount.Resolver.Batch
