import StoreMount.Proofs.Resolver.Turns

/-!
# Who waits for whom

Every slot is opened for one number. While it has no answer it has at most one holder, everybody
else at it stands in its queue exactly once, and if somebody stands there or the slot is on the
table, then it has a holder. With an answer it has neither a queue nor a holder, and is off the
table. An act is about one slot at most, and the others do not see it.
-/
namespace StoreMount.Resolver.Batch

abbrev Owners := Nat → UInt32

structure Kept (owner : Owners) (b : Batch) (s : Nat) (x : Slot) : Prop where
  theirs : ∀ c u stage, b.At c u stage → stage.slot? = some s → owner s = u
  listed : ∀ u, b.current.get? u = some s → owner s = u ∧ x.principal = none
  nodup : x.queue.Nodup
  queued : ∀ c ∈ x.queue, ∃ u, b.At c u (.queued s)
  waits : ∀ c u, b.At c u (.queued s) → x.principal = none → c ∈ x.queue
  closed : x.principal ≠ none → x.queue = [] ∧ ∀ c u stage, b.At c u stage → stage.held? ≠ some s
  sole : ∀ c c' u u' stage stage', b.At c u stage → b.At c' u' stage' → stage.held? = some s →
    stage'.held? = some s → c = c'
  held : x.principal = none → (x.queue ≠ [] ∨ ∃ u, b.current.get? u = some s) →
    ∃ c u stage, b.At c u stage ∧ stage.held? = some s

structure Orderly (owner : Owners) (b : Batch) : Prop where
  numbered : ∀ s, b.slots.get? s ≠ none ↔ s < b.slots.size
  placed : ∀ c u stage s, b.At c u stage → stage.slot? = some s → s < b.slots.size
  listed : ∀ u s, b.current.get? u = some s → s < b.slots.size
  kept : ∀ s x, b.slots.get? s = some x → b.Kept owner s x

variable {b b' : Batch} {owner owner' : Owners} {caller slot s : Nat} {uid : UInt32} {stage : Stage}
    {x : Slot} {load : Option Load}

theorem Kept.frame (h : b.Kept owner s x) (ho : owner' s = owner s)
    (hat : ∀ c u stage, stage.slot? = some s → (b'.At c u stage ↔ b.At c u stage))
    (hc : ∀ u, b'.current.get? u = some s ↔ b.current.get? u = some s) : b'.Kept owner' s x := by
  have hheld : ∀ c u stage, stage.held? = some s → (b'.At c u stage ↔ b.At c u stage) :=
      fun c u stage hs =>
    hat c u stage (Stage.slot?_of_held? hs)
  have hqueued : ∀ c u, b'.At c u (.queued s) ↔ b.At c u (.queued s) := fun c u => hat c u _ rfl
  refine ⟨fun c u stage hb hs => ?_, ?_, h.nodup, ?_, ?_, fun hp => ⟨(h.closed hp).1, ?_⟩, ?_,
    fun hp hw => ?_⟩
  · exact ho.trans (h.theirs c u stage ((hat c u stage hs).1 hb) hs)
  · intro u hu
    exact ⟨ho.trans (h.listed u ((hc u).1 hu)).1, (h.listed u ((hc u).1 hu)).2⟩
  · simpa only [hqueued] using h.queued
  · simpa only [hqueued] using h.waits
  · exact fun c u stage hb hs => (h.closed hp).2 c u stage ((hheld c u stage hs).1 hb) hs
  · exact fun c c' u u' stage stage' hb hb' hs hs' =>
      h.sole c c' u u' stage stage' ((hheld c u stage hs).1 hb)
        ((hheld c' u' stage' hs').1 hb') hs hs'
  · simp only [hc] at hw
    obtain ⟨c, u, stage, hb, hs⟩ := h.held hp hw
    exact ⟨c, u, stage, (hheld c u stage hs).2 hb, hs⟩

theorem kept_of_answer {p : Principal}
    (howner : ∀ c u stage, b.At c u stage → stage.slot? = some s → owner s = u)
    (hunlisted : ∀ u, b.current.get? u ≠ some s)
    (hfree : ∀ c u stage, b.At c u stage → stage.held? ≠ some s) :
    b.Kept owner s ⟨some p, []⟩ where
  theirs := howner
  listed u hu := absurd hu (hunlisted u)
  nodup := List.nodup_nil
  queued := nofun
  waits _ _ _ hp := by cases hp
  closed _ := ⟨rfl, hfree⟩
  sole c _ u _ stage _ hc _ hs _ := absurd hs (hfree c u stage hc)
  held hp := by cases hp

theorem kept_of_holder (holder : Nat) {queue : List Nat}
    (howner : ∀ c u stage, b.At c u stage → stage.slot? = some s → owner s = u)
    (hlisted : ∀ u, b.current.get? u = some s → owner s = u) (hnodup : queue.Nodup)
    (hqueued : ∀ c, c ∈ queue ↔ ∃ u, b.At c u (.queued s))
    (hholds : ∃ u stage, b.At holder u stage ∧ stage.held? = some s)
    (hsole : ∀ c u stage, b.At c u stage → stage.held? = some s → c = holder) :
    b.Kept owner s ⟨none, queue⟩ where
  theirs := howner
  listed u hu := ⟨hlisted u hu, rfl⟩
  nodup := hnodup
  queued c hc := (hqueued c).1 hc
  waits c u hc _ := (hqueued c).2 ⟨u, hc⟩
  closed hp := absurd rfl hp
  sole c c' u u' stage stage' hc hc' hs hs' :=
    (hsole c u stage hc hs).trans (hsole c' u' stage' hc' hs').symm
  held _ _ := ⟨holder, hholds⟩

theorem kept_of_abandoned (hfree : ∀ c u stage, b.At c u stage → stage.slot? ≠ some s)
    (hunlisted : ∀ u, b.current.get? u ≠ some s) : b.Kept owner s ⟨none, []⟩ where
  theirs c u stage hc hs := absurd hs (hfree c u stage hc)
  listed u hu := absurd hu (hunlisted u)
  nodup := List.nodup_nil
  queued := nofun
  waits c u hc _ := absurd rfl (hfree c u _ hc)
  closed hp := absurd rfl hp
  sole c _ u _ stage _ hc _ hs _ := absurd (Stage.slot?_of_held? hs) (hfree c u stage hc)
  held _ hw := by
    rcases hw with hw | ⟨u, hu⟩
    · exact absurd rfl hw
    · exact absurd hu (hunlisted u)

theorem Kept.current_unlisted (hk : b.Kept owner slot x) (ho : owner slot = uid) (u : UInt32) :
    (if u = uid ∧ b.current.get? uid = some slot then none else b.current.get? u) = some s ↔
      b.current.get? u = some s ∧ s ≠ slot := by
  split
  · next hu => simp [hu.1, hu.2, eq_comm]
  · next hu =>
    refine ⟨fun hs => ⟨hs, ?_⟩, And.left⟩
    rintro rfl
    obtain rfl : u = uid := (hk.listed u hs).1.symm.trans ho
    exact hu ⟨rfl, hs⟩

namespace Orderly

theorem answered (h : b.Orderly owner) {p : Principal} (hc : b.At caller uid stage)
    (hs : stage.held? = none)
    (hq : ∀ slot, stage = .queued slot → ∃ p queue, b.slots.get? slot = some ⟨some p, queue⟩) :
    (b.setStage caller (.done (.ok p))).Orderly owner := by
  refine ⟨h.numbered, fun c u st s hb hst => ?_, h.listed, fun s x hx => ?_⟩
  · obtain ⟨-, -, rfl⟩ | ⟨-, hb⟩ := (at_setStage hc).1 hb
    · cases hst
    · exact h.placed c u st s hb hst
  · have hk := h.kept s x hx
    by_cases hstage : stage = .queued s
    · obtain ⟨p', queue, hslot⟩ := hq s hstage
      obtain rfl := Option.some.inj (hslot.symm.trans hx)
      obtain ⟨rfl, hfree⟩ := hk.closed (by simp)
      refine kept_of_answer (fun c u st hb hst => ?_) (fun u hu => by cases (hk.listed u hu).2)
        fun c u st hb hst => ?_ <;>
        obtain ⟨-, -, rfl⟩ | ⟨-, hb⟩ := (at_setStage hc).1 hb
      · cases hst
      · exact hk.theirs c u st hb hst
      · cases hst
      · exact hfree c u st hb hst
    · have hother : stage.slot? ≠ some s := fun hslot => hstage (Stage.eq_queued hslot hs)
      exact hk.frame rfl (fun c u st => at_setStage_elsewhere hc hother (Stage.slot?_done _ s))
        fun u => Iff.rfl

theorem free (h : b.Orderly owner) : b.slots.get? b.slots.size = none :=
  Decidable.not_not.1 fun hne => Nat.lt_irrefl _ ((h.numbered _).1 (by simpa using hne))

theorem holder_of_listed (h : b.Orderly owner) (hs : b.current.get? uid = some slot) :
    ∃ queue, b.slots.get? slot = some ⟨none, queue⟩ ∧ owner slot = uid ∧
      ∃ c u stage, b.At c u stage ∧ stage.held? = some slot := by
  obtain ⟨⟨p, queue⟩, hslot⟩ :=
    Option.ne_none_iff_exists'.1 ((h.numbered slot).2 (h.listed uid slot hs))
  have hk := h.kept slot _ hslot
  obtain ⟨howner, rfl⟩ := hk.listed uid hs
  exact ⟨queue, hslot, howner, hk.held rfl (.inr ⟨uid, hs⟩)⟩

theorem lt_size (h : b.Orderly owner) (hx : b.slots.get? slot = some x) : slot < b.slots.size :=
  (h.numbered slot).1 (by simp [hx])

/-- What is about one slot, old or new, leaves the others in order if they do not see it. -/
theorem of_one_slot (h : b.Orderly owner) (hsize : b'.slots.size = max b.slots.size (slot + 1))
    (hslots : ∀ s, b'.slots.get? s = if s = slot then some x else b.slots.get? s)
    (hat : ∀ s, s ≠ slot → ∀ c u stage, stage.slot? = some s → (b'.At c u stage ↔ b.At c u stage))
    (hcurrent : ∀ s, s ≠ slot → ∀ u, b'.current.get? u = some s ↔ b.current.get? u = some s)
    (howner : ∀ s, s ≠ slot → owner' s = owner s) (hle : slot ≤ b.slots.size)
    (hk : b'.Kept owner' slot x) : b'.Orderly owner' := by
  refine ⟨fun s => ?_, fun c u stage s hc hs => ?_, fun u s hu => ?_, fun s y hy => ?_⟩
  · rw [hslots, hsize]
    split
    · next he => exact iff_of_true (by simp) (by omega)
    · next he =>
      rw [h.numbered]
      omega
  · by_cases he : s = slot
    · omega
    · have := h.placed c u stage s ((hat s he c u stage hs).1 hc) hs
      omega
  · by_cases he : s = slot
    · omega
    · have := h.listed u s ((hcurrent s he u).1 hu)
      omega
  · rw [hslots] at hy
    split at hy
    · next he =>
      subst he
      obtain rfl := Option.some.inj hy
      exact hk
    · next he => exact (h.kept s y hy).frame (howner s he) (hat s he) (hcurrent s he)

end Orderly

theorem Kept.joined {queue : List Nat} (hk : b.Kept owner slot ⟨none, queue⟩)
    (howner : owner slot = uid) (hc : b.At caller uid .starting) {c₀ : Nat}
    {u₀ : UInt32} {st₀ : Stage} (hat₀ : b.At c₀ u₀ st₀) (hheld₀ : st₀.held? = some slot) :
    (b.joined caller slot).Kept owner slot ⟨none, queue ++ [caller]⟩ := by
  have hnew : caller ∉ queue := fun hm => by
    obtain ⟨u, hu⟩ := hk.queued caller hm
    cases (hu.unique hc).2
  have hat : ∀ {i u st}, (b.joined caller slot).At i u st ↔
      (i = caller ∧ u = uid ∧ st = .queued slot) ∨ (i ≠ caller ∧ b.At i u st) :=
        at_setStage (b := { b with slots := _ }) hc
  have hother : c₀ ≠ caller := by
    rintro rfl
    rw [(hat₀.unique hc).2] at hheld₀
    cases hheld₀
  -- whoever held the slot still does; the caller stands last in the queue
  refine kept_of_holder c₀ (fun c u st hb hst => ?_)
    (fun u hu => (hk.listed u hu).1) ?_ (fun c => ?_)
    ⟨u₀, st₀, hat.2 (.inr ⟨hother, hat₀⟩), hheld₀⟩ fun c u st hb hst => ?_
  · obtain ⟨-, rfl, -⟩ | ⟨-, hb⟩ := hat.1 hb
    · exact howner
    · exact hk.theirs c u st hb hst
  · exact List.nodup_append.2
      ⟨hk.nodup, by simp, fun a ha b hb hab => hnew (List.mem_singleton.1 hb ▸ hab ▸ ha)⟩
  · simp only [hat, List.mem_append, List.mem_singleton]
    constructor
    · rintro (hm | rfl)
      · obtain ⟨u, hu⟩ := hk.queued c hm
        exact ⟨u, .inr ⟨fun he => hnew (he ▸ hm), hu⟩⟩
      · exact ⟨uid, .inl ⟨rfl, rfl, trivial⟩⟩
    · rintro ⟨u, ⟨he, -, -⟩ | ⟨-, hu⟩⟩
      · exact .inr he
      · exact .inl (hk.waits c u hu rfl)
  · obtain ⟨-, -, rfl⟩ | ⟨-, hb⟩ := hat.1 hb
    · cases hst
    · exact hk.sole c c₀ u u₀ st st₀ hb hat₀ hst hheld₀

namespace Orderly

theorem joined (h : b.Orderly owner) (hc : b.At caller uid .starting)
    (hs : b.current.get? uid = some slot) :
    (b.joined caller slot).Orderly owner := by
  obtain ⟨queue, hslot, howner, c₀, u₀, st₀, hat₀, hheld₀⟩ := h.holder_of_listed hs
  have hlt := h.lt_size hslot
  have hslots : ∀ s, (b.joined caller slot).slots.get? s =
      if s = slot then some ⟨none, queue ++ [caller]⟩ else b.slots.get? s := fun s => by
    rw [Batch.joined, slots_setStage, Table.get?_adjust, hslot]
    rfl
  have hsize : (b.joined caller slot).slots.size = b.slots.size := by
    rw [Batch.joined, slots_setStage, Table.adjust, hslot, Table.size_insert, hslot]
    rfl
  refine h.of_one_slot (by omega) hslots (fun s he c u st => ?_) (fun _ _ _ => Iff.rfl)
    (fun _ _ => rfl) (by omega) ?_
  · refine at_setStage_elsewhere (b := { b with slots := _ }) hc (Stage.slot?_starting s) ?_
    exact fun hst => he (Option.some.inj hst).symm
  · exact (h.kept slot _ hslot).joined howner hc hat₀ hheld₀

theorem opened (h : b.Orderly owner) (hc : b.At caller uid .starting)
    (hs : b.current.get? uid = none) :
    (b.opened caller uid).Orderly fun s => if s = b.slots.size then uid else owner s := by
  have hat : ∀ {i u st}, (b.opened caller uid).At i u st ↔
      (i = caller ∧ u = uid ∧ st = .granted b.slots.size) ∨ (i ≠ caller ∧ b.At i u st) :=
    at_setStage (b := { b with slots := _, current := _ }) hc
  have hsize : (b.opened caller uid).slots.size = b.slots.size + 1 := by
    rw [Batch.opened, slots_setStage, Table.size_insert, h.free]
    rfl
  have hcurrent : ∀ u, (b.opened caller uid).current.get? u = if u = uid then some b.slots.size
      else b.current.get? u :=
    fun u => Table.get?_insert ..
  have hnew : ∀ c u st, b.At c u st → st.slot? ≠ some b.slots.size := fun c u st hb hst =>
    Nat.lt_irrefl _ (h.placed c u st _ hb hst)
  refine h.of_one_slot (by omega) (fun s => Table.get?_insert ..) (fun s he c u st => ?_)
    (fun s he u => ?_)
    (fun s he => if_neg he) (Nat.le_refl _) ?_
  · refine at_setStage_elsewhere (b := { b with slots := _, current := _ }) hc
      (Stage.slot?_starting s) ?_
    exact fun hst => he (Option.some.inj hst).symm
  · rw [hcurrent]
    split
    · next hu => simp [hu, hs, Ne.symm he]
    · rfl
  -- nobody has been at the new slot
  refine kept_of_holder caller (fun c u st hb hst => ?_)
    (fun u hu => ?_) List.nodup_nil (fun c => ?_)
    ⟨uid, _, hat.2 (.inl ⟨rfl, rfl, rfl⟩), rfl⟩ fun c u st hb hst => ?_
  · obtain ⟨-, rfl, -⟩ | ⟨-, hb⟩ := hat.1 hb
    · exact if_pos rfl
    · exact absurd hst (hnew c u st hb)
  · rw [hcurrent] at hu
    split at hu
    · next he => exact (if_pos rfl).trans he.symm
    · exact absurd (h.listed u _ hu) (Nat.lt_irrefl _)
  · simp only [hat, List.not_mem_nil, false_iff]
    rintro ⟨u, ⟨-, -, hst⟩ | ⟨-, hb⟩⟩
    · cases hst
    · exact hnew c u _ hb rfl
  · obtain ⟨he, -, -⟩ | ⟨-, hb⟩ := hat.1 hb
    · exact he
    · exact absurd (Stage.slot?_of_held? hst) (hnew c u st hb)

theorem unanswered (h : b.Orderly owner) (hc : b.At caller uid stage)
    (hs : stage.held? = some slot) :
    ∃ queue, b.slots.get? slot = some ⟨none, queue⟩ := by
  have hlt := h.placed caller uid stage slot hc (Stage.slot?_of_held? hs)
  obtain ⟨⟨p, queue⟩, hslot⟩ := Option.ne_none_iff_exists'.1 ((h.numbered slot).2 hlt)
  cases p with
  | none => exact ⟨queue, hslot⟩
  | some p => exact absurd hs (((h.kept slot _ hslot).closed (by simp)).2 caller uid stage hc)

theorem connected (h : b.Orderly owner) (hc : b.At caller uid (.granted slot)) (person : Person)
    (link : Link) :
    ({ b with link }.setStage caller (.connecting slot person)).Orderly owner := by
  obtain ⟨queue, hslot⟩ := h.unanswered hc rfl
  have hk := h.kept slot _ hslot
  have hlt := h.lt_size hslot
  have hat : ∀ {i u st}, ({ b with link }.setStage caller (.connecting slot person)).At i u st ↔
      (i = caller ∧ u = uid ∧ st = .connecting slot person) ∨ (i ≠ caller ∧ b.At i u st) :=
        at_setStage (b := { b with link }) hc
  have hsize : ({ b with link }.setStage caller (.connecting slot person)).slots.size =
    b.slots.size := rfl
  have hslots : ∀ s, b.slots.get? s = if s = slot then some ⟨none, queue⟩
      else b.slots.get? s := fun s => by
    split
    · next he => exact he ▸ hslot
    · rfl
  refine h.of_one_slot (by omega) hslots (fun s he c u st => ?_) (fun _ _ _ => Iff.rfl)
    (fun _ _ => rfl) (by omega) ?_
  · have hother : (Stage.granted slot).slot? ≠ some s := fun hst => he (Option.some.inj hst).symm
    have hother' : (Stage.connecting slot person).slot? ≠ some s := hother
    exact at_setStage_elsewhere (b := { b with link }) hc hother hother'
  refine kept_of_holder caller (fun c u st hb hst => ?_)
    (fun u hu => (hk.listed u hu).1) hk.nodup (fun c => ?_)
    ⟨uid, _, hat.2 (.inl ⟨rfl, rfl, rfl⟩), rfl⟩ fun c u st hb hst => ?_
  · obtain ⟨-, rfl, -⟩ | ⟨-, hb⟩ := hat.1 hb
    · exact hk.theirs caller u _ hc rfl
    · exact hk.theirs c u st hb hst
  · simp only [hat]
    constructor
    · intro hm
      obtain ⟨u, hu⟩ := hk.queued c hm
      refine ⟨u, .inr ⟨?_, hu⟩⟩
      rintro rfl
      cases (hu.unique hc).2
    · rintro ⟨u, ⟨-, -, hst⟩ | ⟨-, hu⟩⟩
      · cases hst
      · exact hk.waits c u hu rfl
  · obtain ⟨he, -, -⟩ | ⟨-, hb⟩ := hat.1 hb
    · exact he
    · exact hk.sole c caller u uid st _ hb hc hst rfl

theorem alone (h : b.Orderly owner) (hslot : b.slots.get? slot = some ⟨none, []⟩)
    (hc : b.At caller uid stage) (hs : stage.held? = some slot) {c : Nat} {u : UInt32} {st : Stage}
    (hb : b.At c u st) (hst : st.slot? = some slot) :
    c = caller := by
  have hk := h.kept slot _ hslot
  cases hheld : st.held? with
  | none =>
    obtain rfl := Stage.eq_queued hst hheld
    exact absurd (hk.waits c u hb rfl) List.not_mem_nil
  | some s' =>
    obtain rfl : slot = s' := Option.some.inj (hst.symm.trans (Stage.slot?_of_held? hheld))
    exact hk.sole c caller u uid st stage hb hc hheld hs

theorem next_queued (h : b.Orderly owner) {next : Nat} (hn : b.next? slot = some next) :
    ∃ u, b.At next u (.queued slot) := by
  obtain ⟨x, hslot, hhead⟩ := Option.bind_eq_some_iff.1 hn
  exact (h.kept slot x hslot).queued next (List.mem_of_mem_head? hhead)

theorem at_failed (h : b.Orderly owner) (hc : b.At caller uid stage) (hs : stage.held? = some slot)
    (e : FacadeError) :
    (b.fail caller uid slot e).At caller uid (.done (.error e)) := by
  refine (at_fail hc e fun next hn => h.next_queued hn).2
    (.inr (.inl ⟨fun hn => ?_, rfl, rfl, rfl⟩))
  obtain ⟨u, hu⟩ := h.next_queued hn
  rw [(hc.unique hu).2] at hs
  cases hs

theorem at_failed_elsewhere (h : b.Orderly owner) (hc : b.At caller uid stage)
    (hs : stage.held? = some slot) (e : FacadeError) (hne : s ≠ slot) {c : Nat} {u : UInt32}
    {st : Stage} (hst : st.slot? = some s) :
    (b.fail caller uid slot e).At c u st ↔ b.At c u st := by
  rw [at_fail hc e fun next hn => h.next_queued hn]
  constructor
  · rintro (⟨-, -, rfl⟩ | ⟨-, -, -, rfl⟩ | ⟨-, -, hb⟩)
    · exact absurd (Option.some.inj hst).symm hne
    · cases hst
    · exact hb
  · intro hb
    refine .inr (.inr ⟨fun hn => ?_, ?_, hb⟩)
    · obtain ⟨u', hu'⟩ := h.next_queued hn
      rw [(hb.unique hu').2] at hst
      exact hne (Option.some.inj hst).symm
    · rintro rfl
      rw [(hb.unique hc).2] at hst
      exact hne (Option.some.inj (hst.symm.trans (Stage.slot?_of_held? hs)))

theorem current_failed (h : b.Orderly owner) (hc : b.At caller uid stage)
    (hs : stage.held? = some slot) (e : FacadeError) (u : UInt32) :
    (b.fail caller uid slot e).current.get? u = some s ↔ b.current.get? u = some s ∧ s ≠ slot := by
  obtain ⟨queue, hslot⟩ := h.unanswered hc hs
  have hk := h.kept slot _ hslot
  rw [current_fail]
  exact hk.current_unlisted (hk.theirs caller uid stage hc (Stage.slot?_of_held? hs)) u

theorem kept_failed_alone (h : b.Orderly owner) (hc : b.At caller uid stage)
    (hs : stage.held? = some slot) (hslot : b.slots.get? slot = some ⟨none, []⟩) (e : FacadeError) :
    (b.fail caller uid slot e).Kept owner slot ⟨none, []⟩ := by
  refine kept_of_abandoned (fun c u st hb hst => ?_) fun u hu =>
    ((h.current_failed hc hs e u).1 hu).2 rfl
  obtain ⟨hn, -, rfl⟩ | ⟨-, -, -, rfl⟩ | ⟨-, hne, hb⟩ :=
    (at_fail hc e fun next hn => h.next_queued hn).1 hb
  · simp [next?, hslot] at hn
  · cases hst
  · exact hne (h.alone hslot hc hs hb hst)

theorem kept_failed_next (h : b.Orderly owner) (hc : b.At caller uid stage)
    (hs : stage.held? = some slot) {next : Nat} {queue : List Nat}
    (hslot : b.slots.get? slot = some ⟨none, next :: queue⟩) (e : FacadeError) :
    (b.fail caller uid slot e).Kept owner slot ⟨none, queue⟩ := by
  have hk := h.kept slot _ hslot
  have hnext : b.next? slot = some next := by simp [next?, hslot]
  have hat := fun i u st => @at_fail b caller i slot uid stage hc e u st fun next hn =>
    h.next_queued hn
  obtain ⟨u₀, hu₀⟩ := h.next_queued hnext
  obtain ⟨hout, hnodup⟩ := List.nodup_cons.1 hk.nodup
  -- the first in the queue holds the slot now, and the others wait as before
  refine kept_of_holder next (fun c u st hb hst => ?_)
    (fun u hu => absurd rfl ((h.current_failed hc hs e u).1 hu).2) hnodup
    (fun c => ?_) ⟨u₀, .granted slot, (hat ..).2 (.inl ⟨hnext, hu₀, rfl⟩), rfl⟩
      fun c u st hb hst => ?_
  · obtain ⟨-, hb, -⟩ | ⟨-, -, -, rfl⟩ | ⟨-, -, hb⟩ := (hat c u st).1 hb
    · exact hk.theirs c u _ hb rfl
    · cases hst
    · exact hk.theirs c u st hb hst
  · constructor
    · intro hm
      obtain ⟨u, hu⟩ := hk.queued c (List.mem_cons_of_mem _ hm)
      refine ⟨u, (hat ..).2 (.inr (.inr ⟨fun hn => ?_, ?_, hu⟩))⟩
      · obtain rfl : next = c := Option.some.inj (hnext.symm.trans hn)
        exact hout hm
      · rintro rfl
        rw [← (hu.unique hc).2] at hs
        cases hs
    · rintro ⟨u, hu⟩
      obtain ⟨-, -, hst⟩ | ⟨-, -, -, hst⟩ | ⟨hn, -, hu⟩ := (hat c u _).1 hu
      · cases hst
      · cases hst
      · rcases List.mem_cons.1 (hk.waits c u hu rfl) with rfl | hm
        · exact absurd hnext hn
        · exact hm
  · obtain ⟨hn, -, -⟩ | ⟨-, -, -, rfl⟩ | ⟨-, hne, hb⟩ := (hat c u st).1 hb
    · exact (Option.some.inj (hnext.symm.trans hn)).symm
    · cases hst
    · exact absurd (hk.sole c caller u uid st stage hb hc hst hs) hne

theorem failed (h : b.Orderly owner) (hc : b.At caller uid stage) (hs : stage.held? = some slot)
    (e : FacadeError) :
    (b.fail caller uid slot e).Orderly owner := by
  obtain ⟨queue, hslot⟩ := h.unanswered hc hs
  have hlt := h.lt_size hslot
  have hsize := size_fail b caller slot uid e
  have hslots : ∀ s, (b.fail caller uid slot e).slots.get? s = if s =
      slot then some ⟨none, queue.tail⟩ else b.slots.get? s :=
    fun s => by
      rw [slots_fail, hslot]
      cases queue <;> rfl
  refine h.of_one_slot (by omega) hslots (fun s he c u st => h.at_failed_elsewhere hc hs e he)
    (fun s he u => ?_)
    (fun _ _ => rfl) (by omega) ?_
  · rw [h.current_failed hc hs e]
    exact and_iff_left he
  · cases queue with
    | nil => exact h.kept_failed_alone hc hs hslot e
    | cons next queue => exact h.kept_failed_next hc hs hslot e

theorem at_succeeded {person : Person} (hc : b.At caller uid (.connecting slot person))
    (p : Principal) {c : Nat} {u : UInt32} {st : Stage} : (b.succeed caller uid slot p).At c u st ↔
      (c = caller ∧ u = uid ∧ st = .done (.ok p)) ∨ (c ≠ caller ∧ b.At c u st) :=
  (at_succeed p).trans (at_setStage hc)

theorem current_succeeded (h : b.Orderly owner) {person : Person}
    (hc : b.At caller uid (.connecting slot person)) (p : Principal) (u : UInt32) :
    (b.succeed caller uid slot p).current.get? u = some s ↔
      b.current.get? u = some s ∧ s ≠ slot := by
  obtain ⟨queue, hslot⟩ := h.unanswered hc rfl
  have hk := h.kept slot _ hslot
  rw [current_succeed]
  exact hk.current_unlisted (hk.theirs caller uid _ hc rfl) u

theorem size_succeeded (h : b.Orderly owner) {person : Person}
    (hc : b.At caller uid (.connecting slot person)) (p : Principal) :
    (b.succeed caller uid slot p).slots.size = b.slots.size := by
  obtain ⟨queue, hslot⟩ := h.unanswered hc rfl
  exact size_succeed b caller slot uid p (by simp [hslot])

theorem succeeded (h : b.Orderly owner) {person : Person}
    (hc : b.At caller uid (.connecting slot person)) (p : Principal) :
    (b.succeed caller uid slot p).Orderly owner := by
  obtain ⟨queue, hslot⟩ := h.unanswered hc rfl
  have hk := h.kept slot _ hslot
  have hlt := h.lt_size hslot
  have hsize := h.size_succeeded hc p
  refine h.of_one_slot (by omega) (slots_succeed b caller slot uid p)
    (fun s he c u st hst => (at_succeed p).trans ?_)
    (fun s he u => ?_) (fun _ _ => rfl) (by omega) ?_
  · exact at_setStage_elsewhere hc (fun hs => he (Option.some.inj hs).symm)
      (Stage.slot?_done _ s) hst
  · rw [h.current_succeeded hc p]
    exact and_iff_left he
  refine kept_of_answer (fun c u st hb hst => ?_)
    (fun u hu => ((h.current_succeeded hc p u).1 hu).2 rfl) fun c u st hb hst => ?_
  · obtain ⟨-, -, rfl⟩ | ⟨-, hb⟩ := (at_succeeded hc p).1 hb
    · cases hst
    · exact hk.theirs c u st hb hst
  · obtain ⟨-, -, rfl⟩ | ⟨hne, hb⟩ := (at_succeeded hc p).1 hb
    · cases hst
    · exact hne (hk.sole c caller u uid st _ hb hc hst rfl)

theorem meddled (h : b.Orderly owner) (link : Link) : ({ b with link } : Batch).Orderly owner :=
  ⟨h.numbered, h.placed, h.listed,
    fun s x hx => (h.kept s x hx).frame rfl (fun _ _ _ _ => Iff.rfl) fun _ => Iff.rfl⟩

theorem act (h : b.Orderly owner) (ha : b.Act caller load b') : b'.Orderly owner := by
  cases ha with
  | recalled uid p hc hp => exact h.answered hc rfl fun slot he => by cases he
  | shared uid slot p queue hc hs =>
    refine h.answered hc rfl fun slot' he => ?_
    cases he
    exact ⟨p, queue, hs⟩
  | joined uid slot hc hs => exact h.joined hc hs
  | connected uid slot hc person link => exact h.connected hc person link
  | failed uid slot stage hc hs e link => exact (h.meddled link).failed hc hs e
  | succeeded uid slot person hc p link => exact (h.meddled link).succeeded hc p

theorem called (h : b.Orderly owner) (uid : UInt32) : (b.step (.call uid)).Orderly owner := by
  have hat : ∀ c u stage s, stage.slot? = some s →
      ((b.step (.call uid)).At c u stage ↔ b.At c u stage) := fun c u stage s hs => by
    rw [at_call]
    refine or_iff_left ?_
    rintro ⟨-, -, rfl⟩
    cases hs
  exact ⟨h.numbered, fun c u stage s hc hs => h.placed c u stage s ((hat c u stage s hs).1 hc) hs,
    h.listed,
    fun s x hx => (h.kept s x hx).frame rfl (fun c u stage => hat c u stage s) fun _ => Iff.rfl⟩

end Orderly

theorem starting_of_at_start {r : Resolver} {l : Link} {uids : List UInt32}
    (h : (start r l uids).At caller uid stage) :
    stage = .starting := by
  have h : (uids.map fun uid => (uid, Stage.starting))[caller]? = some (uid, stage) := h
  rw [List.getElem?_map] at h
  obtain ⟨u, -, he⟩ := Option.map_eq_some_iff.1 h
  exact (Prod.mk.inj he).2.symm

theorem orderly_start (r : Resolver) (l : Link) (uids : List UInt32) (owner : Owners) :
    (start r l uids).Orderly owner := by
  refine ⟨fun s => ?_, fun c u stage s hc hs => ?_, fun u s hu => ?_, fun s x hx => ?_⟩
  · simp [start, Table.size, Table.empty, Table.get?]
  · rw [starting_of_at_start hc] at hs
    cases hs
  · simp [start] at hu
  · simp [start] at hx

end StoreMount.Resolver.Batch
