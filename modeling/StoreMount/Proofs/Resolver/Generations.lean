import StoreMount.Proofs.Resolver
import Mathlib.Data.List.Induction

/-!
# Generations of known principals

Bindings are entered and removed while numbers are looked up and the resolver looks for changes, in
any order. Its marks are those that the identity source had when it last looked and found a change,
and everybody it knows under a number other than 0 was looked up since. So as long as the marks
agree, whoever is known is known as the source has them now; and the marks agree unless a binding
was entered or removed since, whether or not that made a difference.
-/
namespace StoreMount

inductive Identities.Change
  | addUser (name : String) (uid gid : UInt32)
  | addGroup (name : String) (gid : UInt32)
  | removeUser (uid : UInt32)
deriving Repr

namespace Identities

def change (ids : Identities) : Change → Identities
  | .addUser name uid gid => ids.addUser name uid gid
  | .addGroup name gid => ids.addGroup name gid
  | .removeUser uid => ids.removeUser uid

variable {ids : Identities}

theorem Made.change (h : ids.Made) (c : Change) : (ids.change c).Made := by
  cases c with
  | addUser name uid gid => exact h.addUser name uid gid
  | addGroup name gid => exact h.addGroup name gid
  | removeUser uid => exact h.removeUser uid

theorem changes_change (ids : Identities) (c : Change) :
    (ids.change c).changes = ids.changes + 1 := by
  cases c <;> rfl

theorem down_change (ids : Identities) (c : Change) : (ids.change c).down = ids.down := by
  cases c <;> rfl

end Identities

namespace Resolver

/-- An identity source, the resolver that reads it, and the link on which it looks accounts up. -/
structure Watch where
  identities : Identities
  resolver : Resolver
  link : Link

inductive Watch.Step
  | change (c : Identities.Change)
  | resolve (uid : UInt32)
  | purge
  | link (link : Link)

namespace Watch

def start (ids : Identities) (account : Account) (visiting : Visiting) (link : Link) : Watch :=
  ⟨ids, .new ids account visiting, link⟩

def resolve (w : Watch) (uid : UInt32) : Except FacadeError Principal × Resolver × Link :=
  w.resolver.resolve w.identities uid w.link

def purges (w : Watch) : Bool := (w.resolver.purgeIfChanged w.identities).1

def step (w : Watch) : Step → Watch
  | .change c => { w with identities := w.identities.change c }
  | .resolve uid => { w with resolver := (w.resolve uid).2.1, link := (w.resolve uid).2.2 }
  | .purge => { w with resolver := (w.resolver.purgeIfChanged w.identities).2 }
  | .link link => { w with link }

def run (w : Watch) (steps : List Step) : Watch := steps.foldl step w

def Unpurged (w : Watch) (steps : List Step) : Prop :=
  ∀ before after, steps = before ++ .purge :: after → (w.run before).purges = false

variable {w : Watch}

theorem run_append (w : Watch) (steps later : List Step) :
    w.run (steps ++ later) = (w.run steps).run later :=
  List.foldl_append

theorem run_concat (w : Watch) (steps : List Step) (s : Step) :
    w.run (steps ++ [s]) = (w.run steps).step s := run_append ..

theorem unpurged_nil (w : Watch) : w.Unpurged [] := fun _ _ he => absurd he (by simp)

theorem Unpurged.concat {steps : List Step} {s : Step} (h : w.Unpurged steps) (hs : s ≠ .purge) :
    w.Unpurged (steps ++ [s]) := by
  intro before after he
  rcases List.eq_nil_or_concat after with rfl | ⟨after, last, rfl⟩
  · exact absurd (List.append_inj_right' he rfl) (by simpa using hs)
  · rw [List.concat_eq_append, ← List.cons_append, ← List.append_assoc] at he
    exact h before after (List.append_inj_left' he rfl)

theorem Unpurged.head {s : Step} {steps : List Step} (h : w.Unpurged (s :: steps)) :
    (s = .purge → w.purges = false) ∧ (w.step s).Unpurged steps :=
  ⟨fun he => h [] steps (he ▸ rfl), fun before after he => h (s :: before) after (he ▸ rfl)⟩

/-! ## Marks -/

theorem purges_iff {w : Watch} : w.purges = true ↔ w.resolver.markers ≠ w.identities.markers := by
  unfold purges purgeIfChanged
  split
  · next he => exact iff_of_false Bool.false_ne_true (not_not.2 he)
  · next hne => exact iff_of_true rfl hne

theorem purges_eq_false_iff {w : Watch} :
    w.purges = false ↔ w.resolver.markers = w.identities.markers := by
  rw [← Bool.not_eq_true, purges_iff, not_not]

theorem step_purge_of_purges (h : w.purges = true) : w.step .purge =
    { w with resolver := { w.resolver with
        known := seed w.resolver.admin
        markers := w.identities.markers } } := by
  rw [step, purgeIfChanged, if_neg (purges_iff.1 h)]

theorem step_purge_of_not (h : w.purges = false) : w.step .purge = w := by
  rw [step, purgeIfChanged, if_pos (purges_eq_false_iff.1 h)]

theorem purges_step_purge (w : Watch) : (w.step .purge).purges = false := by
  cases h : w.purges with
  | true => rw [step_purge_of_purges h, purges_eq_false_iff]
  | false => rw [step_purge_of_not h, h]

theorem markers_resolve (w : Watch) (uid : UInt32) :
    (w.resolve uid).2.1.markers = w.resolver.markers :=
  (reads_resolve w.resolver w.identities uid w.link).markers

theorem purges_step_resolve (w : Watch) (uid : UInt32) :
    (w.step (.resolve uid)).purges = w.purges :=
  Bool.eq_iff_iff.2 (by rw [purges_iff, purges_iff]; exact (markers_resolve w uid).symm ▸ .rfl)

/-! ## Whom the resolver knows -/

/-- What is so at any time. As long as a look for changes would find none, everybody known is known
as the identity source has them. -/
structure Current (admin : Account) (w : Watch) : Prop where
  made : w.identities.Made
  up : w.identities.down = false
  adminIs : w.resolver.admin = admin
  zero : w.resolver.known.get? 0 = some (administrator admin)
  marked : ∃ mark, w.resolver.markers = [mark] ∧ mark ≤ w.identities.changes
  known : w.purges = false → ∀ uid p, uid ≠ 0 → w.resolver.known.get? uid = some p →
    ∃ person, w.identities.userByUid uid = .ok (some person) ∧ p = principalOf admin person

variable {admin : Account}

theorem known_seed {uid : UInt32} {p : Principal} (hne : uid ≠ 0) :
    (seed admin).get? uid ≠ some p := by
  rw [get?_seed, if_neg hne]
  exact Option.some_ne_none p |>.symm

theorem current_start {ids : Identities} (hm : ids.Made) (hup : ids.down = false)
    (account : Account) (visiting : Visiting) (link : Link) :
    Current (account.actingAs account.proxyUser) (start ids account visiting link) where
  made := hm
  up := hup
  adminIs := rfl
  zero := get?_seed _ 0
  marked := ⟨ids.changes, rfl, Nat.le_refl _⟩
  known _ _ _ hne hp := absurd hp (known_seed hne)

theorem Current.purges_change (h : Current admin w) (c : Identities.Change) :
    (w.step (.change c)).purges = true := by
  obtain ⟨mark, hmark, hle⟩ := h.marked
  rw [purges_iff]
  intro he
  have : mark = (w.identities.change c).changes := List.singleton_inj.1 (hmark.symm.trans he)
  rw [Identities.changes_change] at this
  omega

theorem Current.step_change (h : Current admin w) (c : Identities.Change) :
    Current admin (w.step (.change c)) := by
  obtain ⟨mark, hmark, hle⟩ := h.marked
  exact {
    made := h.made.change c
    up := (Identities.down_change _ c).trans h.up
    adminIs := h.adminIs
    zero := h.zero
    marked := ⟨mark, hmark, Nat.le_trans hle ((Identities.changes_change _ c).symm ▸ Nat.le_succ _)⟩
    known := fun hp => absurd (h.purges_change c) (Bool.eq_false_iff.1 hp) }

theorem Current.resolve_zero (h : Current admin w) :
    w.resolve 0 = (.ok (administrator admin), w.resolver, w.link) :=
  resolve_of_known h.zero

theorem Current.step_resolve (h : Current admin w) (uid : UInt32) :
    Current admin (w.step (.resolve uid)) :=
  have hr := reads_resolve w.resolver w.identities uid w.link
  { made := h.made
    up := h.up
    adminIs := hr.admin.trans h.adminIs
    zero := known_resolve h.zero w.identities uid w.link
    marked := hr.markers.symm ▸ h.marked
    known := fun hp uid' p hne hk => by
      rcases hr.known uid' p hk with hk | ⟨person, hperson, rfl⟩
      · exact h.known ((purges_step_resolve w uid).symm.trans hp) uid' p hne hk
      · exact ⟨person, userByUid_of_identify hperson, h.adminIs ▸ rfl⟩ }

theorem Current.step_purge (h : Current admin w) : Current admin (w.step .purge) := by
  cases hp : w.purges with
  | false => exact (step_purge_of_not hp).symm ▸ h
  | true =>
    rw [step_purge_of_purges hp, h.adminIs]
    exact { h with
      adminIs := h.adminIs
      zero := get?_seed admin 0
      marked := ⟨w.identities.changes, rfl, Nat.le_refl _⟩
      known := fun _ uid p hne hk => absurd hk (known_seed hne) }

theorem Current.step (h : Current admin w) (s : Step) : Current admin (w.step s) := by
  cases s with
  | change c => exact h.step_change c
  | resolve uid => exact h.step_resolve uid
  | purge => exact h.step_purge
  | link link => exact { h with }

theorem Current.run (h : Current admin w) (steps : List Step) : Current admin (w.run steps) := by
  induction steps generalizing w with
  | nil => exact h
  | cons s steps ih => exact ih (h.step s)

/-! ## When a look finds a change -/

theorem Current.purges_run (h : Current admin w) (hw : w.purges = true) {steps : List Step}
    (hu : w.Unpurged steps) :
    (w.run steps).purges = true := by
  induction steps generalizing w with
  | nil => exact hw
  | cons s steps ih =>
    obtain ⟨hs, hu⟩ := hu.head
    refine ih (h.step s) ?_ hu
    cases s with
    | change c => exact h.purges_change c
    | resolve uid => exact (purges_step_resolve w uid).trans hw
    | purge => exact absurd (hw.symm.trans (hs rfl)) Bool.false_ne_true.symm
    | link link => exact hw

theorem Current.purges_run_iff (h : Current admin w) (hw : w.purges = false) (steps : List Step) :
    (w.run steps).purges = true ↔
      ∃ earlier c later, steps = earlier ++ .change c :: later ∧
      ((w.run earlier).step (.change c)).Unpurged later := by
  constructor
  · intro hp
    induction steps using List.reverseRecOn with
    | nil => exact absurd (hw.symm.trans hp) Bool.false_ne_true
    | append_singleton steps s ih =>
      rw [run_concat] at hp
      -- A step that is no change leaves what the next look finds to the steps before it.
      have hbefore (hs : s ≠ .purge) (he : ((w.run steps).step s).purges = (w.run steps).purges) :
          ∃ earlier c later, steps ++ [s] = earlier ++ .change c :: later ∧
            ((w.run earlier).step (.change c)).Unpurged later := by
        obtain ⟨earlier, c, later, rfl, hu⟩ := ih (he ▸ hp)
        exact ⟨earlier, c, later ++ [s], by simp, hu.concat hs⟩
      cases s with
      | change c => exact ⟨steps, c, [], rfl, unpurged_nil _⟩
      | resolve uid => exact hbefore nofun (purges_step_resolve _ uid)
      | purge => exact absurd ((purges_step_purge _).symm.trans hp) Bool.false_ne_true
      | link link => exact hbefore nofun rfl
  · rintro ⟨earlier, c, later, rfl, hu⟩
    have hearlier : Current admin (w.run earlier) := h.run earlier
    rw [run_append]
    exact (hearlier.step_change c).purges_run (hearlier.purges_change c) hu

/-! ## Known until a look finds a change -/

theorem known_step {uid : UInt32} {p : Principal} {s : Step}
    (hp : w.resolver.known.get? uid = some p) (hs : s = .purge → w.purges = false) :
    (w.step s).resolver.known.get? uid = some p := by
  cases s with
  | change c => exact hp
  | resolve number => exact known_resolve hp _ number _
  | purge => exact (step_purge_of_not (hs rfl)).symm ▸ hp
  | link link => exact hp

theorem known_run {uid : UInt32} {p : Principal} (hp : w.resolver.known.get? uid = some p)
    {steps : List Step} (hu : w.Unpurged steps) :
    (w.run steps).resolver.known.get? uid = some p := by
  induction steps generalizing w with
  | nil => exact hp
  | cons s steps ih => exact ih (known_step hp hu.head.1) hu.head.2

theorem resolver_of_resolve_error {uid : UInt32} {e : FacadeError}
    (h : (w.resolve uid).1 = .error e) :
    (w.resolve uid).2.1 = w.resolver := by
  rcases resolve_cases w.resolver w.identities uid w.link with ⟨hr, -⟩ | ⟨person, -, ho, -⟩
  · exact hr
  · cases ho.symm.trans h

/-! ## Right after a look -/

/-- Everybody known but the administrator is known as the identity source has them, by a name of
their own, and so are the numbers of every name but the administrator's. -/
structure Fresh (admin : Account) (w : Watch) : Prop where
  known : ∀ uid p, uid ≠ 0 → w.resolver.known.get? uid = some p →
    ∃ person, w.identities.userByUid uid = .ok (some person) ∧
      p = ⟨person.name, person.uid, person.gid, admin.actingAs person.name⟩
  names : ∀ uid uid' p p', uid ≠ 0 → uid' ≠ 0 → w.resolver.known.get? uid = some p →
    w.resolver.known.get? uid' = some p' →
    p.name = p'.name → uid = uid'
  numbers : ∀ name, name ≠ admin.proxyUser → w.resolver.idsForName w.identities name =
    match w.identities.userByName name with
    | .ok (some person) => (person.uid, person.gid)
    | _ => (nobody, nobody)

theorem Current.faithful (h : Current admin w) (ha : admin.actingAs admin.proxyUser = admin)
    (hw : w.purges = false) :
    w.resolver.Faithful w.identities where
  admin := h.adminIs ▸ ha
  known uid p hp := by
    by_cases hzero : uid = 0
    · subst hzero
      exact .inl (h.adminIs ▸ Option.some.inj (hp.symm.trans h.zero))
    · obtain ⟨person, hu, rfl⟩ := h.known hw uid p hzero hp
      exact .inr ⟨person, (Identities.userByUid_eq_some hu).2.1, h.adminIs ▸ rfl⟩

theorem Current.fresh (h : Current admin w) (ha : admin.actingAs admin.proxyUser = admin)
    (hw : w.purges = false) :
    Fresh admin w where
  known := h.known hw
  names uid uid' p p' hne hne' hp hp' he := by
    obtain ⟨person, hu, rfl⟩ := h.known hw uid p hne hp
    obtain ⟨person', hu', rfl⟩ := h.known hw uid' p' hne' hp'
    obtain ⟨-, hm, rfl⟩ := Identities.userByUid_eq_some hu
    obtain ⟨-, hm', rfl⟩ := Identities.userByUid_eq_some hu'
    exact congrArg Person.uid (h.made.eq_of_name hm hm' he)
  numbers name hname := by
    rw [(h.faithful ha hw).idsForName h.made h.up, if_neg (h.adminIs ▸ hname),
      Identities.userByName, Identities.answer, if_neg (Bool.eq_false_iff.1 h.up)]
    cases w.identities.people.find? fun q => decide (q.name = name) <;> rfl

/-- Whatever the order in which bindings change, numbers are looked up and the resolver looks for
changes, and whatever happens on the link: a look finds a change if and only if a binding was
entered or removed since the last one that found one, or since the start; right after any look
nothing is out of date; who has been found is answered without the link until a look finds a change;
a look-up that fails leaves the resolver as it was; and number 0 is the administrator, without the
link. -/
theorem generations_followed {ids : Identities} (hm : ids.Made) (hup : ids.down = false)
    (account : Account) (visiting : Visiting) (link : Link) (steps : List Step) :
    let start := start ids account visiting link
    let w := start.run steps
    (w.purges = true ↔ ∃ earlier c later, steps = earlier ++ .change c :: later ∧
      ((start.run earlier).step (.change c)).Unpurged later) ∧
    Fresh (account.actingAs account.proxyUser) (w.step .purge) ∧
    (∀ uid p later, (w.resolve uid).1 = .ok p → (w.step (.resolve uid)).Unpurged later →
      ((w.step (.resolve uid)).run later).resolve uid =
        (.ok p, ((w.step (.resolve uid)).run later).resolver,
          ((w.step (.resolve uid)).run later).link)) ∧
    (∀ uid e, (w.resolve uid).1 = .error e → (w.resolve uid).2.1 = w.resolver) ∧
    w.resolve 0 = (.ok ⟨account.proxyUser, 0, 0, account.actingAs account.proxyUser⟩,
      w.resolver, w.link) := by
  intro start w
  have hstart : Current _ start := current_start hm hup account visiting link
  have hw : Current _ w := hstart.run steps
  exact ⟨hstart.purges_run_iff (purges_eq_false_iff.2 rfl) steps,
    hw.step_purge.fresh rfl (purges_step_purge w),
    fun uid p later hp hu => resolve_of_known (known_run (known_of_resolve hp) hu),
    fun uid e he => resolver_of_resolve_error he, hw.resolve_zero⟩

def removedPerson : List Step := [.resolve 1000, .change (.removeUser 1000)]

def onePerson : Watch :=
  start (Identities.empty.addUser "alice" 1000 1000)
    ⟨"", 0, "zone", "", "rods", "", "rods", .slash⟩ .asKept
    (.ofServer (.ofStore ((Store.new "zone" "rods").addUser "alice" .regular)))

theorem removed_person_forgotten : onePerson.identities.Made ∧ onePerson.identities.down = false ∧
    (onePerson.run removedPerson).resolver.idsForName
    (onePerson.run removedPerson).identities "alice" = (1000, 1000) ∧
    (onePerson.run removedPerson).purges = true ∧
    ((onePerson.run removedPerson).step .purge).resolver.idsForName
      ((onePerson.run removedPerson).step .purge).identities "alice" = (nobody, nobody) := by
  have hm : onePerson.identities.Made := .addUser .empty "alice" 1000 1000
  obtain ⟨hpurges, hfresh, -⟩ :=
    generations_followed hm rfl
      ⟨"", 0, "zone", "", "rods", "", "rods", .slash⟩ .asKept onePerson.link
      removedPerson
  refine ⟨hm, rfl, by decide +kernel,
    hpurges.2 ⟨[.resolve 1000], .removeUser 1000, [], rfl, unpurged_nil _⟩, ?_⟩
  exact hfresh.numbers "alice" (by decide)

end Watch
end Resolver
end StoreMount
