import StoreMount.Resolver
import StoreMount.Proofs.Link
import Mathlib.Data.List.Nodup

/-!
# What a resolver knows

An identity source that is made by entering and removing bindings has each name and each number
once, so a name and its number lead to each other. As long as it is not changed, everybody whom a
resolver knows besides the administrator is in it, with the numbers that it shows, so looking more
people up does not change which numbers a name stands for. On a link that nobody interferes with,
the outcome of a look-up is settled by the store.
-/
namespace StoreMount

namespace Identities

inductive Made : Identities → Prop
  | empty : Made .empty
  | host : Made .host
  | addUser {ids : Identities} (h : Made ids) (name : String) (uid gid : UInt32) :
      Made (ids.addUser name uid gid)
  | addGroup {ids : Identities} (h : Made ids) (name : String) (gid : UInt32) :
      Made (ids.addGroup name gid)
  | removeUser {ids : Identities} (h : Made ids) (uid : UInt32) : Made (ids.removeUser uid)
  | turned {ids : Identities} (h : Made ids) (down : Bool) : Made { ids with down }

variable {ids : Identities}

theorem nodup_entered {α κ : Type} {key : α → κ} {l : List α} (hn : (l.map key).Nodup)
    {keep : α → Bool} {a : α} (hnew : ∀ b ∈ l, keep b = true → key b ≠ key a) :
    ((l.filter keep ++ [a]).map key).Nodup := by
  rw [List.map_append, List.map_singleton, List.nodup_append]
  refine ⟨hn.sublist (List.filter_sublist.map _), List.nodup_singleton _, fun x hx y hy => ?_⟩
  obtain ⟨b, hb, rfl⟩ := List.mem_map.1 hx
  obtain ⟨hb, hkept⟩ := List.mem_filter.1 hb
  exact List.mem_singleton.1 hy ▸ hnew b hb hkept

theorem Made.nodup_people (h : ids.Made) {κ : Type} (key : Person → κ)
    (hkey : ∀ p q, key p = key q → p.uid = q.uid ∨ p.name = q.name) :
    (ids.people.map key).Nodup := by
  induction h with
  | empty => exact List.nodup_nil
  | host => exact List.nodup_singleton _
  | addUser _ name uid gid ih =>
    refine nodup_entered ih fun b _ hkept he => ?_
    obtain ⟨huid, hname⟩ := of_decide_eq_true hkept
    exact (hkey _ _ he).elim huid hname
  | addGroup _ name gid ih => exact ih
  | removeUser _ uid ih => exact ih.sublist (List.filter_sublist.map _)
  | turned _ down ih => exact ih

theorem Made.nodup_groups (h : ids.Made) {κ : Type} (key : Group → κ)
    (hkey : ∀ g g', key g = key g' → g.gid = g'.gid ∨ g.name = g'.name) :
    (ids.groups.map key).Nodup := by
  induction h with
  | empty => exact List.nodup_nil
  | host => exact List.nodup_singleton _
  | addUser _ name uid gid ih => exact ih
  | addGroup _ name gid ih =>
    refine nodup_entered ih fun b _ hkept he => ?_
    obtain ⟨hgid, hname⟩ := of_decide_eq_true hkept
    exact (hkey _ _ he).elim hgid hname
  | removeUser _ uid ih => exact ih
  | turned _ down ih => exact ih

theorem find?_key {α κ : Type} [DecidableEq κ] {key : α → κ} {l : List α} (hn : (l.map key).Nodup)
    {a : α} (ha : a ∈ l) :
    l.find? (fun b => decide (key b = key a)) = some a := by
  induction l with
  | nil => cases ha
  | cons b l ih =>
    rw [List.map_cons, List.nodup_cons] at hn
    rcases List.mem_cons.1 ha with rfl | ha
    · simp
    · have hne : key b ≠ key a := fun he => hn.1 (he ▸ List.mem_map_of_mem ha)
      rw [List.find?_cons_of_neg (by simpa using hne), ih hn.2 ha]

theorem Made.find?_name (h : ids.Made) {p : Person} (hp : p ∈ ids.people) :
    ids.people.find? (fun q => decide (q.name = p.name)) = some p :=
  find?_key (h.nodup_people Person.name fun _ _ => .inr) hp

theorem Made.eq_of_name (h : ids.Made) {p q : Person} (hp : p ∈ ids.people) (hq : q ∈ ids.people)
    (he : p.name = q.name) :
    p = q := Option.some.inj ((h.find?_name hp).symm.trans (he ▸ h.find?_name hq))

section Found
variable {α κ κ' : Type} [DecidableEq κ] [DecidableEq κ'] (key : α → κ)
    (key' : α → κ') {l : List α} {a : α}

theorem found_eq_some {k : κ}
    (h : ids.answer (l.find? fun b => decide (key b = k)) = .ok (some a)) :
    ids.down = false ∧ a ∈ l ∧ key a = k := by
  unfold answer at h
  cases hd : ids.down with
  | true => rw [hd] at h; cases h
  | false =>
    have hfind : l.find? (fun b => decide (key b = k)) = some a := by simpa [hd] using h
    exact ⟨rfl, List.mem_of_find?_eq_some hfind,
      of_decide_eq_true (List.find?_some (p := fun b => decide (key b = k)) hfind)⟩

theorem found_of_mem (hup : ids.down = false) (hn : (l.map key).Nodup) (ha : a ∈ l) :
    ids.answer (l.find? fun b => decide (key b = key a)) = .ok (some a) := by
  rw [answer, hup, find?_key hn ha]
  rfl

theorem found_by_other (hn : (l.map key').Nodup) {k : κ}
    (h : ids.answer (l.find? fun b => decide (key b = k)) = .ok (some a)) :
    key a = k ∧ ids.answer (l.find? fun b => decide (key' b = key' a)) = .ok (some a) := by
  obtain ⟨hup, hmem, hkey⟩ := found_eq_some key h
  exact ⟨hkey, found_of_mem key' hup hn hmem⟩

theorem down_of_answer {found : Option α} {error : IdentityError}
    (h : ids.answer found = .error error) : ids.down = true := by
  unfold answer at h
  split at h
  · assumption
  · cases h

end Found

theorem userByUid_eq_some {uid : UInt32} {person : Person}
    (h : ids.userByUid uid = .ok (some person)) :
    ids.down = false ∧ person ∈ ids.people ∧ person.uid = uid := found_eq_some Person.uid h

theorem Made.userByUid_of_mem (h : ids.Made) (hup : ids.down = false) {person : Person}
    (hp : person ∈ ids.people) :
    ids.userByUid person.uid = .ok (some person) :=
  found_of_mem Person.uid hup (h.nodup_people _ fun _ _ => .inl) hp

theorem Made.userByUid_of_userByName (h : ids.Made) {name : String} {person : Person}
    (hp : ids.userByName name = .ok (some person)) :
    person.name = name ∧ ids.userByUid person.uid = .ok (some person) :=
  found_by_other Person.name Person.uid (h.nodup_people _ fun _ _ => .inl) hp

theorem Made.userByName_of_userByUid (h : ids.Made) {uid : UInt32} {person : Person}
    (hp : ids.userByUid uid = .ok (some person)) : ids.userByName person.name = .ok (some person) :=
  (found_by_other Person.uid Person.name (h.nodup_people _ fun _ _ => .inr) hp).2

theorem Made.groupByGid_of_groupByName (h : ids.Made) {name : String} {group : Group}
    (hg : ids.groupByName name = .ok (some group)) :
    group.name = name ∧ ids.groupByGid group.gid = .ok (some group) :=
  found_by_other Group.name Group.gid (h.nodup_groups _ fun _ _ => .inl) hg

theorem Made.groupByName_of_groupByGid (h : ids.Made) {gid : UInt32} {group : Group}
    (hg : ids.groupByGid gid = .ok (some group)) : ids.groupByName group.name = .ok (some group) :=
  (found_by_other Group.gid Group.name (h.nodup_groups _ fun _ _ => .inr) hg).2

end Identities

namespace Resolver

variable {r : Resolver} {ids : Identities} {uid : UInt32}

/-- How a resolver comes about while the identity source stays as it is. -/
inductive Grown (ids : Identities) : Resolver → Prop
  | new (account : Account) (visiting : Visiting) : Grown ids (.new ids account visiting)
  | resolve {r : Resolver} (h : Grown ids r) (uid : UInt32) (l : Link) :
      Grown ids (r.resolve ids uid l).2.1

def principalOf (admin : Account) (person : Person) : Principal :=
  ⟨person.name, person.uid, person.gid, admin.actingAs person.name⟩

structure Faithful (r : Resolver) (ids : Identities) : Prop where
  admin : r.admin.actingAs r.admin.proxyUser = r.admin
  known : ∀ uid p, r.known.get? uid = some p → p = administrator r.admin ∨ ∃ person ∈ ids.people,
    p = principalOf r.admin person

theorem Faithful.account (h : r.Faithful ids) {p : Principal} (hp : r.known.get? uid = some p) :
    p.account = r.admin.actingAs p.name := by
  rcases h.known uid p hp with rfl | ⟨person, -, rfl⟩
  · exact h.admin.symm
  · rfl

theorem userByUid_of_identify {person : Person} (h : identify ids uid = .ok person) :
    ids.userByUid uid = .ok (some person) := by
  unfold identify at h
  split at h
  · next hu => rw [hu, Except.ok.inj h]
  · cases h

theorem identify_eq_ok {person : Person} (h : identify ids uid = .ok person) :
    ids.down = false ∧ person ∈ ids.people := by
  obtain ⟨hup, hp, -⟩ := Identities.userByUid_eq_some (userByUid_of_identify h)
  exact ⟨hup, hp⟩

theorem confirm_triple (admin : Account) (uid : UInt32) (person : Person) (session : Session) :
    Triple (fun _ => True) (confirm admin uid person session)
      (fun p _ => p = principalOf admin person) (fun _ _ => True) := by
  refine Triple.trivial.bind fun found => ?_
  cases found with
  | none => exact Triple.of_throw fun _ _ => trivial
  | some user => exact Triple.of_pure fun _ _ => rfl

theorem load_triple (admin : Account) (ids : Identities) (uid : UInt32) :
    Triple (fun _ => True) (load admin ids uid)
      (fun p _ => ∃ person, identify ids uid = .ok person ∧ p = principalOf admin person)
      (fun _ _ => True) := by
  refine Triple.bind (Triple.of_lift.weaken (fun _ h => h) (fun _ _ h => h) fun _ _ _ => trivial)
    fun person => ?_
  refine Triple.of_known fun hperson => Link.during_answers fun session => ?_
  exact (confirm_triple admin uid person session).weaken (fun _ h => h)
    (fun _ _ h => ⟨person, hperson, h⟩) fun _ _ h => h

theorem resolve_cases (r : Resolver) (ids : Identities) (uid : UInt32) (l : Link) :
    ((r.resolve ids uid l).2.1 = r ∧ ∀ p,
      (r.resolve ids uid l).1 = .ok p → r.known.get? uid = some p) ∨
      ∃ person, identify ids uid = .ok person ∧
      (r.resolve ids uid l).1 = .ok (principalOf r.admin person) ∧
        (r.resolve ids uid l).2.1 =
          { r with known := r.known.insert uid (principalOf r.admin person) } := by
  unfold resolve
  cases hk : r.known.get? uid with
  | some p => exact .inl ⟨rfl, fun q hq => congrArg some (Except.ok.inj hq)⟩
  | none =>
    have hload := load_triple r.admin ids uid l trivial
    rcases hl : (load r.admin ids uid l : Except FacadeError Principal × Link) with ⟨e | p, l'⟩
    · exact .inl ⟨rfl, fun q hq => by cases hq⟩
    · rw [hl] at hload
      obtain ⟨person, hperson, rfl⟩ := hload
      exact .inr ⟨person, hperson, rfl, rfl⟩

structure Reads (ids : Identities) (r r' : Resolver) : Prop where
  admin : r'.admin = r.admin
  markers : r'.markers = r.markers
  known : ∀ u p, r'.known.get? u = some p →
    r.known.get? u = some p ∨ ∃ person, identify ids u = .ok person ∧ p = principalOf r.admin person

theorem reads_resolve (r : Resolver) (ids : Identities) (uid : UInt32) (l : Link) :
    Reads ids r (r.resolve ids uid l).2.1 := by
  rcases resolve_cases r ids uid l with ⟨hr, -⟩ | ⟨person, hperson, -, hr⟩ <;> rw [hr]
  · exact ⟨rfl, rfl, fun _ _ hp => .inl hp⟩
  · refine ⟨rfl, rfl, fun u p hp => ?_⟩
    rw [Table.get?_insert] at hp
    split at hp
    · next hu => exact .inr ⟨person, hu ▸ hperson, (Option.some.inj hp).symm⟩
    · exact .inl hp

theorem admin_resolve (r : Resolver) (ids : Identities) (uid : UInt32) (l : Link) :
    (r.resolve ids uid l).2.1.admin = r.admin :=
  (reads_resolve r ids uid l).admin

theorem Faithful.reads (h : r.Faithful ids) {r' : Resolver} (hr : Reads ids r r') :
    r'.Faithful ids where
  admin := by rw [hr.admin, h.admin]
  known uid p hp := by
    rw [hr.admin]
    rcases hr.known uid p hp with hp | ⟨person, hperson, rfl⟩
    · exact h.known uid p hp
    · exact .inr ⟨person, (identify_eq_ok hperson).2, rfl⟩

theorem Faithful.resolve (h : r.Faithful ids) (uid : UInt32) (l : Link) :
    (r.resolve ids uid l).2.1.Faithful ids :=
  h.reads (reads_resolve r ids uid l)

theorem Faithful.account_resolve (h : r.Faithful ids) {l : Link} {p : Principal}
    (hp : (r.resolve ids uid l).1 = .ok p) :
    p.account = (r.resolve ids uid l).2.1.admin.actingAs p.name := by
  rw [admin_resolve]
  rcases resolve_cases r ids uid l with ⟨-, hknown⟩ | ⟨person, -, hr, -⟩
  · exact h.account (hknown p hp)
  · rw [hr] at hp
    obtain rfl := Except.ok.inj hp
    rfl

theorem get?_seed (admin : Account) (uid : UInt32) :
    (seed admin).get? uid = if uid = 0 then some (administrator admin) else none :=
  Table.get?_insert ..

theorem Grown.faithful (h : r.Grown ids) : r.Faithful ids := by
  induction h with
  | new account visiting =>
    refine ⟨rfl, fun uid p hp => .inl ?_⟩
    obtain ⟨-, hp⟩ := Option.ite_none_right_eq_some.1 ((get?_seed _ uid).symm.trans hp)
    exact (Option.some.inj hp).symm
  | resolve _ uid l ih => exact ih.resolve uid l

/-! ## Numbers of a name -/

theorem cachedByName_eq_some {name : String} {p : Principal} (h : r.cachedByName name = some p) :
    p.name = name ∧ ∃ uid, r.known.get? uid = some p := by
  have hname := List.find?_some (p := fun q : Principal => decide (q.name = name)) h
  obtain ⟨e, he, rfl⟩ := List.mem_map.1 ((r.visiting.perm _).subset (List.mem_of_find?_eq_some h))
  exact ⟨of_decide_eq_true hname, e.1, Table.get?_eq_some_iff.2 he⟩

theorem Faithful.idsForName (h : r.Faithful ids) (hm : ids.Made) (hup : ids.down = false)
    (name : String) :
    r.idsForName ids name = if name = r.admin.proxyUser then (0, 0) else
      match ids.people.find? fun q => decide (q.name = name) with
      | some p => (p.uid, p.gid)
      | none => (nobody, nobody) := by
  unfold Resolver.idsForName
  split
  · rfl
  · next hname =>
    cases hc : r.cachedByName name with
    | none =>
      simp only [Identities.userByName, Identities.answer, hup, Bool.false_eq_true, if_false]
      cases ids.people.find? fun q => decide (q.name = name) <;> rfl
    | some p =>
      obtain ⟨rfl, uid, hp⟩ := cachedByName_eq_some hc
      rcases h.known uid p hp with rfl | ⟨person, hperson, rfl⟩
      · exact absurd rfl hname
      · have hfind : ids.people.find?
            (fun q => decide (q.name = (principalOf r.admin person).name)) = some person :=
          hm.find?_name hperson
        rw [hfind]
        rfl

theorem Faithful.idsForName_resolve (h : r.Faithful ids) (hm : ids.Made) (uid : UInt32) (l : Link)
    (name : String) :
    (r.resolve ids uid l).2.1.idsForName ids name = r.idsForName ids name := by
  rcases resolve_cases r ids uid l with ⟨hr, -⟩ | ⟨person, hperson, -, -⟩
  · rw [hr]
  · obtain ⟨hup, -⟩ := identify_eq_ok hperson
    rw [h.idsForName hm hup, (h.resolve uid l).idsForName hm hup, admin_resolve]

/-! ## Numbers of known principals -/

section Known
variable {l : Link} {p : Principal}

def Numbered (r : Resolver) : Prop := ∀ uid p, r.known.get? uid = some p → p.uid = uid

theorem numbered_seed (admin : Account) (markers : List Nat) (visiting : Visiting) :
    Numbered ⟨admin, seed admin, markers, visiting⟩ := by
  intro uid p hp
  obtain ⟨rfl, hp⟩ := Option.ite_none_right_eq_some.1 ((get?_seed admin uid).symm.trans hp)
  exact Option.some.inj hp ▸ rfl

theorem numbered_new (ids : Identities) (account : Account) (visiting : Visiting) :
    (new ids account visiting).Numbered := numbered_seed _ _ _

theorem uid_of_identify {person : Person} (h : identify ids uid = .ok person) : person.uid = uid :=
  (Identities.userByUid_eq_some (userByUid_of_identify h)).2.2

theorem Numbered.reads (h : r.Numbered) {r' : Resolver} (hr : Reads ids r r') : r'.Numbered :=
    fun uid p hp => by
  rcases hr.known uid p hp with hp | ⟨person, hperson, rfl⟩
  · exact h uid p hp
  · exact uid_of_identify hperson

theorem Numbered.resolve (h : r.Numbered) (ids : Identities) (uid : UInt32) (l : Link) :
    (r.resolve ids uid l).2.1.Numbered :=
  h.reads (reads_resolve r ids uid l)

theorem Numbered.uid_of_resolve (h : r.Numbered) (hp : (r.resolve ids uid l).1 = .ok p) :
    p.uid = uid := by
  rcases resolve_cases r ids uid l with ⟨-, hknown⟩ | ⟨person, hperson, hr, -⟩
  · exact h uid p (hknown p hp)
  · exact Except.ok.inj (hr.symm.trans hp) ▸ uid_of_identify hperson

theorem Numbered.purge (h : r.Numbered) (ids : Identities) : (r.purgeIfChanged ids).2.Numbered := by
  unfold purgeIfChanged
  split
  · exact h
  · exact numbered_seed _ _ _

theorem resolve_of_known (h : r.known.get? uid = some p) : r.resolve ids uid l = (.ok p, r, l) := by
  rw [Resolver.resolve, h]

theorem known_of_resolve (h : (r.resolve ids uid l).1 = .ok p) :
    (r.resolve ids uid l).2.1.known.get? uid = some p := by
  unfold Resolver.resolve at h ⊢
  cases hk : r.known.get? uid with
  | some q =>
    simp only [hk] at h ⊢
    exact congrArg some (Except.ok.inj h)
  | none =>
    simp only [hk] at h ⊢
    rcases hl : (load r.admin ids uid l : Except FacadeError Principal × Link) with ⟨e | q, l'⟩
      <;> rw [hl] at h
    · cases h
    · exact (Table.get?_insert _ _ _ _).trans ((if_pos rfl).trans (congrArg some (Except.ok.inj h)))

theorem known_resolve (h : r.known.get? uid = some p) (ids : Identities)
    (number : UInt32) (l : Link) :
    (r.resolve ids number l).2.1.known.get? uid = some p := by
  unfold Resolver.resolve
  cases hk : r.known.get? number with
  | some q => exact h
  | none =>
    rcases load r.admin ids number l with ⟨e | q, l'⟩
    · exact h
    · refine (Table.get?_insert _ _ _ _).trans ((if_neg ?_).trans h)
      rintro rfl
      cases h.symm.trans hk

end Known

/-! ## Look-ups on a link that nobody interferes with -/

def loaded (s : Store) (admin : Account) (ids : Identities) (uid : UInt32) :
    Except FacadeError Principal :=
  match identify ids uid with
  | .error e => .error e
  | .ok person =>
    match s.admits (admin.actingAs person.name) with
    | .error e => .error (loadError uid e)
    | .ok () =>
      match s.findUser person.name with
      | none => .error (.unknownPrincipal uid)
      | some _ => .ok (principalOf admin person)

theorem load_gives (s : Store) (admin : Account) (ids : Identities) (uid : UInt32) :
    Gives (Link.Serves · s) (load admin ids uid) (loaded s admin ids uid) (Link.Serves · s) := by
  unfold load loaded
  cases hi : identify ids uid with
  | error e => exact Gives.of_lift.bind_error
  | ok person =>
    refine Gives.of_lift.bind_ok ?_
    dsimp only
    cases ha : s.admits (admin.actingAs person.name) with
    | error e => exact Link.during_gives_error ha
    | ok _ =>
      refine Link.during_gives ha fun session _ => ?_
      refine Gives.bind_ok (Link.Gives.failingAs (Link.findUser_gives person.name)) ?_
      dsimp only
      cases s.findUser person.name with
      | none => exact Gives.of_throw
      | some _ => exact Gives.of_pure

variable (r ids uid) in
theorem resolve_serves {l l' : Link} {s : Store} (hl : l.Serves s) (hl' : l'.Serves s) :
    (r.resolve ids uid l).1 = (r.resolve ids uid l').1 ∧
      (r.resolve ids uid l).2.1 = (r.resolve ids uid l').2.1 ∧
      (r.resolve ids uid l).2.2.Serves s ∧ (r.resolve ids uid l').2.2.Serves s := by
  unfold Resolver.resolve
  cases r.known.get? uid with
  | some p => exact ⟨rfl, rfl, hl, hl'⟩
  | none =>
    obtain ⟨ho, hs⟩ := load_gives s r.admin ids uid l hl
    obtain ⟨ho', hs'⟩ := load_gives s r.admin ids uid l' hl'
    rcases h : (load r.admin ids uid l : Except FacadeError Principal × Link) with ⟨x, l₁⟩
    rcases h' : (load r.admin ids uid l' : Except FacadeError Principal × Link) with ⟨x', l₁'⟩
    rw [h] at ho hs
    rw [h'] at ho' hs'
    obtain rfl : x = x' := ho.trans ho'.symm
    cases x <;> exact ⟨rfl, rfl, hs, hs'⟩

end Resolver
end StoreMount
