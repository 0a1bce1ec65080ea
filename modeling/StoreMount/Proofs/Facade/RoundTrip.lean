import StoreMount.Proofs.Facade.Installing
import StoreMount.Proofs.Subjects

/-!
# Writing back what was read

An access list is shown with numbers for names and masks for levels. If the numbers lead back to the
names and the store knows who is named, then what is shown is read as the list that it was made
from, so there is nothing to grant and nothing to revoke when it is written back. That the caller is
looked up first does not matter: who is looked up is found under a number of their own, which is not
the administrator's.
-/
namespace StoreMount

variable {r : Resolver} {ids : Identities} {uid : UInt32} {e : PermissionEntry} {acl : AccessList}
    {path : Path} {o : StoredObject}

/-! ## The numbers of a name -/

/-- The order that starts with a certain principal. -/
def Visiting.startingAt (p : Principal) : Visiting where
  arrange ps := if p ∈ ps then p :: ps.erase p else ps
  perm ps := by
    split
    · next hp => exact (List.perm_cons_erase hp).symm
    · exact .refl _

namespace Resolver

def namesakes (r : Resolver) (name : String) : List Principal :=
  r.known.values.filter fun p => decide (p.name = name)

/-- The numbers that a name other than the administrator's may be shown as. -/
def numbersOf (r : Resolver) (ids : Identities) (name : String) : List UInt32 :=
  if r.namesakes name = [] then
    match ids.userByName name with
    | .ok (some person) => [person.uid]
    | _ => [nobody]
  else (r.namesakes name).map Principal.uid

variable {name : String} {p : Principal}

theorem mem_namesakes : p ∈ r.namesakes name ↔ p ∈ r.known.values ∧ p.name = name := by
  rw [namesakes, List.mem_filter, decide_eq_true_iff]

theorem mem_namesakes_of_cached (h : r.cachedByName name = some p) : p ∈ r.namesakes name := by
  obtain ⟨hname, uid, hp⟩ := cachedByName_eq_some h
  exact mem_namesakes.2 ⟨List.mem_map.2 ⟨_, Table.get?_eq_some_iff.1 hp, rfl⟩, hname⟩

theorem namesakes_of_not_cached (h : r.cachedByName name = none) : r.namesakes name = [] := by
  rw [cachedByName, List.find?_eq_none] at h
  exact List.filter_eq_nil_iff.2 fun p hp => h p ((r.visiting.perm _).symm.subset hp)

theorem numbersOf_of_known (hp : p ∈ r.namesakes name) :
    r.numbersOf ids name = (r.namesakes name).map Principal.uid := if_neg (List.ne_nil_of_mem hp)

theorem numbersOf_of_not_cached (hne : name ≠ r.admin.proxyUser) (h : r.cachedByName name = none) :
    r.numbersOf ids name = [r.uidForName ids name] := by
  rw [numbersOf, if_pos (namesakes_of_not_cached h), uidForName_source hne h]
  rcases ids.userByName name with error | _ | person <;> rfl

theorem uidForName_mem_numbersOf (hne : name ≠ r.admin.proxyUser) :
    r.uidForName ids name ∈ r.numbersOf ids name := by
  cases hc : r.cachedByName name with
  | none =>
    rw [numbersOf_of_not_cached hne hc]
    exact List.mem_singleton_self _
  | some p =>
    have hp := mem_namesakes_of_cached hc
    rw [uidForName_cached hne hc, numbersOf_of_known hp]
    exact List.mem_map_of_mem hp

/-- Each of these numbers is shown if the principals are visited in a suitable order. -/
theorem mem_numbersOf_iff (hne : name ≠ r.admin.proxyUser) {n : UInt32} :
    n ∈ r.numbersOf ids name ↔ ∃ visiting, uidForName { r with visiting } ids name = n := by
  constructor
  · intro hn
    cases hc : r.cachedByName name with
    | none =>
      rw [numbersOf_of_not_cached hne hc] at hn
      exact ⟨r.visiting, (List.mem_singleton.1 hn).symm⟩
    | some q =>
      rw [numbersOf_of_known (mem_namesakes_of_cached hc)] at hn
      obtain ⟨p, hp, rfl⟩ := List.mem_map.1 hn
      obtain ⟨hmem, hname⟩ := mem_namesakes.1 hp
      refine ⟨.startingAt p, uidForName_cached (p := p) hne ?_⟩
      have hfirst : (Visiting.startingAt p).arrange r.known.values =
        p :: r.known.values.erase p := if_pos hmem
      exact (congrArg (List.find? _) hfirst).trans (List.find?_cons_of_pos (decide_eq_true hname))
  · rintro ⟨visiting, rfl⟩
    exact uidForName_mem_numbersOf (r := { r with visiting }) hne

theorem mem_numbersOf_learned (hnone : r.known.get? uid = none) {n : UInt32}
    (h : n ∈ numbersOf { r with known := r.known.insert uid p } ids name) :
    n ∈ r.numbersOf ids name ∨ p.name = name ∧ n = p.uid := by
  have hnew : namesakes { r with known := r.known.insert uid p } name
      = if p.name = name then p :: r.namesakes name else r.namesakes name := by
    have hvalues : (r.known.insert uid p).values = p :: r.known.values := by
      rw [Table.values, Table.insert, dif_neg (Table.get?_eq_none_iff.1 hnone)]
      rfl
    simp only [namesakes, hvalues, List.filter_cons, decide_eq_true_eq]
  by_cases hname : p.name = name
  · rw [if_pos hname] at hnew
    rw [numbersOf, hnew, if_neg (List.cons_ne_nil _ _), List.map_cons] at h
    rcases List.mem_cons.1 h with rfl | h
    · exact .inr ⟨hname, rfl⟩
    · obtain ⟨q, hq, rfl⟩ := List.mem_map.1 h
      exact .inl (numbersOf_of_known hq ▸ List.mem_map_of_mem hq)
  · rw [if_neg hname] at hnew
    rw [numbersOf, hnew] at h
    exact .inl h

end Resolver

/-! ## From entries to the protocol and back -/

namespace AclExchange

/-- Whatever number the subject may be shown as stands for the subject again. -/
def MapsBack (r : Resolver) (ids : Identities) (e : PermissionEntry) : Prop :=
  match e.kind with
  | .individual => e.name = r.admin.proxyUser ∨
      ∀ uid ∈ r.numbersOf ids e.name, uid ≠ 0 ∧ r.nameForUid? ids uid = some e.name
  | .group => Resolver.nameForGid? ids (Resolver.gidForName ids e.name) = some e.name

instance : Decidable (MapsBack r ids e) := by
  unfold MapsBack
  exact match e.kind with
    -- the numbers of a name are gone through, not all there are
    | .individual => @instDecidableOr _ _ inferInstance (List.decidableBAll _ _)
    | .group => inferInstance

theorem MapsBack.nameBack? (h : MapsBack r ids e) : nameBack? r ids e = some e.name := by
  unfold MapsBack at h
  cases hkind : e.kind with
  | group =>
    rw [hkind] at h
    exact (nameBack?_group hkind).trans h
  | individual =>
    rw [hkind] at h
    rw [nameBack?_individual hkind]
    by_cases hproxy : e.name = r.admin.proxyUser
    · simp [Resolver.uidForName, Resolver.idsForName, Resolver.nameForUid?, hproxy]
    · exact (h.resolve_left hproxy _ (Resolver.uidForName_mem_numbersOf hproxy)).2

theorem entries_toAce {v : Link.Stance} (hhidden : v.hidden = [])
    (h : ∀ e ∈ acl, e.zone = v.store.zone ∧
    v.store.users.contains e.name = true ∧ MapsBack r ids e) :
    entries r ids v.find? (acl.map (toAce r ids)) = acl := by
  have hback : ∀ e ∈ acl, entryFor? r ids v.find? (toAce r ids e) = some e := fun e he => by
    obtain ⟨hzone, hknown, hback⟩ := h e he
    obtain ⟨record, hrecord⟩ := Option.isSome_iff_exists.1 hknown
    have hfind : (v.find? e.name).isSome = true := by
      simp [Link.Stance.find?, Store.findUser, hhidden, hrecord]
    exact (entryFor?_toAce_eq_some_iff hzone).2 ⟨e.name, hback.nameBack?, hfind, rfl⟩
  rw [entries, List.filterMap_map]
  exact (List.filterMap_congr hback).trans List.filterMap_some

end AclExchange

/-! ## The caller is looked up -/

namespace Resolver

theorem Arisen.known_zero (h : r.Arisen) : ∃ p, r.known.get? 0 = some p := by
  induction h with
  | new ids account visiting => exact ⟨_, get?_seed _ 0⟩
  | resolve _ ids uid l ih =>
    obtain ⟨p, hp⟩ := ih
    exact ⟨p, known_resolve hp ids uid l⟩
  | @together r _ ids uids l ih =>
    obtain ⟨p, hp⟩ := ih
    exact ⟨p, (known_after r [⟨ids, l, uids⟩] 0 p).2 (.inl hp)⟩
  | purged _ ids ih =>
    unfold purgeIfChanged
    split
    · exact ih
    · exact ⟨_, get?_seed _ 0⟩

end Resolver

theorem AclExchange.MapsBack.learned (h : MapsBack r ids e) (hzero : ∃ p, r.known.get? 0 = some p)
    (hnone : r.known.get? uid = none) {person : Person}
    (hperson : Resolver.identify ids uid = .ok person) :
    MapsBack
      { r with known := r.known.insert uid (Resolver.principalOf r.admin person) } ids e := by
  unfold MapsBack at h ⊢
  cases hkind : e.kind with
  | group => rwa [hkind] at h
  | individual =>
    rw [hkind] at h
    refine h.imp_right fun hback n hn => ?_
    rcases Resolver.mem_numbersOf_learned hnone hn with hn | ⟨hname, rfl⟩
    · exact hback n hn
    · have huid : uid ≠ 0 := fun h => by
        obtain ⟨p, hp⟩ := hzero
        cases (h ▸ hp).symm.trans hnone
      have hnumber : (Resolver.principalOf r.admin person).uid = uid :=
        Resolver.uid_of_identify hperson
      rw [hnumber]
      refine ⟨huid, ?_⟩
      rw [Resolver.nameForUid?, if_neg huid, Resolver.userByUid_of_identify hperson]
      exact congrArg some hname

namespace Facade

variable {f : Facade} {handle : Handle} {x x' : Setting} {user : Principal}

theorem Setting.Resolves.mapsBack (h : x.Resolves uid user x') (hr : x.resolver.Arisen)
    (hback : AclExchange.MapsBack x.resolver x.identities e) :
    AclExchange.MapsBack x'.resolver x'.identities e := by
  cases h with
  | known _ => exact hback
  | loaded hnone h =>
    obtain ⟨person, hperson, -, -, -, rfl⟩ := h
    exact hback.learned hr.known_zero hnone hperson

/-! ## Reading and writing -/

theorem cold_permissions_meets (session : Session) (ho : x.stance.store.object? path = some o)
    (hcold : x.cache.permissions? path = none) :
    Meets setting x (permissions session path) fun entries x' =>
      x.stance.Passes "permissions" path.text ∧ entries = o.acl ∧
      x' = { x with cache := x.cache.putPermissions path o.acl } := by
  refine Meets.bind_get fun f hf => ?_
  rw [show f.cache = x.cache from congrArg Setting.cache hf, hcold]
  exact ((storedPermissions_observes session ho).then_known
    ((changeCache_meets _).bind fun _ _ _ => Meets.of_pure)).congr
    fun entries x' => by simp

theorem shown_meets (session : Session) (ho : x.stance.store.object? path = some o)
    (hcold : x.cache.permissions? path = none) :
    Meets setting x (do
        let entries ← permissions session path
        let f ← get
        return entries.map (AclExchange.toAce f.resolver f.identities)) fun aces x' =>
      x.stance.Passes "permissions" path.text ∧
      aces = o.acl.map (AclExchange.toAce x.resolver x.identities) ∧
        x' = { x with cache := x.cache.putPermissions path o.acl } := by
  refine Meets.congr ((cold_permissions_meets session ho hcold).bind (S := fun entries x₁ aces x' =>
    aces = entries.map (AclExchange.toAce x₁.resolver x₁.identities) ∧ x' = x₁) fun entries x₁ _ =>
      ?_) fun aces x' => ⟨?_, ?_⟩
  · refine Meets.bind_get fun f hf => ?_
    rw [show f.resolver = x₁.resolver from congrArg Setting.resolver hf,
      show f.identities = x₁.identities from congrArg Setting.identities hf]
    exact Meets.of_pure
  · rintro ⟨_, _, ⟨hpasses, rfl, rfl⟩, rfl, rfl⟩
    exact ⟨hpasses, rfl, rfl⟩
  · rintro ⟨hpasses, rfl, rfl⟩
    exact ⟨_, _, ⟨hpasses, rfl, rfl⟩, rfl, rfl⟩

theorem getAcl_meets (uid : UInt32) (hp : x.registry.pathOf? handle = some path)
    (ho : x.stance.store.object? path = some o) (hcold : x.cache.permissions? path = none) :
    Meets setting x (getAcl uid handle) fun aces x' => ∃ user x₁,
      x.Resolves uid user x₁ ∧ x₁.stance.Admits user.account ∧
      x₁.stance.Passes "permissions" path.text ∧
        aces = o.acl.map (AclExchange.toAce x₁.resolver x₁.identities) ∧
        x' = { x₁ with cache := x₁.cache.putPermissions path o.acl } := by
  refine Meets.congr ((resolve_meets uid).bind
    (S := fun user x₁ aces x' => x₁.stance.Admits user.account ∧ _ ∧ _ ∧ _)
    fun user x₁ hx₁ => ?_) fun aces x' => Iff.rfl
  have hpath : Observes setting x₁ (pathOf handle) fun path' => True ∧ path' = path :=
    (pathOf_observes handle).congr fun path' => by simp [hx₁.akin.registry, hp, eq_comm]
  refine (hpath.then_known
    (during_meets fun session _ => shown_meets session (hx₁.stance ▸ ho) (hx₁.cache ▸ hcold))).congr
    fun aces x' => iff_of_eq (true_and _)

theorem Setting.exists_profile (hfaults : x.stance.faults = []) (name : String) :
    ∃ profile z, x.Profiles name profile z := by
  have hpasses := Link.Stance.passes_of_nil hfaults
  cases hremembered : x.cache.userProfile? name with
  | some profile => exact ⟨profile, x, .remembered hremembered⟩
  | none => exact ⟨_, _, .found hremembered ⟨hpasses _ _, fun _ => hpasses _ _⟩ rfl⟩

theorem Setting.stance_replaced_self (ho : x.stance.store.object? path = some o) :
    (x.replaced path o o.acl).stance = x.stance := by
  change (x.withAcl path (AclChange.replaced o.acl o.acl o.owner)
    (askedFor path (.between o.acl o.acl o.owner))).stance = _
  rw [AclChange.replaced_self, AclChange.between_self]
  exact congrArg Setting.stance (Setting.withAcl_self ho)

section Back
variable {aces : List Ace} (hfaults : x.stance.faults = [])
    (hknown : x.resolver.known.get? uid = some user)
  (hp : x.registry.pathOf? handle = some path) (ho : x.stance.store.object? path = some o)
  (hadmits : x.stance.Admits user.account) (hproxy : x.stance.Admits x.resolver.admin)
  (hincoming : x.incoming aces = o.acl)
include hfaults hknown hp ho hadmits hproxy hincoming

theorem Setting.sets_back : ∃ profile z z', x.Sets uid handle aces user x path profile z o z' ∧
      z'.stance = x.stance := by
  obtain ⟨profile, z, hz⟩ := Setting.exists_profile hfaults user.name
  have hpasses : ∀ method subject, z.stance.Passes method subject :=
    hz.stance ▸ Link.Stance.passes_of_nil hfaults
  have hback : z.incoming aces = o.acl := hz.akin.incoming.trans hincoming
  have hthere : z.stance.store.object? path = some o := hz.stance ▸ ho
  have hgoes : Goes z.stance (z.editor user profile path) path o.acl
      (.between o.acl (z.incoming aces) o.owner) := by
    rw [hback, AclChange.between_self]
    exact ⟨trivial, trivial⟩
  refine ⟨profile, z, _, ⟨.known hknown, hp, ⟨hadmits, hz, fun _ => ?_⟩, hthere,
    ⟨hpasses _ _, hpasses _ _, fun _ _ _ _ => hpasses _ _⟩, hgoes, rfl⟩, ?_⟩
  · exact hz.akin.admin ▸ hz.akin.admits hproxy
  · rw [hback, Setting.stance_replaced_self hthere, hz.stance]

theorem setAcl_back (hf : f.setting = x) :
    (setAcl uid handle aces f).1 = .ok () ∧
      (setAcl uid handle aces f).2.link.stance = x.stance := by
  by_cases hne : aces = []
  · rw [hne]
    exact ⟨rfl, congrArg Setting.stance hf⟩
  · obtain ⟨profile, z, z', hsets, hz'⟩ :=
      Setting.sets_back hfaults hknown hp ho hadmits hproxy hincoming
    obtain ⟨hok, hafter⟩ := (setAcl_meets hne uid handle f hf () z').2 ⟨_, _, _, _, _, _, hsets⟩
    exact ⟨hok, (congrArg Setting.stance hafter).trans hz'⟩

end Back

theorem admits_proxy {s : Store} {account admin : Account}
    (hproxy : account.proxyUser = admin.proxyUser) (hself : admin.clientUser = admin.proxyUser)
    (h : s.admits account = .ok ()) : s.admits admin = .ok () := by
  have hadmin : s.isAdmin admin.proxyUser = true := hproxy ▸ (Store.admits_iff.1 h).1
  refine Store.admits_iff.2 ⟨hadmin, hself ▸ ?_⟩
  unfold Store.isAdmin at hadmin
  cases hrecord : s.users.get? admin.proxyUser with
  | none => rw [hrecord] at hadmin; cases hadmin
  | some record => simp [Table.contains, hrecord]

section
variable (hl : f.link.Serves f.link.store) (huser : (resolve uid f).1 = .ok user)
  (hp : f.registry.pathOf? handle = some path)
include hl huser hp

theorem getAcl_refused {e : StoreError} (hadmits : f.link.store.admits user.account = .error e) :
    (getAcl uid handle f).1 = .error (.ofStore e) := by
  have hget : Gives (· = f) (getAcl uid handle) (.error (.ofStore e))
      (Holds (f.resolved uid) fun _ => True) :=
    (resolve_reaches hl trivial huser).bind_ok
      ((pathOf_gives_ok hp).bind_ok (during_gives_error hadmits))
  exact (hget f rfl).1

end

end Facade
end StoreMount
