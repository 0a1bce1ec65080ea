import StoreMount.Proofs.Link.Stance
import StoreMount.Proofs.Resolver.Following

/-!
# Whom an entry names, there and back

An entry of the store is shown with a number for its subject, and what is shown is read by looking
the number up. On the way there the administrator comes first, then those who are known, then the
identity source; on the way back only the administrator and the source. Kind and level stay what
they are. So does the name, or nothing comes back, unless somebody else stands behind the number:
the administrator behind number 0, which the source has given to another name as well; a successor,
to whom the source has given the number of somebody who is still known; or whoever the source has
under the number that is reserved for names it does not have.
-/
namespace StoreMount

variable {r : Resolver} {ids : Identities} {e : PermissionEntry} {name : String} {uid : UInt32}

/-! ## Numbers and names -/

namespace Resolver

theorem nobody_ne_zero : nobody ≠ 0 := by decide

theorem nameForUid?_zero : r.nameForUid? ids 0 = some r.admin.proxyUser := if_pos rfl

theorem nameForUid?_eq_some_iff (hne : uid ≠ 0) : r.nameForUid? ids uid = some name ↔
    ∃ person, ids.userByUid uid = .ok (some person) ∧ person.name = name := by
  rw [nameForUid?, if_neg hne]
  rcases ids.userByUid uid with error | _ | person <;> simp

theorem nameForGid?_eq_some_iff {gid : UInt32} : nameForGid? ids gid = some name ↔
    ∃ group, ids.groupByGid gid = .ok (some group) ∧ group.name = name := by
  unfold nameForGid?
  rcases ids.groupByGid gid with error | _ | group <;> simp

theorem uidForName_cached {p : Principal} (hne : name ≠ r.admin.proxyUser)
    (h : r.cachedByName name = some p) :
    r.uidForName ids name = p.uid := by
  rw [uidForName, idsForName, if_neg hne, h]

theorem uidForName_source (hne : name ≠ r.admin.proxyUser) (h : r.cachedByName name = none) :
    r.uidForName ids name = match ids.userByName name with
      | .ok (some person) => person.uid
      | _ => nobody := by
  rw [uidForName, idsForName, if_neg hne, h]
  rcases ids.userByName name with error | _ | person <;> rfl

theorem Abreast.cached (h : Abreast r ids) (hne : name ≠ r.admin.proxyUser) {p : Principal}
    (hp : r.cachedByName name = some p) : p.uid ≠ 0 ∧
      (r.markers = ids.markers → ∃ person ∈ ids.people,
        person.uid = p.uid ∧ person.name = name) := by
  obtain ⟨rfl, uid, hknown⟩ := cachedByName_eq_some hp
  obtain rfl := h.numbered uid p hknown
  have hzero : p.uid ≠ 0 := fun hz => by
    rw [hz, h.zero] at hknown
    exact hne (congrArg Principal.name (Option.some.inj hknown)).symm
  refine ⟨hzero, fun he => ?_⟩
  obtain ⟨person, hmem, huid, hperson⟩ := h.known he p.uid p hzero hknown
  exact ⟨person, hmem, huid, (congrArg Principal.name hperson).symm⟩

end Resolver

namespace AclExchange

/-! ## What comes back -/

/-- The name behind the number that the subject is shown as. -/
def nameBack? (r : Resolver) (ids : Identities) (e : PermissionEntry) : Option String :=
  match e.kind with
  | .individual => r.nameForUid? ids (r.uidForName ids e.name)
  | .group => Resolver.nameForGid? ids (Resolver.gidForName ids e.name)

theorem nameBack?_individual (hkind : e.kind = .individual) :
    nameBack? r ids e = r.nameForUid? ids (r.uidForName ids e.name) := by
  rw [nameBack?, hkind]

theorem nameBack?_group (hkind : e.kind = .group) :
    nameBack? r ids e = Resolver.nameForGid? ids (Resolver.gidForName ids e.name) := by
  rw [nameBack?, hkind]

/-- What the entry is read as after it has been shown. -/
def readBack (r : Resolver) (ids : Identities) (session : Session) (e : PermissionEntry)
    (l : Link) :
    Except StoreError (Option PermissionEntry) :=
  (toEntry r ids session (toAce r ids e) l).1

theorem isGroup_toAce (r : Resolver) (ids : Identities) (e : PermissionEntry) :
    (toAce r ids e).isGroup = decide (e.kind = .group) := by
  unfold toAce Ace.isGroup
  cases e.kind <;> simp [AceFlags.none, AceFlags.identifierGroup]

theorem subjectKind_toAce (r : Resolver) (ids : Identities) (e : PermissionEntry) :
    (toAce r ids e).subjectKind = e.kind := by
  rw [Ace.subjectKind, isGroup_toAce]
  cases e.kind <;> rfl

theorem subjectName?_toAce (r : Resolver) (ids : Identities) (e : PermissionEntry) :
    subjectName? r ids (toAce r ids e) = nameBack? r ids e := by
  rw [subjectName?, isGroup_toAce, toAce, nameBack?]
  cases e.kind <;> simp [Text.Decimal.read32?_render32]

theorem request?_toAce (r : Resolver) (ids : Identities) (e : PermissionEntry) :
    request? r ids (toAce r ids e) = (nameBack? r ids e).map fun name => (name, e.level) := by
  have hshown : (toAce r ids e).type = .allow ∧ (toAce r ids e).mask = .ofLevel e.level := by
    unfold toAce
    cases e.kind <;> exact ⟨rfl, rfl⟩
  rw [request?, hshown.1, if_pos rfl, subjectName?_toAce, hshown.2, Mask.level?_ofLevel]
  cases nameBack? r ids e <;> rfl

section Reading
variable {v : Link.Stance} {found : PermissionEntry}

theorem entryFor?_toAce_eq_some_iff (hzone : e.zone = v.store.zone) :
    entryFor? r ids v.find? (toAce r ids e) = some found ↔
    ∃ name, nameBack? r ids e = some name ∧ (v.find? name).isSome = true ∧
      found = { e with name } := by
  have hread : ∀ {name user}, v.find? name = some user →
      (⟨user.name, e.kind, user.zone, e.level⟩ : PermissionEntry) = { e with name } := fun h => by
    obtain ⟨-, hname, hz⟩ := Link.Stance.find?_eq_some h
    rw [hname, hz, ← hzone]
  rw [entryFor?, request?_toAce, subjectKind_toAce]
  cases nameBack? r ids e with
  | none => simp
  | some name =>
    cases hfind : v.find? name with
    | none => simp [hfind]
    | some user =>
      rw [Option.map_some, Option.bind_some, hfind, Option.map_some, hread hfind]
      constructor
      · rintro ⟨⟩
        exact ⟨name, rfl, by simp [hfind], rfl⟩
      · rintro ⟨_, ⟨⟩, -, rfl⟩
        rfl

theorem finds_toAce : Finds v r ids (toAce r ids e) ↔ ∀ name, nameBack? r ids e = some name →
      v.Passes "find_user" name := by
  rw [Finds, request?_toAce]
  cases nameBack? r ids e <;> simp

theorem readBack_eq_ok_iff {session : Session} {l : Link} (hzone : e.zone = l.store.zone) :
    readBack r ids session e l = .ok (some found) ↔
      ∃ name, nameBack? r ids e = some name ∧ l.stance.Passes "find_user" name ∧
      (l.stance.find? name).isSome = true ∧
        found = { e with name } := by
  rw [readBack, Meets.ok_iff (toEntry_observes session), finds_toAce]
  constructor
  · rintro ⟨_, ⟨hpasses, hfound⟩, -⟩
    obtain ⟨name, hback, hknown, rfl⟩ := (entryFor?_toAce_eq_some_iff hzone).1 hfound.symm
    exact ⟨name, hback, hpasses name hback, hknown, rfl⟩
  · rintro ⟨name, hback, hpasses, hknown, rfl⟩
    refine ⟨_,
      ⟨fun name' h => ?_, ((entryFor?_toAce_eq_some_iff hzone).2 ⟨name, hback, hknown, rfl⟩).symm⟩,
      rfl⟩
    exact Option.some.inj (hback.symm.trans h) ▸ hpasses

end Reading

/-! ## Whoever stands behind the number -/

/-- Somebody of another name stands behind the number that the subject is shown as. -/
inductive Shadows (r : Resolver) (ids : Identities) (e : PermissionEntry) : String → Prop
  | administrator {person : Person} (hkind : e.kind = .individual)
      (hclient : e.name ≠ r.admin.proxyUser)
      (hunknown : r.cachedByName e.name = none)
      (hsource : ids.userByName e.name = .ok (some person))
      (hzero : person.uid = 0) :
      Shadows r ids e r.admin.proxyUser
  | successor {p : Principal} {person : Person} (hkind : e.kind = .individual)
      (hclient : e.name ≠ r.admin.proxyUser)
      (hknown : r.cachedByName e.name = some p) (hstale : r.markers ≠ ids.markers)
      (hsource : ids.userByUid p.uid = .ok (some person)) (hanother : person.name ≠ e.name) :
        Shadows r ids e person.name
  | nobody {person : Person} (hkind : e.kind = .individual) (hclient : e.name ≠ r.admin.proxyUser)
      (hunknown : r.cachedByName e.name = none) (habsent : ids.userByName e.name = .ok none)
      (hsource : ids.userByUid Resolver.nobody = .ok (some person)) : Shadows r ids e person.name
  | nogroup {group : Group} (hkind : e.kind = .group) (habsent : ids.groupByName e.name = .ok none)
      (hsource : ids.groupByGid Resolver.nobody = .ok (some group)) : Shadows r ids e group.name

namespace Shadows
variable {other : String}

theorem ne_name (hm : ids.Made) (h : Shadows r ids e other) : other ≠ e.name := by
  cases h with
  | administrator _ hclient => exact hclient.symm
  | successor _ _ _ _ _ hanother => exact hanother
  | nobody _ _ _ habsent hsource =>
    rintro he
    have hfound := hm.userByName_of_userByUid hsource
    cases (he ▸ hfound).symm.trans habsent
  | nogroup _ habsent hsource =>
    rintro he
    have hfound := hm.groupByName_of_groupByGid hsource
    cases (he ▸ hfound).symm.trans habsent

theorem nameBack? (h : Resolver.Abreast r ids) (hs : Shadows r ids e other) :
    nameBack? r ids e = some other := by
  cases hs with
  | administrator hkind hclient hunknown hsource hzero =>
    rw [nameBack?_individual hkind, Resolver.uidForName_source hclient hunknown, hsource]
    exact (congrArg (r.nameForUid? ids) hzero).trans Resolver.nameForUid?_zero
  | successor hkind hclient hknown _ hsource _ =>
    rw [nameBack?_individual hkind, Resolver.uidForName_cached hclient hknown]
    exact (Resolver.nameForUid?_eq_some_iff (h.cached hclient hknown).1).2 ⟨_, hsource, rfl⟩
  | nobody hkind hclient hunknown habsent hsource =>
    rw [nameBack?_individual hkind, Resolver.uidForName_source hclient hunknown, habsent]
    exact (Resolver.nameForUid?_eq_some_iff Resolver.nobody_ne_zero).2 ⟨_, hsource, rfl⟩
  | nogroup hkind habsent hsource =>
    rw [nameBack?_group hkind, Resolver.gidForName, habsent]
    exact Resolver.nameForGid?_eq_some_iff.2 ⟨_, hsource, rfl⟩

end Shadows

section Behind
variable {other : String} (h : Resolver.Abreast r ids) (hne : other ≠ e.name)
include h hne

theorem shadows_of_cached {p : Principal} (hkind : e.kind = .individual)
    (hclient : e.name ≠ r.admin.proxyUser) (hknown : r.cachedByName e.name = some p)
    (hback : r.nameForUid? ids p.uid = some other) : Shadows r ids e other := by
  obtain ⟨hzero, hcurrent⟩ := h.cached hclient hknown
  obtain ⟨person, hsource, rfl⟩ := (Resolver.nameForUid?_eq_some_iff hzero).1 hback
  refine .successor hkind hclient hknown (fun he => hne ?_) hsource hne
  obtain ⟨person', hmem, huid, hname⟩ := hcurrent he
  have hsame := h.made.userByUid_of_mem (Identities.userByUid_eq_some hsource).1 hmem
  rw [huid, hsource] at hsame
  cases hsame
  exact hname

theorem shadows_of_source (hkind : e.kind = .individual) (hclient : e.name ≠ r.admin.proxyUser)
    (hunknown : r.cachedByName e.name = none)
    (hback : r.nameForUid? ids (r.uidForName ids e.name) = some other) :
    Shadows r ids e other := by
  rw [Resolver.uidForName_source hclient hunknown] at hback
  rcases hsource : ids.userByName e.name with error | _ | person <;> rw [hsource] at hback
  · obtain ⟨person, hperson, -⟩ :=
      (Resolver.nameForUid?_eq_some_iff Resolver.nobody_ne_zero).1 hback
    cases (Identities.down_of_answer hsource).symm.trans (Identities.userByUid_eq_some hperson).1
  · obtain ⟨person, hperson, rfl⟩ :=
      (Resolver.nameForUid?_eq_some_iff Resolver.nobody_ne_zero).1 hback
    exact .nobody hkind hclient hunknown hsource hperson
  · obtain ⟨hname, hfound⟩ := h.made.userByUid_of_userByName hsource
    by_cases hzero : person.uid = 0
    · have hadmin : r.nameForUid? ids person.uid = some r.admin.proxyUser :=
        hzero ▸ Resolver.nameForUid?_zero
      obtain rfl : r.admin.proxyUser = other := Option.some.inj (hadmin.symm.trans hback)
      exact .administrator hkind hclient hunknown hsource hzero
    · obtain ⟨person', hperson', rfl⟩ := (Resolver.nameForUid?_eq_some_iff hzero).1 hback
      cases hfound.symm.trans hperson'
      exact absurd hname hne

theorem shadows_of_group (hkind : e.kind = .group)
    (hback : Resolver.nameForGid? ids (Resolver.gidForName ids e.name) = some other) :
    Shadows r ids e other := by
  obtain ⟨group, hgroup, rfl⟩ := Resolver.nameForGid?_eq_some_iff.1 hback
  rcases hsource : ids.groupByName e.name with error | _ | group'
    <;> rw [Resolver.gidForName, hsource] at hgroup
  · cases (Identities.down_of_answer hsource).symm.trans
      (Identities.found_eq_some Group.gid hgroup).1
  · exact .nogroup hkind hsource hgroup
  · obtain ⟨hname, hfound⟩ := h.made.groupByGid_of_groupByName hsource
    cases hfound.symm.trans hgroup
    exact absurd hname hne

end Behind

theorem nameBack?_iff_shadows (h : Resolver.Abreast r ids) {other : String} :
    nameBack? r ids e = some other ∧ other ≠ e.name ↔ Shadows r ids e other := by
  refine ⟨fun ⟨hback, hne⟩ => ?_, fun hs => ⟨hs.nameBack? h, hs.ne_name h.made⟩⟩
  cases hkind : e.kind with
  | group => exact shadows_of_group h hne hkind (nameBack?_group hkind ▸ hback)
  | individual =>
    rw [nameBack?_individual hkind] at hback
    by_cases hclient : e.name = r.admin.proxyUser
    · -- The administrator's own number is read as the administrator's name.
      rw [Resolver.uidForName, Resolver.idsForName, if_pos hclient,
        Resolver.nameForUid?_zero] at hback
      exact absurd (Option.some.inj hback).symm (hclient ▸ hne)
    · cases hknown : r.cachedByName e.name with
      | some p =>
        exact shadows_of_cached h hne hkind hclient hknown
          (Resolver.uidForName_cached hclient hknown ▸ hback)
      | none => exact shadows_of_source h hne hkind hclient hknown hback

/-- An entry that is shown and read again is read for its subject, or not at all, or for whoever
stands behind the number; and the last if and only if there is such a one whom the store knows. -/
theorem subject_renamed_iff_shadowed (h : r.Follows ids) (session : Session) (l : Link)
    (hzone : e.zone = l.store.zone) :
    (∀ found, readBack r ids session e l = .ok (some found) →
      found = { e with name := found.name }) ∧
    (∀ other, readBack r ids session e l = .ok (some { e with name := other }) ∧ other ≠ e.name ↔
      Shadows r ids e other ∧ l.stance.Passes "find_user" other ∧
        (l.stance.find? other).isSome = true) ∧
    (l.faults = [] → ∃ found, readBack r ids session e l = .ok found) := by
  refine ⟨fun found hfound => ?_, fun other => ?_, fun hfaults => ?_⟩
  · obtain ⟨name, -, -, -, rfl⟩ := (readBack_eq_ok_iff hzone).1 hfound
    rfl
  · rw [readBack_eq_ok_iff hzone, ← nameBack?_iff_shadows h.abreast]
    constructor
    · rintro ⟨⟨name, hback, hpasses, hknown, he⟩, hne⟩
      obtain rfl : other = name := congrArg PermissionEntry.name he
      exact ⟨⟨hback, hne⟩, hpasses, hknown⟩
    · rintro ⟨⟨hback, hne⟩, hpasses, hknown⟩
      exact ⟨⟨other, hback, hpasses, hknown, rfl⟩, hne⟩
  · have hpasses : Finds l.stance r ids (toAce r ids e) := fun request _ =>
      Link.Stance.passes_of_nil hfaults "find_user" request.1
    exact ⟨_, (Meets.ok_iff (toEntry_observes session)).2 ⟨_, ⟨hpasses, rfl⟩, rfl⟩⟩

def aliceFirst : Identities := Identities.empty.addUser "alice" 1000 1000

def bobSince : Identities := aliceFirst.addUser "bob" 1000 1000

def knowsBoth : Link :=
  .ofServer (.ofStore (((Store.new "zone" "rods").addUser "alice" .regular).addUser "bob" .regular))

def remembersAlice : Resolver :=
  ((Resolver.new aliceFirst ⟨"", 0, "zone", "", "rods", "", "rods", .slash⟩ .asKept).resolve
    aliceFirst 1000 knowsBoth).2.1

theorem aliceFirst_made : aliceFirst.Made := .addUser .empty "alice" 1000 1000

theorem remembersAlice_follows : remembersAlice.Follows bobSince :=
  .changed (.resolved (.new aliceFirst_made _ _) 1000 knowsBoth) (.addUser "bob" 1000 1000)

def readsAlice : PermissionEntry := ⟨"alice", .individual, "zone", .read⟩

theorem successor_inherits_entry :
    readBack remembersAlice bobSince ⟨0, "rods", false⟩ readsAlice knowsBoth =
      .ok (some { readsAlice with name := "bob" }) := by
  have hknown : remembersAlice.cachedByName "alice" =
      some ⟨"alice", 1000, 1000, remembersAlice.admin.actingAs "alice"⟩ := by
    decide +kernel
  have hsource : bobSince.userByUid 1000 = .ok (some ⟨"bob", 1000, 1000⟩) := rfl
  have hshadows : Shadows remembersAlice bobSince readsAlice (⟨"bob", 1000, 1000⟩ : Person).name :=
    .successor rfl (by decide +kernel) hknown (by decide +kernel) hsource (by decide)
  have hzone : readsAlice.zone = knowsBoth.store.zone := by decide +kernel
  obtain ⟨-, hiff, -⟩ :=
    subject_renamed_iff_shadowed remembersAlice_follows ⟨0, "rods", false⟩ knowsBoth hzone
  exact ((hiff "bob").2 ⟨hshadows, Link.Stance.passes_of_nil rfl _ _, by decide +kernel⟩).1

def knowsNobody : Identities := Identities.empty.addUser "nobody" 65534 65534

theorem unmapped_subject_read_as_nobody :
    ¬∀ (r : Resolver) (ids : Identities) (e : PermissionEntry) (session : Session)
    (l : Link) (found : Option PermissionEntry), r.Follows ids → e.zone = l.store.zone →
      readBack r ids session e l = .ok found → found = none ∨ found = some e := by
  intro hclaim
  have hmade : knowsNobody.Made := .addUser .empty "nobody" 65534 65534
  have hrenamed :=
    hclaim (.new knowsNobody ⟨"", 0, "zone", "", "rods", "", "rods", .slash⟩ .asKept) knowsNobody
    ⟨"dave", .individual, "zone", .read⟩ ⟨0, "rods", false⟩
    (.ofServer
      (.ofStore (((Store.new "zone" "rods").addUser "dave" .regular).addUser "nobody" .regular)))
    (some ⟨"nobody", .individual, "zone", .read⟩) (.new hmade _ _) (by decide +kernel)
      (by decide +kernel)
  revert hrenamed
  decide

end AclExchange
end StoreMount
