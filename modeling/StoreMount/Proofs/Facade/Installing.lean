import StoreMount.Proofs.Facade.Exchange

/-!
# What a change of an access list installs

A change that succeeds leaves the list that was asked for, up to the owner's entries, and nothing
else of the store is changed. Made again it meets the same faults, the same accounts and the same
rights, so it succeeds again unless it has something to grant to which the caller is not entitled
any more. It has nothing left to revoke, and nothing left to grant either if no subject was asked
for with two different entries; otherwise one of these takes the place of the other each time.
-/
namespace StoreMount

variable {path p : Path} {o : StoredObject} {acl : AccessList}

namespace Store

variable {s : Store}

def aclAt (s : Store) (path : Path) : AccessList := ((s.object? path).map StoredObject.acl).getD []

theorem same_entries_iff (ho : s.object? path = some o) (acl : AccessList) :
    (∀ p e, e ∈ (s.withAcl path acl).aclAt p ↔ e ∈ s.aclAt p) ↔ ∀ e, e ∈ acl ↔ e ∈ o.acl := by
  have hthere : s.aclAt path = o.acl := by rw [aclAt, ho]; rfl
  have hafter : (s.withAcl path acl).aclAt path = acl := by rw [aclAt, object?_withAcl ho]; rfl
  refine ⟨fun h e => ?_, fun h p e => ?_⟩
  · rw [← hthere, ← h path, hafter]
  · by_cases hplace : p.place = path.place
    · have hsame : ∀ s : Store, s.aclAt p = s.aclAt path :=
        fun s => by rw [aclAt, aclAt, object?, object?, hplace]
      rw [hsame, hsame, hthere, hafter, h e]
    · have hother : (s.withAcl path acl).object? p = s.object? p := by
        rw [object?, withAcl, get?_changeAcl, object?]
        simp [hplace]
      rw [aclAt, aclAt, hother]

theorem admits_iff {account : Account} : s.admits account = .ok () ↔
    s.isAdmin account.proxyUser = true ∧ s.users.contains account.clientUser = true := by
  unfold admits
  cases s.isAdmin account.proxyUser with
  | false => exact iff_of_false (fun h => by cases h) fun h => by cases h.1
  | true =>
    cases s.users.contains account.clientUser with
    | false => exact iff_of_false (fun h => by cases h) fun h => by cases h.2
    | true => exact iff_of_true rfl ⟨rfl, rfl⟩

end Store

namespace AccessList

variable {may : AccessList → Prop} {step : AccessList → PermissionEntry → AccessList}
    {entries : List PermissionEntry}

theorem along_of_forall (h : ∀ acl, may acl) : Along may step acl entries := by
  induction entries generalizing acl with
  | nil => trivial
  | cons entry entries ih => exact ⟨h acl, ih⟩

theorem Along.first (h : Along may step acl entries) (hne : entries ≠ []) : may acl := by
  cases entries with
  | nil => exact absurd rfl hne
  | cons entry entries => exact h.1

end AccessList

namespace Facade

variable {f f₁ f₂ : Facade} {uid : UInt32} {handle : Handle} {aces : List Ace} {session : Session}
  {x x' x₁ x₂ y z : Setting} {user : Principal} {name : String}

namespace Setting

/-! ## Settings that are alike -/

/-- The settings differ at most in who is known, in what is remembered or was asked, and in objects.
-/
structure Akin (x y : Setting) : Prop where
  faults : y.stance.faults = x.stance.faults
  hidden : y.stance.hidden = x.stance.hidden
  zone : y.stance.store.zone = x.stance.store.zone
  users : y.stance.store.users = x.stance.store.users
  identities : y.identities = x.identities
  allowList : y.allowList = x.allowList
  registry : y.registry = x.registry
  admin : y.resolver.admin = x.resolver.admin

namespace Akin

theorem trans (h : x.Akin y) (h' : y.Akin z) : x.Akin z where
  faults := h'.faults.trans h.faults
  hidden := h'.hidden.trans h.hidden
  zone := h'.zone.trans h.zone
  users := h'.users.trans h.users
  identities := h'.identities.trans h.identities
  allowList := h'.allowList.trans h.allowList
  registry := h'.registry.trans h.registry
  admin := h'.admin.trans h.admin

variable (h : x.Akin y)
include h

theorem passes : y.stance.Passes = x.stance.Passes := by
  funext method subject
  rw [Link.Stance.Passes, Link.Stance.Passes, h.faults]

theorem find? : y.stance.find? = x.stance.find? := by
  funext name
  rw [Link.Stance.find?, Link.Stance.find?, Store.findUser, Store.findUser, h.hidden, h.users,
    h.zone]

theorem profile : y.stance.profile name = x.stance.profile name := by
  rw [Link.Stance.profile, Link.Stance.profile, h.hidden, Store.profile_congr h.users]

theorem introduces (hi : x.stance.Introduces name) : y.stance.Introduces name where
  finds := h.passes ▸ hi.finds
  groups hfound := h.passes ▸ hi.groups (h.find? ▸ hfound)

theorem admits {account : Account} (ha : x.stance.Admits account) : y.stance.Admits account where
  passes := h.passes ▸ ha.passes
  admits := (Store.admits_congr h.users account).trans ha.admits

theorem mayEdit : y.stance.store.MayEdit = x.stance.store.MayEdit := by
  funext user acl
  rw [Store.MayEdit, Store.MayEdit, Store.isAdmin, Store.isAdmin, Store.groupsOf, Store.groupsOf,
    h.users]

theorem permits : y.stance.Permits = x.stance.Permits := by
  funext user path method acl
  rw [Link.Stance.Permits, Link.Stance.Permits, h.passes, h.mayEdit]

theorem goes {user : String} {change : AclChange} : Goes y.stance user path acl change ↔
      Goes x.stance user path acl change := by
  rw [Goes, Goes, h.permits]

theorem incoming : y.incoming aces = x.incoming aces := by
  rw [Setting.incoming, Setting.incoming, h.identities, h.find?, AclExchange.entries_congr h.admin]

theorem inspects (hi : x.Inspects path aces) : y.Inspects path aces where
  stat := h.passes ▸ hi.stat
  permissions := h.passes ▸ hi.permissions
  finds ace hace := by
    rw [h.identities, AclExchange.finds_congr h.admin, AclExchange.Finds, h.passes]
    exact hi.finds ace hace

theorem byProxy (profile : UserProfile) :
    y.byProxy user profile path = x.byProxy user profile path := by
  rw [Setting.byProxy, Setting.byProxy, h.allowList, h.admin]

theorem editor (profile : UserProfile) :
    y.editor user profile path = x.editor user profile path := by
  rw [Setting.editor, Setting.editor, h.byProxy, h.admin]

end Akin

variable {profile : UserProfile}

namespace Resolves

theorem stance (h : x.Resolves uid user x') : x'.stance = x.stance := by cases h <;> rfl

theorem cache (h : x.Resolves uid user x') : x'.cache = x.cache := by cases h <;> rfl

theorem akin (h : x.Resolves uid user x') : x.Akin x' := by cases h <;> constructor <;> rfl

theorem known_after (h : x.Resolves uid user x') : x'.resolver.known.get? uid = some user := by
  cases h with
  | known h => exact h
  | loaded _ _ => exact (Table.get?_insert _ _ _ _).trans (if_pos rfl)

end Resolves

namespace Profiles

theorem stance (h : x.Profiles name profile x') : x'.stance = x.stance := by cases h <;> rfl

theorem resolver (h : x.Profiles name profile x') : x'.resolver = x.resolver := by cases h <;> rfl

theorem akin (h : x.Profiles name profile x') : x.Akin x' := by cases h <;> constructor <;> rfl

theorem eq (h : x.Profiles name profile x') :
    profile = (x.cache.userProfile? name).getD (x.stance.profile name) := by
  cases h with
  | remembered h => rw [h, Option.getD_some]
  | found hnone _ h => rw [hnone, Option.getD_none, h]

theorem again (h : x.Profiles name profile x') (hy : x'.Akin y)
    (hcache : y.cache.userProfile? name = x'.cache.userProfile? name) :
    ∃ z, y.Profiles name profile z := by
  cases h with
  | remembered h => exact ⟨y, .remembered (hcache.trans h)⟩
  | found hnone hpasses h =>
    cases hy' : y.cache.userProfile? name with
    | none => exact ⟨_, .found hy' (hy.introduces hpasses) (h.trans hy.profile.symm)⟩
    | some profile' =>
      rcases Cache.fresh_insert (c := x.cache) (hcache.symm.trans hy') with ⟨-, rfl⟩ | hearlier
      · exact ⟨y, .remembered hy'⟩
      · cases hearlier.symm.trans hnone

end Profiles

variable {user' : String}

theorem Replaces.akin (h : x.Replaces user' path aces o x') : x.Akin x' := by
  rw [h.after]
  constructor <;> rfl

namespace Sets

variable (h : x.Sets uid handle aces user x₁ path profile x₂ o x')
include h

theorem akin₂ : x.Akin x₂ := h.resolves.akin.trans h.enters.profiles.akin

theorem akin : x.Akin x' := h.akin₂.trans h.replaces.akin

theorem stance₂ : x₂.stance = x.stance := h.enters.profiles.stance.trans h.resolves.stance

theorem pathOf? : x.registry.pathOf? handle = some path := h.resolves.akin.registry ▸ h.mapped

theorem object? : x.stance.store.object? path = some o := h.stance₂ ▸ h.replaces.there

theorem installs : x'.stance.store =
      x.stance.store.withAcl path (AclChange.replaced o.acl (x.incoming aces) o.owner) := by
  rw [h.replaces.after, h.akin₂.incoming, ← h.stance₂]
  rfl

theorem object?_after : x'.stance.store.object? path =
    some { o with acl := AclChange.replaced o.acl (x.incoming aces) o.owner } := by
  rw [h.installs, Store.object?_withAcl h.object?]

theorem finds : ∀ ace ∈ aces, AclExchange.Finds x.stance x.resolver x.identities ace :=
    fun ace hace => by
  have hfinds := h.replaces.inspects.finds ace hace
  rwa [h.stance₂, h.akin₂.identities, AclExchange.finds_congr h.akin₂.admin] at hfinds

theorem again {o' : StoredObject} (ho' : x'.stance.store.object? path = some o')
    (hgoes : Goes x.stance (x.editor user profile path) path o'.acl
      (.between o'.acl (x.incoming aces) o'.owner)) :
    ∃ z z', x'.Sets uid handle aces user x' path profile z o' z' := by
  have hknown : x'.resolver.known.get? uid = some user := by
    rw [h.replaces.after]
    exact h.enters.profiles.resolver ▸ h.resolves.known_after
  have hafter : x₁.Akin x' := h.enters.profiles.akin.trans h.replaces.akin
  obtain ⟨z, hz⟩ := h.enters.profiles.again h.replaces.akin (by rw [h.replaces.after]; rfl)
  have hxz : x.Akin z := h.akin.trans hz.akin
  have hx₂z : x₂.Akin z := h.replaces.akin.trans hz.akin
  refine ⟨z, _, .known hknown, h.akin.registry.symm ▸ h.pathOf?,
    ⟨hafter.admits h.enters.admits, hz, fun hproxy => ?_⟩, ?_, ?_, ?_, rfl⟩
  · rw [hx₂z.admin]
    exact hx₂z.admits (h.enters.proxy (hx₂z.byProxy _ ▸ hproxy))
  · exact hz.stance ▸ ho'
  · exact hx₂z.inspects h.replaces.inspects
  · rw [hxz.goes, hxz.incoming, hxz.editor]
    exact hgoes

theorem goes_again (hs : o.acl.Separate)
    (hadmin : x.stance.store.isAdmin (x.editor user profile path) = true) :
    Goes x.stance (x.editor user profile path) path
      (AclChange.replaced o.acl (x.incoming aces) o.owner)
      (.between (AclChange.replaced o.acl (x.incoming aces) o.owner)
        (x.incoming aces) o.owner) := by
  rw [Goes, AclChange.removed_again]
  refine ⟨trivial, ?_⟩
  by_cases hnone : (AclChange.between o.acl (x.incoming aces) o.owner).added = []
  · rw [AclChange.added_again_of_none hs hnone]
    trivial
  · -- something has been granted before, so no fault is in the way of another grant
    have hgrants := h.replaces.goes.2
    rw [h.akin₂.incoming] at hgrants
    have hpasses := (hgrants.first hnone).1
    rw [h.akin₂.passes] at hpasses
    exact AccessList.along_of_forall fun acl => ⟨hpasses, .inl hadmin⟩

end Sets

end Setting

/-! ## What is there afterwards -/

variable {incoming : List PermissionEntry}

theorem toEntries_eq_ok_iff :
    (AclExchange.toEntries f.resolver f.identities session aces f.link).1 = .ok incoming ↔
    (∀ ace ∈ aces, AclExchange.Finds f.setting.stance f.resolver f.identities ace) ∧
      incoming = f.setting.incoming aces := by
  have hobserves : Observes Link.stance f.link.stance
      (AclExchange.toEntries f.resolver f.identities session aces) _ :=
    AclExchange.toEntries_observes session aces
  exact (Meets.ok_iff hobserves).trans ⟨fun ⟨_, h, _⟩ => h, fun h => ⟨_, h, rfl⟩⟩

theorem sets_of_ok (hne : aces ≠ []) (h : (setAcl uid handle aces f).1 = .ok ()) :
    ∃ user x₁ path profile x₂ o,
    f.setting.Sets uid handle aces user x₁ path profile x₂ o (setAcl uid handle aces f).2.setting :=
  Meets.holds (setAcl_meets hne uid handle) h

/-- A change that succeeds changes nothing but the list, in which every name but the owner's then
has what was asked for it. The owner has kept entries with level own, and has of what was asked for
what is such an entry or was there before. -/
theorem change_installs_list (hp : f.registry.pathOf? handle = some path)
    (ho : f.link.store.object? path = some o) (hs : o.acl.Separate)
    (hgroup : ∀ e ∈ o.acl, e.name = o.owner → e.kind = .individual) (hne : aces ≠ [])
    (hincoming : (AclExchange.toEntries f.resolver f.identities session aces f.link).1 =
      .ok incoming) (hnames : (incoming.map PermissionEntry.name).Nodup) (hasked : ∀ e ∈ incoming,
      e.name = o.owner → e.kind = .individual) (hok : (setAcl uid handle aces f).1 = .ok ()) :
    ∃ acl, (setAcl uid handle aces f).2.link.store = f.link.store.withAcl path acl ∧
      acl.Separate ∧ ∀ e,
      (e.name ≠ o.owner → (e ∈ acl ↔ e ∈ incoming)) ∧
      (e.name = o.owner →
        (e ∈ acl ↔ e ∈ o.acl ∧ e.level = .own ∨ e ∈ incoming ∧ (e.level = .own ∨ e ∈ o.acl))) := by
  obtain ⟨user, x₁, path', profile, x₂, o', h⟩ := sets_of_ok hne hok
  obtain rfl : path = path' := Option.some.inj (hp.symm.trans h.pathOf?)
  obtain rfl : o = o' := Option.some.inj (ho.symm.trans h.object?)
  obtain ⟨-, rfl⟩ := toEntries_eq_ok_iff.1 hincoming
  refine ⟨_, h.installs, hs.edit _ _, fun e => ⟨fun hne => ?_, fun heq => ?_⟩⟩
  · exact AclChange.mem_replaced_of_ne hnames hs hne
  · exact AclChange.mem_replaced_of_eq hnames hs hgroup hasked heq

/-! The administrator takes from bob, with whom a home is shared, all but level read. -/

def forBob (masks : List Mask) : List Ace := masks.map fun mask => ⟨"bob", .allow, .none, mask⟩

def bobs (level : Level) : PermissionEntry := ⟨"bob", .individual, "z", level⟩

theorem jointStore_shared : ∃ o, jointStore.object? (Store.homeOf "z" "alice") = some o ∧
      o.owner = "alice" ∧
    o.acl = [⟨"alice", .individual, "z", .own⟩, bobs .own] := by
  have hchecks : (jointStore.object? (Store.homeOf "z" "alice")).any (fun o =>
      decide (o.owner = "alice" ∧ o.acl = [⟨"alice", .individual, "z", .own⟩, bobs .own])) =
        true := by decide +kernel
  obtain ⟨o, ho, h⟩ := (Option.any_eq_true _ _).1 hchecks
  exact ⟨o, ho, of_decide_eq_true h⟩

theorem jointMount_for_bob : ∃ f, jointMount = .ok f ∧
      f.registry.pathOf? 1 = some (Store.homeOf "z" "alice") ∧
    (setAcl 0 1 (forBob [.readData]) f).1 = .ok () ∧
    (AclExchange.toEntries f.resolver f.identities ⟨0, "rods", false⟩
      (forBob [.readData]) f.link).1 = .ok [bobs .read] := by
  have hchecks : jointMount.toOption.any
      (fun f => decide (f.registry.pathOf? 1 = some (Store.homeOf "z" "alice") ∧
      (setAcl 0 1 (forBob [.readData]) f).1.toOption = some () ∧
      (AclExchange.toEntries f.resolver f.identities ⟨0, "rods", false⟩
        (forBob [.readData]) f.link).1.toOption =
        some [bobs .read])) = true := by decide +kernel
  obtain ⟨f, hm, hchecks⟩ := exists_of_any hchecks
  obtain ⟨hp, hok, hincoming⟩ := of_decide_eq_true hchecks
  exact ⟨f, hm, hp, eq_ok_of_toOption hok, eq_ok_of_toOption hincoming⟩

theorem share_reduced : ∃ f acl, jointMount = .ok f ∧
    (setAcl 0 1 (forBob [.readData]) f).2.link.store =
      jointStore.withAcl (Store.homeOf "z" "alice") acl ∧
    bobs .read ∈ acl ∧ bobs .own ∉ acl ∧ ⟨"alice", .individual, "z", .own⟩ ∈ acl := by
  obtain ⟨f, hm, hp, hok, hincoming⟩ := jointMount_for_bob
  obtain ⟨-, hstore, -⟩ := jointMount_settled hm
  obtain ⟨o, ho, howner, hacl⟩ := jointStore_shared
  obtain ⟨acl, hafter, -, hmem⟩ :=
    change_installs_list hp (hstore ▸ ho) (jointStore_reachable.separate _ o ho)
    (by rw [hacl, howner]; decide) (by decide) hincoming (by decide) (by rw [howner]; decide) hok
  rw [howner, hacl] at hmem
  refine ⟨f, acl, hm, hstore ▸ hafter, ?_, fun hown => ?_, ?_⟩
  · exact ((hmem (bobs .read)).1 (by decide)).2 (by decide)
  · exact absurd (((hmem (bobs .own)).1 (by decide)).1 hown) (by decide)
  · exact ((hmem _).2 rfl).2 (.inl (by decide))

/-! ## Once more -/

/-- The caller is an administrator of the store, or is privileged by the profile that is remembered
or found over the link. -/
def Trusted (f : Facade) (uid : UInt32) (handle : Handle) : Prop :=
  ∃ user path, (resolve uid f).1 = .ok user ∧ f.registry.pathOf? handle = some path ∧
    let profile := (f.cache.userProfile? user.name).getD (f.link.stance.profile user.name)
    f.link.store.isAdmin user.name = true ∨ profile.type = .admin ∨
      f.allowList.allows user.name profile.groups path = true

theorem isAdmin_editor (hr : f.resolver.Arisen) (htrusted : f.Trusted uid handle)
    {profile : UserProfile} (h : f.setting.Sets uid handle aces user x₁ path profile x₂ o x') :
    f.link.store.isAdmin (f.setting.editor user profile path) = true := by
  obtain ⟨user', path', huser', hp', htrusted⟩ := htrusted
  have huser : (resolve uid f).1 = .ok user := ((resolve_meets uid f rfl user x₁).2 h.resolves).1
  obtain rfl : user = user' := Except.ok.inj (huser.symm.trans huser')
  obtain rfl : path = path' := Option.some.inj (h.pathOf?.symm.trans hp')
  have hprofile : profile = (f.cache.userProfile? user.name).getD
      (f.link.stance.profile user.name) := by
    rw [h.enters.profiles.eq, h.resolves.cache, h.resolves.stance]
    rfl
  have haccount : user.account = f.resolver.admin.actingAs user.name :=
    hr.coherent.account_of_resolve huser
  have hadmin : f.link.store.isAdmin f.resolver.admin.clientUser = true := by
    have hadmits : f.link.store.admits user.account = .ok () :=
      (h.resolves.stance ▸ h.enters.admits).admits
    have hproxy := (Store.admits_iff.1 hadmits).1
    rw [haccount] at hproxy
    rw [hr.coherent.admin]
    exact hproxy
  rw [← hprofile] at htrusted
  rw [Setting.editor]
  split
  · exact hadmin
  · next hown =>
    rcases htrusted with hstore | htrusted
    · rw [haccount]
      exact hstore
    · by_cases hclient : user.account.clientUser = f.resolver.admin.clientUser
      · rw [hclient]
        exact hadmin
      · refine absurd ?_ hown
        rw [Setting.byProxy, Bool.and_eq_true, Bool.or_eq_true, decide_eq_true_eq,
          decide_eq_true_eq]
        exact ⟨htrusted, hclient⟩

section Again
variable {profile : UserProfile} (hne : aces ≠ [])
    (h : f.setting.Sets uid handle aces user x₁ path profile x₂ o f₁.setting)
include hne h

theorem setAcl_again_ok (hgoes : Goes f.link.stance (f.setting.editor user profile path) path
      (AclChange.replaced o.acl (f.setting.incoming aces) o.owner)
      (.between (AclChange.replaced o.acl (f.setting.incoming aces) o.owner)
        (f.setting.incoming aces) o.owner)) :
    (setAcl uid handle aces f₁).1 = .ok () := by
  obtain ⟨z, z', hsets⟩ := h.again h.object?_after hgoes
  exact ((setAcl_meets hne uid handle f₁ rfl () z').2 ⟨_, _, _, _, _, _, hsets⟩).1

theorem store_setAcl_again (hok : (setAcl uid handle aces f₁).1 = .ok ()) :
    (setAcl uid handle aces f₁).2.link.store = f₁.link.store.withAcl path
      (AclChange.replaced (AclChange.replaced o.acl (f.setting.incoming aces) o.owner)
        (f.setting.incoming aces) o.owner) := by
  obtain ⟨user', y₁, path', profile', y₂, o', h'⟩ := sets_of_ok hne hok
  obtain rfl : path = path' := Option.some.inj ((h.akin.registry ▸ h.pathOf?).symm.trans h'.pathOf?)
  obtain rfl := Option.some.inj (h.object?_after.symm.trans h'.object?)
  exact h.akin.incoming ▸ h'.installs

end Again

/-- Whoever changes an access list may make the same change once more, if privileged, and then it
succeeds; and it succeeds and leaves every list as it is exactly if no subject was asked for with
two entries that differ, apart from what is never granted. -/
theorem change_repeats_iff_agreed (hs : f.link.store.Reachable) (hr : f.resolver.Arisen)
    {answer : Except FacadeError Unit} (h₁ : setAcl uid handle aces f = (.ok (), f₁))
    (h₂ : setAcl uid handle aces f₁ = (answer, f₂)) (session : Session) :
    ∃ incoming, (AclExchange.toEntries f.resolver f.identities session aces f.link).1 =
      .ok incoming ∧
      (f.Trusted uid handle → answer = .ok ()) ∧
      ((answer = .ok () ∧ ∀ p e, e ∈ f₂.link.store.aclAt p ↔ e ∈ f₁.link.store.aclAt p) ↔
        ∀ path o, f.registry.pathOf? handle = some path → f.link.store.object? path = some o →
          AclChange.Agreed incoming o.owner) := by
  by_cases hne : aces = []
  · -- nothing is asked for, so nothing is done
    obtain rfl := hne
    obtain ⟨-, rfl⟩ := Prod.mk.inj h₁
    obtain ⟨rfl, rfl⟩ := Prod.mk.inj h₂
    exact ⟨[], rfl, fun _ => rfl, (fun _ _ _ _ _ _ he => nomatch he),
      fun _ => ⟨rfl, fun _ _ => Iff.rfl⟩⟩
  · have hok : (setAcl uid handle aces f).1 = .ok () := congrArg Prod.fst h₁
    obtain ⟨user, x₁, path, profile, x₂, o, h⟩ := sets_of_ok hne hok
    rw [h₁] at h
    obtain ⟨hsecond, rfl⟩ : (setAcl uid handle aces f₁).1 = answer ∧
        (setAcl uid handle aces f₁).2 = f₂ :=
      ⟨congrArg Prod.fst h₂, congrArg Prod.snd h₂⟩
    have hseparate : o.acl.Separate := hs.separate path.place o h.object?
    have hsame (hok₂ : (setAcl uid handle aces f₁).1 = .ok ()) :
        (∀ p e, e ∈ (setAcl uid handle aces f₁).2.link.store.aclAt p ↔ e ∈ f₁.link.store.aclAt p) ↔
          AclChange.Agreed (f.setting.incoming aces) o.owner := by
      rw [store_setAcl_again hne h hok₂]
      exact (Store.same_entries_iff h.object?_after _).trans
        (AclChange.replaced_again_iff hseparate)
    refine ⟨_, toEntries_eq_ok_iff.2 ⟨h.finds, rfl⟩,
      fun htrusted => ?_, fun ⟨hanswer, hkept⟩ path' o' hp' ho' => ?_,
      fun hagreed => ?_⟩
    · exact hsecond.symm.trans
        (setAcl_again_ok hne h (h.goes_again hseparate (isAdmin_editor hr htrusted h)))
    · obtain rfl : path = path' := Option.some.inj (h.pathOf?.symm.trans hp')
      obtain rfl : o = o' := Option.some.inj (h.object?.symm.trans ho')
      exact (hsame (hsecond.trans hanswer)).1 hkept
    · have hagreed := hagreed path o h.pathOf? h.object?
      have hok₂ : (setAcl uid handle aces f₁).1 = .ok () := by
        refine setAcl_again_ok hne h ?_
        rw [Goes, AclChange.removed_again, AclChange.added_again_of_agreed hseparate hagreed]
        exact ⟨trivial, trivial⟩
      exact ⟨hsecond.symm.trans hok₂, (hsame hok₂).2 hagreed⟩

theorem share_stays_reduced : ∃ f f₁ f₂, jointMount = .ok f ∧
      setAcl 0 1 (forBob [.readData]) f = (.ok (), f₁) ∧
    setAcl 0 1 (forBob [.readData]) f₁ = (.ok (), f₂) ∧ ∀ p e, e ∈ f₂.link.store.aclAt p ↔
      e ∈ f₁.link.store.aclAt p := by
  obtain ⟨f, hm, -, hok, hincoming⟩ := jointMount_for_bob
  obtain ⟨-, hstore, hr⟩ := jointMount_settled hm
  obtain ⟨incoming, hincoming', -, hiff⟩ :=
    change_repeats_iff_agreed (hstore ▸ jointStore_reachable) hr (Prod.ext hok rfl)
    (Prod.ext rfl rfl) ⟨0, "rods", false⟩
  obtain rfl := Except.ok.inj (hincoming.symm.trans hincoming')
  have hagreed : ∀ owner, AclChange.Agreed [bobs .read] owner := fun owner e he e' he' _ => by
    rw [List.mem_singleton.1 (AclChange.mem_grantable.1 he).1,
      List.mem_singleton.1 (AclChange.mem_grantable.1 he').1]
  obtain ⟨hagain, hsame⟩ := hiff.2 fun _ o _ _ => hagreed o.owner
  exact ⟨f, _, _, hm, Prod.ext hok rfl, Prod.ext hagain rfl, hsame⟩

theorem levels_take_turns : ¬∀ (f f₁ f₂ : Facade) (uid : UInt32) (handle : Handle) (path : Path)
      (aces : List Ace)
    (answer : Except FacadeError Unit), f.Reachable → f.resolver.Arisen → f.link.store.Reachable →
      f.link.Serves f.link.store → f.registry.pathOf? handle = some path → f.Trusted uid handle →
        setAcl uid handle aces f = (.ok (), f₁) → setAcl uid handle aces f₁ = (answer, f₂) →
          answer = .ok () ∧ ∀ e, e ∈ f₂.link.store.aclAt path ↔ e ∈ f₁.link.store.aclAt path := by
  intro hclaim
  have hchecks : jointMount.toOption.any
      (fun f => decide (f.registry.pathOf? 1 = some (Store.homeOf "z" "alice") ∧
      ((resolve 0 f).1.toOption.map Principal.name = some "rods" ∧
          f.link.store.isAdmin "rods" = true) ∧
      (setAcl 0 1 (forBob [.readData, .writeData]) f).1.toOption = some () ∧
      bobs .write ∈ (setAcl 0 1 (forBob [.readData, .writeData]) f).2.link.store.aclAt
        (Store.homeOf "z" "alice") ∧
      bobs .write ∉ (setAcl 0 1 (forBob [.readData, .writeData])
        (setAcl 0 1 (forBob [.readData, .writeData]) f).2).2.link.store.aclAt
        (Store.homeOf "z" "alice"))) = true := by
    decide +kernel
  obtain ⟨f, hm, hchecks⟩ := exists_of_any hchecks
  obtain ⟨hp, ⟨hname, hadmin⟩, hok, hfirst, hsecond⟩ := of_decide_eq_true hchecks
  obtain ⟨hl, hstore, hr⟩ := jointMount_settled hm
  have htrusted : f.Trusted 0 1 := by
    obtain ⟨user, huser, hname⟩ := Option.map_eq_some_iff.1 hname
    exact ⟨user, _, eq_ok_of_toOption huser, hp, .inl (hname ▸ hadmin)⟩
  obtain ⟨-, hsame⟩ := hclaim f _ _ 0 1 _ (forBob [.readData, .writeData]) _ (.mounted hm) hr
    (hstore ▸ jointStore_reachable) hl hp
    htrusted (Prod.ext (eq_ok_of_toOption hok) rfl) (Prod.ext rfl rfl)
  exact hsecond ((hsame _).2 hfirst)

end Facade
end StoreMount
