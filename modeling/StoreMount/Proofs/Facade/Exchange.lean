import StoreMount.Proofs.Facade.Delegation
import StoreMount.Proofs.Link.Stance
import StoreMount.Proofs.Replacement

/-!
# When a change of an access list succeeds

A change of an access list looks at the link's stance, at who the callers are and what is remembered
of them, and at where the handle leads. From these it is said exactly when the change succeeds, and
what is there afterwards: the caller resolves and is admitted, has a profile, comes through the
administrator if privileged, and every step on the way from the old list to the new one is passed by
the faults and permitted to whoever makes it.
-/
namespace StoreMount

variable {α β : Type} {path : Path} {user : String} {acl : AccessList}

/-! ## What is asked about the account -/

namespace Link.Stance

variable {v : Stance} {name : String}

def profile (v : Stance) (name : String) : UserProfile :=
  if v.hidden.contains name then ⟨.regular, []⟩ else v.store.profile name

structure Introduces (v : Stance) (name : String) : Prop where
  finds : v.Passes "find_user" name
  groups : (v.find? name).isSome = true → v.Passes "user_groups" name

theorem profile_of_not_found (v : Stance) (h : v.find? name = none) :
    v.profile name = ⟨.regular, []⟩ := by
  unfold find? Store.findUser at h
  unfold profile Store.profile
  split at h
  · next hidden => rw [if_pos hidden]
  · next hidden => rw [if_neg hidden, Option.map_eq_none_iff.1 h]

theorem profile_of_found (v : Stance) {user : KnownUser} (h : v.find? name = some user) :
    ∃ groups, v.store.userGroups name = .ok groups ∧ v.profile name = ⟨user.type, groups⟩ := by
  unfold find? Store.findUser at h
  unfold profile Store.profile Store.userGroups
  split at h
  · cases h
  · next hidden =>
    obtain ⟨record, hrecord, rfl⟩ := Option.map_eq_some_iff.1 h
    rw [if_neg hidden, hrecord]
    exact ⟨record.groups, rfl, rfl⟩

def withAcl (v : Stance) (path : Path) (acl : AccessList) (asked : List Call) : Stance :=
  { v with store := v.store.withAcl path acl, edits := v.edits ++ asked }

def Permits (v : Stance) (user : String) (path : Path) (method : String)
    (acl : AccessList) : Prop :=
  v.Passes method path.text ∧ v.store.MayEdit user acl

end Link.Stance

def AccessList.Along (may : AccessList → Prop) (step : AccessList → PermissionEntry → AccessList) :
    AccessList → List PermissionEntry → Prop
  | _, [] => True
  | acl, entry :: entries => may acl ∧ Along may step (step acl entry) entries

namespace Facade

/-- What of a facade decides how a change of an access list ends. -/
structure Setting where
  stance : Link.Stance
  identities : Identities
  resolver : Resolver
  allowList : AllowList
  registry : Registry
  cache : Cache

def setting (f : Facade) : Setting :=
  ⟨f.link.stance, f.identities, f.resolver, f.allowList, f.registry, f.cache⟩

variable {x x' : Setting} {session : Session} {uid : UInt32} {handle : Handle} {aces : List Ace}
    {R : α → Setting → Prop}

/-! ## Calls and sessions -/

theorem call_meets {action : LinkM StoreError α} {R : α → Link.Stance → Prop}
    (h : Meets Link.stance x.stance action R) :
    Meets setting x (call action) fun a x' => ∃ v', R a v' ∧ x' = { x with stance := v' } := by
  rintro f rfl a x'
  have h := h f.link rfl a
  simp only [call]
  rcases ha : (action f.link : Except StoreError α × Link) with ⟨e | b, l⟩ <;> rw [ha] at h
  · refine iff_of_false (fun h => by cases h.1) ?_
    rintro ⟨v', hv', -⟩
    cases ((h v').2 hv').1
  · constructor
    · rintro ⟨hb, rfl⟩
      exact ⟨l.stance, (h _).1 ⟨congrArg Except.ok (Except.ok.inj hb), rfl⟩, rfl⟩
    · rintro ⟨v', hv', rfl⟩
      obtain ⟨hb, rfl⟩ := (h v').2 hv'
      exact ⟨congrArg Except.ok (Except.ok.inj hb), rfl⟩

theorem call_observes {action : LinkM StoreError α} {R : α → Prop}
    (h : Observes Link.stance x.stance action R) :
    Observes setting x (call action) R := by
  refine (call_meets h).congr fun a x' => ⟨?_, fun ⟨ha, hx⟩ => ⟨x.stance, ⟨ha, rfl⟩, hx⟩⟩
  rintro ⟨v', ⟨ha, rfl⟩, rfl⟩
  exact ⟨ha, rfl⟩

theorem during_meets {account : Account} {body : Session → FacadeM α}
    (h : ∀ session, session.user = account.clientUser → Meets setting x (body session) R) :
    Meets setting x (during account body) fun a x' => x.stance.Admits account ∧ R a x' := by
  rintro f rfl a x'
  simp only [during, bind_apply, call]
  rcases Link.connect_cases account f.link with ⟨hrefused, e, l', hconnect⟩ |
    ⟨hadmits, session, l', hconnect, huser, hl'⟩
  · rw [hconnect]
    exact iff_of_false (fun h => by cases h.1) fun h => hrefused h.1
  · have hsetting : setting { f with link := l' } = setting f :=
      congrArg (fun v => { setting f with stance := v }) hl'
    rw [hconnect]
    refine Iff.trans ?_ ((h session huser _ hsetting a x').trans (and_iff_right hadmits).symm)
    refine and_congr_right fun _ => iff_of_eq (congrArg (· = x') ?_)
    exact congrArg (fun v => { setting (body session { f with link := l' }).2 with stance := v })
      (Link.stance_close session _)

theorem changeCache_meets (change : Cache → Cache) :
    Meets setting x (changeCache change) fun _ x' => x' = { x with cache := change x.cache } :=
  Meets.of_modify fun _ hf => hf ▸ rfl

theorem pathOf_observes (handle : Handle) :
    Observes setting x (pathOf handle) fun path => x.registry.pathOf? handle = some path := by
  refine Meets.bind_get fun f hf => ?_
  rw [show f.registry = x.registry from congrArg Setting.registry hf]
  cases x.registry.pathOf? handle with
  | none => exact Meets.of_throw.congr fun path x' => by simp
  | some path => exact Meets.of_pure.congr fun path' x' => by simp [eq_comm]

theorem allowListed_observes (user : Principal) (profile : UserProfile) (path : Path) :
    Observes setting x (allowListed user profile path)
      (· = x.allowList.allows user.name profile.groups path) :=
  Observes.bind_get fun f hf => by
    rw [show f.allowList = x.allowList from congrArg Setting.allowList hf]
    exact Observes.of_pure

/-! ## The caller -/

inductive Setting.Profiles (x : Setting) (name : String) (profile : UserProfile) : Setting → Prop
  | remembered (h : x.cache.userProfile? name = some profile) : Profiles x name profile x
  | found (hnone : x.cache.userProfile? name = none) (hpasses : x.stance.Introduces name)
      (h : profile = x.stance.profile name) :
      Profiles x name profile { x with cache := x.cache.putUserProfile name profile }

inductive Setting.Resolves (x : Setting) (uid : UInt32) (user : Principal) : Setting → Prop
  | known (h : x.resolver.known.get? uid = some user) : Resolves x uid user x
  | loaded (hnone : x.resolver.known.get? uid = none)
      (h : Resolver.Loads x.stance x.resolver.admin x.identities uid user) :
      Resolves x uid user { x with
        resolver := { x.resolver with known := x.resolver.known.insert uid user } }

theorem introduced_meets (session : Session) {name : String} {rest : UserProfile → FacadeM α}
    {R : UserProfile → α → Setting → Prop}
    (h : ∀ profile, Meets setting x (rest profile) (R profile)) :
    Meets setting x (match x.stance.find? name with
        | some found => do
          let groups ← call (Link.userGroups session name)
          rest ⟨found.type, groups⟩
        | none => rest ⟨.regular, []⟩)
      fun a x' => ((x.stance.find? name).isSome = true → x.stance.Passes "user_groups" name) ∧
        R (x.stance.profile name) a x' := by
  cases hfind : x.stance.find? name with
  | none => exact (h _).congr fun a x' => by simp [x.stance.profile_of_not_found hfind]
  | some found =>
    obtain ⟨groups, hgroups, hprofile⟩ := x.stance.profile_of_found hfind
    have hasks : Observes Link.stance x.stance (Link.userGroups session name) fun groups' =>
        x.stance.Passes "user_groups" name ∧ groups' = groups :=
      (Link.ask_observes rfl (·.userGroups name)).congr fun groups' => by
        simp [hgroups, Call.method, Call.subject, eq_comm]
    exact ((call_observes hasks).then_known (h _)).congr fun a x' => by simp [hprofile]

theorem userProfile_meets (session : Session) (name : String) :
    Meets setting x (userProfile session name) (x.Profiles name) := by
  have hremember : ∀ profile, Meets setting x (do
      changeCache (·.putUserProfile name profile)
      return profile) fun profile' x' =>
        profile' = profile ∧ x' = { x with cache := x.cache.putUserProfile name profile } :=
    fun profile =>
      ((changeCache_meets _).bind fun _ _ _ => Meets.of_pure).congr fun profile' x' => by simp
  refine Meets.bind_get fun f hf => ?_
  rw [show f.cache = x.cache from congrArg Setting.cache hf]
  cases hremembered : x.cache.userProfile? name with
  | some profile =>
    refine Meets.of_pure.congr fun profile' x' => ⟨?_, fun h => ?_⟩
    · rintro ⟨rfl, rfl⟩
      exact .remembered hremembered
    · cases h with
      | remembered h => exact ⟨Option.some.inj (h.symm.trans hremembered), rfl⟩
      | found hnone => cases hnone.symm.trans hremembered
  | none =>
    refine ((call_observes (Link.findUser_observes name)).then_known (R := fun profile x' =>
      ((x.stance.find? name).isSome = true → x.stance.Passes "user_groups" name) ∧
        profile = x.stance.profile name ∧
        x' = { x with cache := x.cache.putUserProfile name (x.stance.profile name) }) ?_).congr
          fun profile x' => ⟨?_, fun h => ?_⟩
    · exact introduced_meets session hremember
    · rintro ⟨hfinds, hgroups, rfl, rfl⟩
      exact .found hremembered ⟨hfinds, hgroups⟩ rfl
    · cases h with
      | remembered h => cases h.symm.trans hremembered
      | found _ hpasses hprofile => exact ⟨hpasses.finds, hpasses.groups, hprofile, hprofile ▸ rfl⟩

theorem resolve_meets (uid : UInt32) : Meets setting x (resolve uid) (x.Resolves uid) := by
  rintro f rfl user x'
  simp only [resolve, Resolver.resolve]
  cases hknown : f.resolver.known.get? uid with
  | some principal =>
    constructor
    · rintro ⟨huser, rfl⟩
      exact .known (hknown.trans (congrArg some (Except.ok.inj huser)))
    · rintro (h | ⟨hnone, -⟩)
      · exact ⟨congrArg Except.ok (Option.some.inj (hknown.symm.trans h)), rfl⟩
      · cases hnone.symm.trans hknown
  | none =>
    have hload : Observes Link.stance f.link.stance
        (Resolver.load f.resolver.admin f.identities uid) _ :=
      Resolver.load_observes f.resolver.admin
    have hload := hload f.link rfl
    rcases hl : (Resolver.load f.resolver.admin f.identities uid f.link : Except FacadeError
      Principal × Link) with ⟨e | p, l⟩ <;>
      rw [hl] at hload
    · refine iff_of_false (fun h => by cases h.1) ?_
      rintro (h | ⟨-, h⟩)
      · cases h.symm.trans hknown
      · cases ((hload user _).2 ⟨h, rfl⟩).1
    · obtain ⟨hp, hstance⟩ := (hload p _).1 ⟨rfl, rfl⟩
      have hsetting : setting { f with
          resolver := { f.resolver with known := f.resolver.known.insert uid p }, link := l } =
          { setting f with
            resolver := { f.resolver with known := f.resolver.known.insert uid p } } := by
        rw [setting, hstance]
        rfl
      constructor
      · rintro ⟨huser, rfl⟩
        obtain rfl := Except.ok.inj huser
        rw [hsetting]
        exact .loaded hknown hp
      · rintro (h | ⟨-, h⟩)
        · cases h.symm.trans hknown
        · obtain rfl := Except.ok.inj ((hload user _).2 ⟨h, rfl⟩).1
          exact ⟨rfl, hsetting⟩

/-! ## The change -/

variable {o : StoredObject} {asked : List Call}

def Setting.withAcl (x : Setting) (path : Path) (acl : AccessList) (asked : List Call) : Setting :=
  { x with stance := x.stance.withAcl path acl asked }

theorem Setting.withAcl_self (ho : x.stance.store.object? path = some o) :
    x.withAcl path o.acl [] = x := by
  rw [Setting.withAcl, Link.Stance.withAcl, Store.withAcl_self ho, List.append_nil]

theorem edit_meets {c : Call} {action : Store → Except StoreError Store}
    {step : AccessList → AccessList} (hc : c.mutates = true) (hsubject : c.subject = path.text)
    (h : x.stance.store.Edits user path action step) :
    Meets setting (x.withAcl path acl asked) (call (Link.tell session c action)) fun _ x' =>
      x.stance.Permits user path c.method acl ∧ x' = x.withAcl path (step acl) (asked ++ [c]) := by
  have htell : Meets Link.stance (x.withAcl path acl asked).stance (Link.tell session c action) _ :=
    Link.tell_meets hc action
  refine (call_meets htell).congr fun _ x' => ?_
  rw [hsubject]
  by_cases hmay : x.stance.store.MayEdit user acl
  · have hdone : action (x.withAcl path acl asked).stance.store =
      .ok (x.stance.store.withAcl path (step acl)) := h.done hmay
    simp only [hdone]
    constructor
    · rintro ⟨v', ⟨hpasses, s', hs', rfl⟩, rfl⟩
      obtain rfl := Except.ok.inj hs'
      exact ⟨⟨hpasses, hmay⟩, by simp [Setting.withAcl, Link.Stance.withAcl]⟩
    · rintro ⟨⟨hpasses, -⟩, rfl⟩
      exact ⟨_, ⟨hpasses, _, rfl, rfl⟩, by simp [Setting.withAcl, Link.Stance.withAcl]⟩
  · have hdenied : action (x.withAcl path acl asked).stance.store =
      .error (.permissionDenied path) := h.denied hmay
    refine iff_of_false ?_ fun h => hmay h.1.2
    rintro ⟨v', ⟨-, s', hs', -⟩, -⟩
    cases hdenied.symm.trans hs'

theorem forM_meets {method : String} {step : AccessList → PermissionEntry → AccessList}
    (asking : PermissionEntry → Call) {body : PermissionEntry → FacadeM PUnit}
    {entries : List PermissionEntry} (h : ∀ entry ∈ entries, ∀ acl asked,
      Meets setting (x.withAcl path acl asked) (body entry) fun _ x' =>
      x.stance.Permits user path method acl ∧
        x' = x.withAcl path (step acl entry) (asked ++ [asking entry])) :
    Meets setting (x.withAcl path acl asked) (entries.forM body) fun _ x' =>
      AccessList.Along (x.stance.Permits user path method) step acl entries ∧
        x' = x.withAcl path (entries.foldl step acl) (asked ++ entries.map asking) := by
  induction entries generalizing acl asked with
  | nil => exact Meets.of_pure.congr fun _ x' => by simp [AccessList.Along]
  | cons entry entries ih =>
    obtain ⟨hfirst, hrest⟩ := List.forall_mem_cons.1 h
    exact ((hfirst acl asked).then_meets (ih hrest)).congr fun _ x' => by
      simp [AccessList.Along, and_assoc]

/-- All steps of the change go through. -/
def Goes (v : Link.Stance) (user : String) (path : Path) (acl : AccessList)
    (change : AclChange) : Prop :=
  AccessList.Along (v.Permits user path "revoke") .revoke acl change.removed ∧
    AccessList.Along (v.Permits user path "grant") .grant
      (change.removed.foldl .revoke acl) change.added

def askedFor (path : Path) (change : AclChange) : List Call :=
  change.removed.map (.revoke path) ++ change.added.map (.grant path)

theorem applyChange_meets (session : Session) {change : AclChange}
    (ho : x.stance.store.object? path = some o)
    (hknown : ∀ e ∈ change.added, x.stance.store.users.contains e.name = true) :
    Meets setting x (applyChange session path change) fun _ x' =>
      Goes x.stance session.user path o.acl change ∧
      x' = x.withAcl path (o.acl.edit change.removed change.added) (askedFor path change) := by
  have hrevoke : ∀ entry ∈ change.removed, ∀ acl asked, Meets setting (x.withAcl path acl asked)
      (call (Link.revoke session path entry)) _ :=
    fun entry _ acl asked => edit_meets rfl rfl (Store.edits_revoke ho session.user entry)
  have hgrant : ∀ entry ∈ change.added, ∀ acl asked, Meets setting (x.withAcl path acl asked)
      (call (Link.grant session path entry)) _ :=
    fun entry he acl asked =>
      edit_meets rfl rfl (Store.edits_grant ho session.user (hknown entry he))
  have hrevokes : Meets setting (x.withAcl path o.acl []) _ _ := forM_meets (.revoke path) hrevoke
  rw [Setting.withAcl_self ho] at hrevokes
  exact (hrevokes.then_meets (forM_meets (.grant path) hgrant)).congr fun _ x' => by
    simp [Goes, askedFor, AccessList.edit, and_assoc]

/-- What the new list becomes in the store. -/
def Setting.incoming (x : Setting) (aces : List Ace) : List PermissionEntry :=
  AclExchange.entries x.resolver x.identities x.stance.find? aces

structure Setting.Inspects (x : Setting) (path : Path) (aces : List Ace) : Prop where
  stat : x.stance.Passes "stat" path.text
  permissions : x.stance.Passes "permissions" path.text
  finds : ∀ ace ∈ aces, AclExchange.Finds x.stance x.resolver x.identities ace

def Setting.replaced (x : Setting) (path : Path) (o : StoredObject)
    (incoming : List PermissionEntry) : Setting :=
  { x.withAcl path (AclChange.replaced o.acl incoming o.owner)
      (askedFor path (.between o.acl incoming o.owner)) with
    cache := (x.cache.forgetPermissions path).forgetAttributes path }

structure Setting.Replaces (x : Setting) (user : String) (path : Path) (aces : List Ace)
    (o : StoredObject) (x' : Setting) : Prop where
  there : x.stance.store.object? path = some o
  inspects : x.Inspects path aces
  goes : Goes x.stance user path o.acl (.between o.acl (x.incoming aces) o.owner)
  after : x' = x.replaced path o (x.incoming aces)

theorem exchange_meets (session : Session) (ho : x.stance.store.object? path = some o)
    (aces : List Ace) :
    Meets setting x (do
        let f ← get
        let incoming ← call (AclExchange.toEntries f.resolver f.identities session aces)
        applyChange session path (.between o.acl incoming o.owner)
        changeCache (·.forgetPermissions path)
        changeCache (·.forgetAttributes path))
      fun _ x' => (∀ ace ∈ aces, AclExchange.Finds x.stance x.resolver x.identities ace) ∧
        Goes x.stance session.user path o.acl (.between o.acl (x.incoming aces) o.owner) ∧
        x' = x.replaced path o (x.incoming aces) := by
  refine Meets.bind_get fun f hf => ?_
  rw [show f.resolver = x.resolver from congrArg Setting.resolver hf,
    show f.identities = x.identities from congrArg Setting.identities hf]
  have hknown : ∀ e ∈ (AclChange.between o.acl (x.incoming aces) o.owner).added,
      x.stance.store.users.contains e.name = true := fun e he =>
    (AclExchange.known_of_mem_entries (AclChange.mem_added.1 he).1).1
  exact (call_observes (AclExchange.toEntries_observes session aces)).then_known
    ((applyChange_meets session ho hknown).then_meets
    (((changeCache_meets _).bind fun _ x' _ => changeCache_meets _).congr
      fun _ x' => by simp [Setting.replaced, Setting.withAcl, AclChange.replaced]))

theorem storedPermissions_observes (session : Session) (ho : x.stance.store.object? path = some o) :
    Observes setting x (call (Link.permissions session path)) fun current =>
      x.stance.Passes "permissions" path.text ∧ current = o.acl := by
  refine (call_observes (Link.ask_observes rfl (·.permissions path))).congr fun current => ?_
  simp [Store.permissions_eq, ho, Call.method, Call.subject, eq_comm]

theorem replaceAcl_meets (session : Session) (path : Path) (aces : List Ace) :
    Meets setting x (replaceAcl session path aces) fun _ x' =>
      ∃ o, x.Replaces session.user path aces o x' := by
  have hstat : Observes setting x (call (Link.stat session path)) _ :=
    call_observes (Link.stat_observes path)
  rw [Link.Stance.stat, Store.stat_eq] at hstat
  cases ho : x.stance.store.object? path with
  | none =>
    refine (hstat.then_meets (S := fun _ _ _ => False) fun status hstatus => ?_).congr
      fun _ x' => ?_
    · rw [ho] at hstatus
      cases hstatus.2
    · constructor
      · rintro ⟨_, _, h⟩
        exact h.elim
      · rintro ⟨o, h⟩
        cases ho.symm.trans h.there
  | some o =>
    have hpermissions := storedPermissions_observes session ho
    rw [ho] at hstat
    have hstat := hstat.congr fun status =>
      and_congr_right fun _ => by rw [Except.map, Except.ok.injEq, eq_comm]
    refine (hstat.then_known (hpermissions.then_known (exchange_meets session ho aces))).congr
      fun _ x' => ⟨?_, ?_⟩
    · rintro ⟨hstat, hpermissions, hfinds, hgoes, hx⟩
      exact ⟨o, ho, ⟨hstat, hpermissions, hfinds⟩, hgoes, hx⟩
    · rintro ⟨o', ho', ⟨hstat, hpermissions, hfinds⟩, hgoes, hx⟩
      obtain rfl := Option.some.inj (ho.symm.trans ho')
      exact ⟨hstat, hpermissions, hfinds, hgoes, hx⟩

def Setting.byProxy (x : Setting) (user : Principal) (profile : UserProfile) (path : Path) : Bool :=
  (profile.type = .admin || x.allowList.allows user.name profile.groups path) &&
    user.account.clientUser ≠ x.resolver.admin.clientUser

def Setting.editor (x : Setting) (user : Principal) (profile : UserProfile)
    (path : Path) : String :=
  if x.byProxy user profile path then x.resolver.admin.clientUser else user.account.clientUser

theorem changeAclWith_meets {user : Principal} (hsession : session.user = user.account.clientUser)
    (profile : UserProfile) (path : Path) (aces : List Ace) :
    Meets setting x
      (changeAclWith (profile.type = .admin || x.allowList.allows user.name profile.groups path)
        user path aces session)
      fun _ x' => (x.byProxy user profile path = true → x.stance.Admits x.resolver.admin) ∧
        ∃ o, x.Replaces (x.editor user profile path) path aces o x' := by
  refine Meets.bind_get fun f hf => ?_
  rw [show f.resolver = x.resolver from congrArg Setting.resolver hf]
  change Meets setting x (if x.byProxy user profile path = true then _ else _) _
  unfold Setting.editor
  cases x.byProxy user profile path with
  | true =>
    exact (during_meets fun adminSession hadmin =>
        hadmin ▸ replaceAcl_meets adminSession path aces).congr fun _ x' => by simp
  | false => exact (hsession ▸ replaceAcl_meets session path aces).congr fun _ x' => by simp

theorem changeAcl_meets {user : Principal} (hsession : session.user = user.account.clientUser)
    (path : Path) (aces : List Ace) :
    Meets setting x (changeAcl user path aces session) fun _ x' =>
      ∃ profile x₂, x.Profiles user.name profile x₂ ∧
      (x₂.byProxy user profile path = true → x₂.stance.Admits x₂.resolver.admin) ∧
        ∃ o, x₂.Replaces (x₂.editor user profile path) path aces o x' := by
  refine (userProfile_meets session user.name).bind fun profile x₂ _ => ?_
  have hlisted := (allowListed_observes (x := x₂) user profile path).congr fun _ =>
    (iff_of_eq (true_and _)).symm
  exact (hlisted.then_known (changeAclWith_meets hsession profile path aces)).congr fun _ _ =>
    iff_of_eq (true_and _)

structure Setting.Enters (x : Setting) (user : Principal) (profile : UserProfile) (path : Path)
    (x' : Setting) : Prop where
  admits : x.stance.Admits user.account
  profiles : x.Profiles user.name profile x'
  proxy : x'.byProxy user profile path = true → x'.stance.Admits x'.resolver.admin

/-- A change of an access list succeeds like that. -/
structure Setting.Sets (x : Setting) (uid : UInt32) (handle : Handle) (aces : List Ace)
    (user : Principal) (x₁ : Setting) (path : Path) (profile : UserProfile) (x₂ : Setting)
    (o : StoredObject) (x' : Setting) : Prop where
  resolves : x.Resolves uid user x₁
  mapped : x₁.registry.pathOf? handle = some path
  enters : x₁.Enters user profile path x₂
  replaces : x₂.Replaces (x₂.editor user profile path) path aces o x'

theorem setAcl_meets (hne : aces ≠ []) (uid : UInt32) (handle : Handle) :
    Meets setting x (setAcl uid handle aces) fun _ x' => ∃ user x₁ path profile x₂ o,
      x.Sets uid handle aces user x₁ path profile x₂ o x' := by
  rw [setAcl_eq, List.isEmpty_eq_false_iff.2 hne]
  refine Meets.congr ((resolve_meets uid).bind fun user x₁ _ =>
        (pathOf_observes handle).then_meets fun path _ =>
    during_meets fun session hsession => changeAcl_meets hsession path aces) fun _ x' => ⟨?_, ?_⟩
  · rintro ⟨user, x₁, hresolves, path, hmapped, hadmits, profile, x₂, hprofiles,
      hproxy, o, hreplaces⟩
    exact ⟨user, x₁, path, profile, x₂, o, hresolves, hmapped,
      ⟨hadmits, hprofiles, hproxy⟩, hreplaces⟩
  · rintro ⟨user, x₁, path, profile, x₂, o, h⟩
    exact ⟨user, x₁, h.resolves, path, h.mapped, h.enters.admits, profile, x₂, h.enters.profiles,
      h.enters.proxy, o, h.replaces⟩

end Facade
end StoreMount
