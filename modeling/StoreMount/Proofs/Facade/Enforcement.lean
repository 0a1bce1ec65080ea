import StoreMount.Proofs.Decision
import StoreMount.Proofs.Facade.Transparency
import StoreMount.Proofs.Resolver.Accounts
import StoreMount.Proofs.Store.Each
import StoreMount.Proofs.Store.Rights

/-!
# Decisions are what the store enforces

With nothing in the caches and a link that nobody interferes with, the facade allows a regular
account to read, to change data, to delete and to change an access list exactly when the store lets
a session of that account do it, and the mode it shows says the same. It decides from a copy of the
access list and of the account's groups, the store from its own; both come down to the highest level
that the list gives the account and its groups.
-/
namespace StoreMount

variable {α β : Type} {s : Store} {l : Link} {session : Session} {call : Call}

/-! ## Answers of a link that nobody interferes with -/

namespace Link

theorem perform_answer (hl : l.Serves s) (action : Store → Except StoreError (α × Store)) :
    (perform session call action l).1 = (action s).map Prod.fst := by
  cases ha : action s with
  | error e => exact (perform_gives_error ha l hl).1
  | ok a => exact (perform_gives_ok ha l hl).1

theorem perform_ok_iff (hl : l.Serves s) {action : Store → Except StoreError (α × Store)} :
    (∃ a, (perform session call action l).1 = .ok a) ↔ ∃ b, action s = .ok b := by
  rw [perform_answer hl]
  cases action s <;> simp [Except.map]

theorem tell_ok_iff (hl : l.Serves s) {action : Store → Except StoreError Store} :
    (tell session call action l).1 = .ok () ↔ ∃ s', action s = .ok s' := by
  rw [tell, perform_answer hl]
  cases action s <;> simp [Except.map]

theorem tell_error_iff (hl : l.Serves s) {action : Store → Except StoreError Store}
    {e : StoreError} :
    (tell session call action l).1 = .error e ↔ action s = .error e := by
  rw [tell, perform_answer hl]
  cases action s <;> simp [Except.map]

end Link

/-! ## Caches in which nothing is found -/

namespace Cache

/-- Nothing was put in, or all of it is too old. -/
structure Cold (c : Cache) : Prop where
  attributes : ∀ user path, c.attributes? user path = none
  access : ∀ uid mask path, c.access? uid mask path = none
  kinds : ∀ path, c.objectType? path = none
  permissions : ∀ path, c.permissions? path = none
  listings : ∀ user path, c.listing? user path = none
  profiles : ∀ user, c.userProfile? user = none

/-- What is found of kinds, access lists and profiles is what the store has. -/
structure Correct (c : Cache) (s : Store) : Prop where
  kinds : ∀ path kind, c.objectType? path = some kind → ∃ o, s.object? path = some o ∧ o.kind = kind
  permissions : ∀ path entries, c.permissions? path = some entries → ∃ o, s.object? path = some o ∧
    o.acl = entries
  profiles : ∀ user profile, c.userProfile? user = some profile → profile = s.profile user

variable {c : Cache}

theorem cold_new (lifetimes : Lifetimes) : (Cache.new lifetimes).Cold := by
  constructor <;> intros <;> rfl

theorem Cold.correct (h : c.Cold) (s : Store) : c.Correct s where
  kinds path kind hk := by cases (h.kinds path).symm.trans hk
  permissions path entries hp := by cases (h.permissions path).symm.trans hp
  profiles user profile hp := by cases (h.profiles user).symm.trans hp

theorem Correct.putObjectType (h : c.Correct s) {path : Path} {o : StoredObject}
    (ho : s.object? path = some o) :
    (c.putObjectType path o.kind).Correct s where
  kinds path' kind hk := by
    rcases fresh_insert (c := c) hk with ⟨hplace, rfl⟩ | hk
    · exact ⟨o, (congrArg s.objects.get? hplace).trans ho, rfl⟩
    · exact h.kinds path' kind hk
  permissions := h.permissions
  profiles := h.profiles

theorem Correct.putPermissions (h : c.Correct s) {path : Path} {o : StoredObject}
    (ho : s.object? path = some o) :
    (c.putPermissions path o.acl).Correct s where
  kinds := h.kinds
  permissions path' entries hp := by
    rcases fresh_insert (c := c) hp with ⟨hplace, rfl⟩ | hp
    · exact ⟨o, (congrArg s.objects.get? hplace).trans ho, rfl⟩
    · exact h.permissions path' entries hp
  profiles := h.profiles

theorem Correct.putUserProfile (h : c.Correct s) (user : String) :
    (c.putUserProfile user (s.profile user)).Correct s where
  kinds := h.kinds
  permissions := h.permissions
  profiles user' profile hp := by
    rcases fresh_insert (c := c) hp with ⟨rfl, rfl⟩ | hp
    · rfl
    · exact h.profiles user' profile hp

end Cache

namespace Store

theorem groups_profile (s : Store) (name : String) : (s.profile name).groups = s.groupsOf name := by
  rw [profile, groupsOf]
  cases s.users.get? name <;> rfl

theorem isAdmin_profile (s : Store) (name : String) :
    s.isAdmin name = decide ((s.profile name).type = .admin) := by
  rw [profile, isAdmin]
  cases s.users.get? name with
  | none => rfl
  | some r => cases h : r.type <;> simp [h]

end Store

namespace Facade

variable {w : World} {K : Cache → Prop}

theorem informed_correct : Informed w (Cache.Correct · w.store) where
  foundProfile hc := hc.profiles _ _
  foundPermissions hc := hc.permissions _ _
  putUserProfile hc := hc.putUserProfile
  putPermissions hc := hc.putPermissions
  putObjectType hc := hc.putObjectType

/-! ## Deciding -/

/-- What the world decides about an object whose path is not structural. -/
def verdict (w : World) (user : Principal) (path : Path) (o : StoredObject)
    (mask : Mask) : Decision :=
  let profile := w.store.profile user.name
  if o.kind.isCollection && mask.traversalOnly then .allow
  else if mask.attributeOnly &&
    (decide (profile.type = .admin) || w.allowList.allows user.name profile.groups path) then .allow
  else Level.decision (AccessList.levelOf? o.acl user.name profile.groups) mask

variable {user : Principal} {path : Path} {o : StoredObject}

theorem objectKind_gives (session : Session) (ho : w.store.object? path = some o) :
    Gives (Holds w (Cache.Correct · w.store)) (objectKind session path) (.ok o.kind)
      (Holds w (Cache.Correct · w.store)) := by
  refine Gives.bind_get fun f hf => ?_
  split
  · next kind hfound =>
    obtain ⟨o', ho', rfl⟩ := hf.cache.kinds path kind hfound
    obtain rfl := Option.some.inj (ho.symm.trans ho')
    exact Gives.of_pure
  · have hstat := stat_gives (w := w) (K := (Cache.Correct · w.store)) session path
    rw [Store.stat_eq, ho] at hstat
    exact hstat.bind_ok
      (Gives.bind_ok (changeCache_gives fun c hc => hc.putObjectType ho) Gives.of_pure)

theorem mayEditAttributes_gives (hK : Informed w K) (session : Session) (user : Principal)
    (path : Path) :
    Gives (Holds w K) (mayEditAttributes session user path)
      (.ok (decide ((w.store.profile user.name).type = .admin) ||
        w.allowList.allows user.name (w.store.profile user.name).groups path)) (Holds w K) := by
  refine (hK.userProfile_gives session user.name).bind_ok ?_
  split
  · next h => rw [decide_eq_true h, Bool.true_or]; exact Gives.of_pure
  · next h =>
    rw [decide_eq_false h, Bool.false_or]
    exact Gives.bind_get fun f hf =>
      (congrArg World.allowList hf.world : f.allowList = w.allowList) ▸ Gives.of_pure

theorem decideAccess_gives (hadmits : w.store.admits user.account = .ok ())
    (ho : w.store.object? path = some o) (hpath : path.structural w.zone = false) (mask : Mask) :
    Gives (Holds w (Cache.Correct · w.store)) (decideAccess user path mask)
      (.ok (verdict w user path o mask))
      (Holds w (Cache.Correct · w.store)) := by
  refine (structural_gives path).bind_ok ?_
  rw [hpath]
  refine during_gives hadmits fun session _ => ?_
  refine (objectKind_gives session ho).bind_ok ?_
  simp only [verdict]
  split
  · exact Gives.of_pure
  · have hlevel : Gives (Holds w (Cache.Correct · w.store)) (do
        let level ← userLevel session user path
        return Level.decision level mask)
        (.ok (Level.decision
          (AccessList.levelOf? o.acl user.name (w.store.profile user.name).groups) mask))
        (Holds w (Cache.Correct · w.store)) :=
          (informed_correct.userLevel_gives session user ho).bind_ok Gives.of_pure
    cases ha : mask.attributeOnly with
    | false => exact hlevel
    | true =>
      refine (mayEditAttributes_gives informed_correct session user path).bind_ok ?_
      rw [Bool.true_and]
      split
      · exact Gives.of_pure
      · exact hlevel

theorem verdict_allow_iff (hregular : w.store.isAdmin user.name = false)
    {mask : Mask} (ht : mask.traversalOnly = false) (ha : mask.attributeOnly = true →
      w.allowList.allows user.name (w.store.groupsOf user.name) path = false) :
    verdict w user path o mask = .allow ↔ w.store.permits user.name o mask.least = true := by
  have hgroups := w.store.groups_profile user.name
  have htype : decide ((w.store.profile user.name).type = .admin) = false :=
    (w.store.isAdmin_profile user.name).symm.trans hregular
  have hedit : (mask.attributeOnly && (decide ((w.store.profile user.name).type = .admin) ||
      w.allowList.allows user.name (w.store.profile user.name).groups path)) = false := by
    rw [htype, hgroups, Bool.false_or, Bool.and_eq_false_imp]
    exact ha
  rw [Store.permits_of_regular hregular, ← Level.decision_eq_allow_iff, ← hgroups]
  simp only [verdict, ht, hedit, Bool.and_false, Bool.false_eq_true, if_false]

/-! ## What is asked of a facade -/

variable {f : Facade} {uid : UInt32} {handle : Handle}

def resolved (f : Facade) (uid : UInt32) : World :=
  { f.world with resolver := (f.resolver.resolve f.identities uid f.link).2.1 }

theorem resolve_reaches (hl : f.link.Serves f.link.store) (hc : K f.cache)
    (huser : (resolve uid f).1 = .ok user) :
    Gives (· = f) (resolve uid) (.ok user) (Holds (f.resolved uid) K) := by
  rintro f rfl
  obtain ⟨-, -, hl', -⟩ := f.resolver.resolve_serves f.identities uid hl hl
  refine ⟨huser, ?_, hl', hc⟩
  exact congrArg (World.mk · f.registry _ f.identities f.allowList f.options.mountPoint
    f.options.zone
    f.options.allowOverwrite) hl'.store

theorem pathOf_gives_ok (hp : w.registry.pathOf? handle = some path) :
    Gives (Holds w K) (pathOf handle) (.ok path) (Holds w K) := by
  have := pathOf_gives (w := w) (K := K) handle
  rwa [hp] at this

section Asked
variable (hl : f.link.Serves f.link.store) (hc : f.cache.Cold)
    (huser : (resolve uid f).1 = .ok user)
  (hp : f.registry.pathOf? handle = some path) (ho : f.link.store.object? path = some o)
include hl hc huser hp

theorem checkAccess_cold {mask : Mask} {r : Except FacadeError Decision}
    (h : Gives (Holds (f.resolved uid) (Cache.Correct · f.link.store))
      (decideAccess user path mask) r
      (Holds (f.resolved uid) (Cache.Correct · f.link.store))) :
    (checkAccess uid handle mask f).1 = r := by
  have hcheck : Gives (· = f) (checkAccess uid handle mask) r (fun _ => True) := by
    refine (resolve_reaches hl hc huser).bind_ok
      ((pathOf_gives_ok hp).bind_ok (Gives.bind_get fun g hg => ?_))
    rw [hg.cache.access]
    have hdecide : Gives (Holds (f.resolved uid) Cache.Cold) (decideAccess user path mask) r
        (Holds (f.resolved uid) (Cache.Correct · f.link.store)) :=
      fun g hg => h g ⟨hg.world, hg.link, hg.cache.correct _⟩
    cases r with
    | error e => exact fun g hg => ⟨(hdecide.bind_error g hg).1, trivial⟩
    | ok decision =>
      exact hdecide.bind_ok
        (Gives.bind_ok (changeCache_gives (I := fun _ => True) fun _ _ => trivial)
        fun _ _ => ⟨rfl, trivial⟩)
  exact (hcheck f rfl).1

theorem getattr_cold {r : Except FacadeError Attributes}
    (h : Gives (Holds (f.resolved uid) (Cache.Correct · f.link.store))
      (during user.account fun session => fetchAttributes session user handle path) r
      (Holds (f.resolved uid) (Cache.Correct · f.link.store))) : (getattr uid handle f).1 = r := by
  have hget : Gives (· = f) (getattr uid handle) r
      (Holds (f.resolved uid) (Cache.Correct · f.link.store)) := by
    refine (resolve_reaches hl hc huser).bind_ok
      ((pathOf_gives_ok hp).bind_ok (Gives.bind_get fun g hg => ?_))
    rw [hg.cache.attributes]
    exact fun g hg => h g ⟨hg.world, hg.link, hg.cache.correct _⟩
  exact (hget f rfl).1

theorem getattr_refused {e : StoreError} (hadmits : f.link.store.admits user.account = .error e) :
    (getattr uid handle f).1 = .error (.ofStore e) :=
  getattr_cold hl hc huser hp (during_gives_error hadmits)

theorem checkAccess_refused (hpath : path.structural f.options.zone = false) {e : StoreError}
    (hadmits : f.link.store.admits user.account = .error e) (mask : Mask) :
    (checkAccess uid handle mask f).1 = .error (.ofStore e) := by
  refine checkAccess_cold hl hc huser hp ?_
  refine (structural_gives path).bind_ok ?_
  rw [show path.structural (f.resolved uid).zone = false from hpath]
  exact during_gives_error hadmits

include ho

theorem getattr_admitted (hadmits : f.link.store.admits user.account = .ok ()) :
    (getattr uid handle f).1 = .ok ((f.resolved uid).attributes user.name handle path o) := by
  refine getattr_cold hl hc huser hp (during_gives hadmits fun session _ => ?_)
  have hput : ∀ c o, Cache.Correct c (f.resolved uid).store →
      (f.resolved uid).store.object? path = some o →
      (c.putAttributes user.name path ((f.resolved uid).attributes user.name handle path o)).Correct
      (f.resolved uid).store :=
    fun c o hc _ => ⟨hc.kinds, hc.permissions, hc.profiles⟩
  have hfetch := informed_correct.fetchAttributes_gives session hput
  rwa [show (f.resolved uid).store.object? path = some o from ho] at hfetch

theorem checkAccess_admitted (hpath : path.structural f.options.zone = false)
    (hadmits : f.link.store.admits user.account = .ok ()) (mask : Mask) :
    (checkAccess uid handle mask f).1 = .ok (verdict (f.resolved uid) user path o mask) :=
  checkAccess_cold hl hc huser hp (decideAccess_gives (w := f.resolved uid) hadmits ho hpath mask)

end Asked

/-! ## Decision and enforcement -/

def Allows (f : Facade) (uid : UInt32) (handle : Handle) (mask : Mask) : Prop :=
  (checkAccess uid handle mask f).1 = .ok .allow

/-- What the facade answers about an object and what a session of the caller's account may do with
it. -/
structure Enforced (f : Facade) (uid : UInt32) (handle : Handle) (path : Path) (o : StoredObject)
    (listed : Bool) (session : Session) (l : Link) : Prop where
  decided : ∀ mask, ∃ decision, (checkAccess uid handle mask f).1 = .ok decision
  read : o.kind.isCollection = false → ∀ offset count,
    f.Allows uid handle .readData ↔ ∃ bytes, (Link.read session path offset count l).1 = .ok bytes
  list : o.kind.isCollection = true →
    (f.Allows uid handle .readData ↔ ∃ lines, (Link.list session path l).1 = .ok lines)
  write : o.kind.isCollection = false → ∀ mask : Mask, mask.isEmpty = false →
    (Mask.writeData ∪ Mask.appendData).contains mask = true → ∀ offset bytes,
      offset + bytes.length ≤ Store.maxObjectSize →
        (f.Allows uid handle mask ↔ ∃ count, (Link.write session path offset bytes l).1 = .ok count)
  create : o.kind.isCollection = true → ∀ mask : Mask, mask.isEmpty = false →
    (Mask.writeData ∪ Mask.appendData).contains mask = true → ∀ child : Path,
      child.place.parent? = some path.place → l.store.object? child = none →
        (f.Allows uid handle mask ↔ (Link.createCollection session child l).1 = .ok ()) ∧
        ∀ overwrite, f.Allows uid handle mask ↔
        (Link.createDataObject session child overwrite l).1 = .ok ()
  remove : f.Allows uid handle .delete ↔
      ∀ q, (Link.remove session path l).1 ≠ .error (.permissionDenied q)
  grant : listed = false → ∀ entry,
    f.Allows uid handle .writeAcl ↔
      ∀ q, (Link.grant session path entry l).1 ≠ .error (.permissionDenied q)
  shown : ∃ attributes, (getattr uid handle f).1 = .ok attributes ∧
    (attributes.mode &&& 0o400 ≠ 0 ↔ f.Allows uid handle .readData) ∧
    (attributes.mode &&& 0o200 ≠ 0 ↔ f.Allows uid handle .writeData)

theorem mode_iff (bit : UInt32) {level : Level} (hregular : w.store.isAdmin user.name = false)
    (hpath : path.structural w.zone = false)
    (h : ∀ held : Option Level, modeOf o.kind false held &&& bit ≠ 0 ↔
      (held.any fun l => decide (level ≤ l)) = true) :
    (w.attributes user.name handle path o).mode &&& bit ≠ 0 ↔
      w.store.permits user.name o level = true := by
  rw [Store.permits_of_regular hregular, ← w.store.groups_profile, ← h]
  simp only [World.attributes, Attributes.ofStatus, Store.statusOf, hpath, Bool.false_eq_true,
    if_false]

theorem Enforced.of_permits {s : Store} {listed : Bool} {session : Session}
    {l : Link} (hl : l.Serves s) (ho : s.object? path = some o) (hdecided : ∀ mask,
      ∃ decision, (checkAccess uid handle mask f).1 = .ok decision) (hallow : ∀ mask : Mask,
      mask.traversalOnly = false → (mask.attributeOnly = true → listed = false) →
      (f.Allows uid handle mask ↔ s.permits session.user o mask.least = true))
    (hshown : ∃ attributes, (getattr uid handle f).1 = .ok attributes ∧
      (attributes.mode &&& 0o400 ≠ 0 ↔ s.permits session.user o .read = true) ∧
      (attributes.mode &&& 0o200 ≠ 0 ↔ s.permits session.user o .write = true)) :
    f.Enforced uid handle path o listed session l := by
  have hread : f.Allows uid handle .readData ↔ s.permits session.user o .read = true :=
    hallow .readData (by decide) fun h => absurd h (by decide)
  have hchange : ∀ mask : Mask, mask.isEmpty = false →
      (Mask.writeData ∪ Mask.appendData).contains mask = true →
      (f.Allows uid handle mask ↔ s.permits session.user o .write = true) := by
    intro mask hne hdata
    rcases Mask.changesData_cases hne hdata with rfl | rfl | rfl <;>
      exact hallow _ (by decide) fun h => absurd h (by decide)
  refine ⟨hdecided, fun hk offset count => ?_, fun hk => ?_,
    fun hk mask hne hdata offset bytes hsize => ?_,
    fun hk mask hne hdata child hup hnew => ⟨?_, fun overwrite => ?_⟩, ?_, fun hedit entry => ?_,
    ?_⟩
  · rw [hread, ← Store.read_ok_iff ho hk offset count, Link.read, (Link.ask_gives _ l hl).1]
  · rw [hread, ← Store.list_ok_iff ho hk, Link.list, (Link.ask_gives _ l hl).1]
  · rw [hchange mask hne hdata, ← Store.write_ok_iff ho hk hsize, Link.write,
      Link.perform_ok_iff hl]
  · rw [hchange mask hne hdata, ← Store.createCollection_ok_iff ho hk hup (hl.store ▸ hnew),
      Link.createCollection, Link.tell_ok_iff hl]
  · rw [hchange mask hne hdata, ← Store.createDataObject_ok_iff ho hk hup
      (hl.store ▸ hnew) overwrite,
      Link.createDataObject, Link.tell_ok_iff hl]
  · have hremove := hallow .delete (by decide) fun h => absurd h (by decide)
    have hdenied := Store.remove_denied_iff ho session.user
    rw [hremove, ← not_exists]
    simp only [Link.remove, Link.tell_error_iff hl, hdenied, Bool.not_eq_false]
    exact Iff.rfl
  · have hgrant := hallow .writeAcl (by decide) fun _ => hedit
    have hdenied := Store.grant_denied_iff ho session.user entry
    rw [hgrant, ← not_exists]
    simp only [Link.grant, Link.tell_error_iff hl, hdenied, Bool.not_eq_false]
    exact Iff.rfl
  · obtain ⟨attributes, ha, hr, hw⟩ := hshown
    exact ⟨attributes, ha, hr.trans hread.symm,
      hw.trans (hchange .writeData (by decide) (by decide)).symm⟩

/-- In a reachable store, with cold caches, over a link that nobody interferes with and whatever the
resolver has gone through: if somebody who is no administrator asks about an existing object whose
path is not structural, then nothing is decided and no mode is shown if the account gets no session;
and if it gets one, a mask is allowed exactly when the session may do what the mask stands for. -/
theorem decisions_enforced {f : Facade} {uid : UInt32} {handle : Handle} {user : Principal}
    {path : Path} {o : StoredObject} (hs : f.link.store.Reachable) (hl : f.link.Serves f.link.store)
    (hr : f.resolver.Arisen) (hc : f.cache.Cold) (huser : (resolve uid f).1 = .ok user)
    (hregular : f.link.store.isAdmin user.account.clientUser = false)
    (hp : f.registry.pathOf? handle = some path) (ho : f.link.store.object? path = some o)
    (hpath : path.structural f.options.zone = false) :
    (∀ e, (Link.connect user.account f.link).1 = .error e →
      (getattr uid handle f).1 = .error (.ofStore e) ∧
      ∀ mask, (checkAccess uid handle mask f).1 = .error (.ofStore e)) ∧
    ∀ session l, Link.connect user.account f.link = (.ok session, l) → f.Enforced uid handle path o
      (f.allowList.allows user.name (f.link.store.groupsOf user.name) path) session l := by
  have hname : user.account.clientUser = user.name := hr.coherent.clientUser_of_resolve huser
  have hregular : (f.resolved uid).store.isAdmin user.name = false := hname ▸ hregular
  cases hadmits : f.link.store.admits user.account with
  | error e =>
    have hrefused := (Link.connect_gives_error hadmits f.link hl).1
    refine ⟨fun e' he' => ?_, fun session l hconnect => ?_⟩
    · cases hrefused.symm.trans he'
      exact ⟨getattr_refused hl hc huser hp hadmits,
        checkAccess_refused hl hc huser hp hpath hadmits⟩
    · cases hrefused.symm.trans (congrArg Prod.fst hconnect)
  | ok _ =>
    obtain ⟨session', l', hopened, hsession, hl'⟩ := Link.connect_ok hadmits hl
    refine ⟨fun e he => ?_, fun session l hconnect => ?_⟩
    · cases (congrArg Prod.fst hopened).symm.trans he
    · obtain ⟨rfl, rfl⟩ : session = session' ∧ l = l' := by
        have := hconnect.symm.trans hopened
        exact ⟨Except.ok.inj (Prod.mk.inj this).1, (Prod.mk.inj this).2⟩
      have hcheck := checkAccess_admitted hl hc huser hp ho hpath hadmits
      have hkind : o.kind ≠ .syntheticCollection := hs.entered path.place o ho
      have hsame : session.user = user.name := hsession.trans hname
      refine .of_permits hl' ho (fun mask => ⟨_, hcheck mask⟩) (fun mask ht ha => ?_)
        ⟨_, getattr_admitted hl hc huser hp ho hadmits, ?_, ?_⟩
      · have hverdict := verdict_allow_iff (o := o) hregular ht ha
        rw [Allows, hcheck, hsame]
        exact ⟨fun h => hverdict.1 (Except.ok.inj h), fun h => congrArg _ (hverdict.2 h)⟩
      · rw [hsame]
        exact mode_iff 0o400 hregular hpath (modeOf_read_iff hkind)
      · rw [hsame]
        exact mode_iff 0o200 hregular hpath (modeOf_write_iff hkind)

def sharedStore : Store := (Store.new "z" "rods").addUser "alice" .regular

def homeMount : Except FacadeError Facade :=
  let people := Identities.empty.addUser "alice" 1000 1000
  (mount (.ofServer (.ofStore sharedStore)) people (.new people sampleAccount .asKept)
    (.new sampleAccount "k")
    ⟨Store.homeOf "z" "alice", "z", true, .default⟩).1

theorem home_open_as_decided : ∃ f session l, homeMount = .ok f ∧
    Link.connect (sampleAccount.actingAs "alice") f.link = (.ok session, l) ∧
      f.Allows 1000 1 .writeData ∧
    (Link.createCollection session ⟨"/z/home/alice/x"⟩ l).1 = .ok () := by
  have hchecks : homeMount.toOption.any (fun f =>
      decide ((resolve 1000 f).1.toOption =
          some ⟨"alice", 1000, 1000, sampleAccount.actingAs "alice"⟩) &&
      decide (f.registry.pathOf? 1 = some (Store.homeOf "z" "alice")) &&
      decide ((checkAccess 1000 1 .writeData f).1.toOption = some .allow)) = true := by
        decide +kernel
  have hhome : (sharedStore.object? (Store.homeOf "z" "alice")).any (·.kind.isCollection) =
    true := by decide +kernel
  have hnew : sharedStore.object? ⟨"/z/home/alice/x"⟩ = none := by decide +kernel
  have hregular : sharedStore.isAdmin "alice" = false := by decide +kernel
  have hadmits : sharedStore.admits (sampleAccount.actingAs "alice") = .ok () := by decide +kernel
  have hreachable : sharedStore.Reachable := .step (.addUser "alice" .regular) (.new "z" "rods") rfl
  cases hm : homeMount with
  | error e => rw [hm] at hchecks; cases hchecks
  | ok f =>
    rw [hm, show (Except.ok f : Except FacadeError Facade).toOption = some f from rfl] at hchecks
    simp only [Option.any_some, Bool.and_eq_true, decide_eq_true_eq] at hchecks
    obtain ⟨⟨huser, hp⟩, hallow⟩ := hchecks
    have hl : f.link.Serves sharedStore := serves_of_mount ⟨rfl, rfl, rfl, rfl⟩ hm
    obtain ⟨hresolver, hcache, hzone⟩ : f.resolver.Arisen ∧ f.cache.Cold ∧
        f.options.zone = "z" := by
      obtain ⟨rootObjectId, link, registry, -, -, rfl⟩ := mount_eq_ok hm
      exact ⟨.new _ _ _, Cache.cold_new _, rfl⟩
    have hpath : (Store.homeOf "z" "alice").structural f.options.zone = false := by
      rw [hzone]
      decide +kernel
    obtain ⟨o, ho, hkind⟩ := (Option.any_eq_true _ _).1 hhome
    obtain ⟨session, l, hconnect, -, hl'⟩ := Link.connect_ok hadmits hl
    have hstore := hl.store
    rw [← hstore] at hreachable hl hregular ho
    rw [← hl'.store] at hnew
    have henforced :=
      (decisions_enforced hreachable hl hresolver hcache (eq_ok_of_toOption huser) hregular hp ho
      hpath).2 session l hconnect
    have hcreate := henforced.create hkind .writeData (by decide) (by decide) ⟨"/z/home/alice/x"⟩
      (by decide +kernel) hnew
    exact ⟨f, session, l, rfl, hconnect, eq_ok_of_toOption hallow,
      hcreate.1.1 (eq_ok_of_toOption hallow)⟩

end Facade
end StoreMount
