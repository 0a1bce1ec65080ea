import StoreMount.Proofs.Facade.Handles
import StoreMount.Proofs.Facade.Truthful

/-!
# Caches do not show

With truthful caches and a link that nobody interferes with, the world settles what an operation
answers and which world it leaves, whatever it finds in the caches and whatever it has to fetch, and
the caches are truthful again when it is done. So two facades that started from the same world and
are asked the same things answer the same, however long their caches remember. Listings are left
out, and of attributes the times of collections; decisions on access may be outdated, and an access
list that was changed only in part may be misremembered.
-/
namespace StoreMount.Facade

variable {α β : Type} {w w' : World} {K K' : Cache → Prop}

/-- The facade shows a world over a link that nobody interferes with, and its caches are in a
certain condition. -/
structure Holds (w : World) (K : Cache → Prop) (f : Facade) : Prop where
  world : f.world = w
  link : f.link.Serves w.store
  cache : K f.cache

def Shows (w : World) (f : Facade) : Prop := Holds w (Cache.Truthful · w) f

/-- The condition settles how the action ends and which world it leaves. -/
def Settled (P : Facade → Prop) (m : FacadeM α) : Prop := ∃ r w', w'.Sound ∧ Gives P m r (Shows w')

def SettledUpTo (rel : α → α → Prop) (P : Facade → Prop) (m : FacadeM α) : Prop :=
  ∃ r w', w'.Sound ∧ Yields rel P m r (Shows w')

namespace Settled

variable {P P' : Facade → Prop} {m : FacadeM α} {f : α → FacadeM β} {a : α} {e : FacadeError}

theorem of_gives {r : Except FacadeError α} (hw : w.Sound) (h : Gives P m r (Shows w)) :
    Settled P m := ⟨r, w, hw, h⟩

theorem bind_ok (hm : Gives P m (.ok a) P') (hf : Settled P' (f a)) : Settled P (m >>= f) := by
  obtain ⟨r, w', hw', h⟩ := hf
  exact ⟨r, w', hw', hm.bind_ok h⟩

theorem bind_error (hw : w.Sound) (hm : Gives P m (.error e) (Shows w)) : Settled P (m >>= f) :=
  ⟨.error e, w, hw, hm.bind_error⟩

theorem bind {r : Except FacadeError α} (hw : w.Sound) (hm : Gives P m r (Shows w))
    (hf : ∀ a, r = .ok a → Settled (Shows w) (f a)) : Settled P (m >>= f) := by
  cases r with
  | error e => exact bind_error hw hm
  | ok a => exact bind_ok hm (hf a rfl)

theorem bind_settled (hm : Settled P m) (hf : ∀ a w, w.Sound → Settled (Shows w) (f a)) :
    Settled P (m >>= f) := by
  obtain ⟨r, w, hw, h⟩ := hm
  exact bind hw h fun a _ => hf a w hw

end Settled

/-! ## Single steps -/

theorem call_gives {action : LinkM StoreError α} {r : Except StoreError α} {s' : Store}
    (h : Gives (Link.Serves · w.store) action r (Link.Serves · s')) :
    Gives (Holds w K) (call action) (r.mapError .ofStore) (Holds { w with store := s' } K) := by
  rintro f ⟨rfl, hl, hc⟩
  obtain ⟨hr, hl'⟩ := h f.link hl
  refine ⟨congrArg (Except.mapError _) hr, ?_, hl', hc⟩
  exact congrArg (World.mk · f.registry f.resolver f.identities f.allowList f.options.mountPoint
    f.options.zone
    f.options.allowOverwrite) hl'.store

theorem stat_gives (session : Session) (path : Path) :
    Gives (Holds w K) (call (Link.stat session path)) ((w.store.stat path).mapError .ofStore)
      (Holds w K) :=
  call_gives (Link.stat_gives path)

theorem structural_gives (path : Path) :
    Gives (Holds w K) (structural path) (.ok (path.structural w.zone)) (Holds w K) :=
  Gives.bind_get fun f hf =>
    (congrArg World.zone hf.world : f.options.zone = w.zone) ▸ Gives.of_pure

theorem storedPermissions_gives (session : Session) (path : Path) :
    Gives (Holds w K) (call (Link.permissions session path))
      ((w.store.permissions path).mapError .ofStore) (Holds w K) :=
  call_gives (Link.ask_gives (·.permissions path))

theorem changeCache_gives {I : Cache → Prop} {change : Cache → Cache}
    (h : ∀ c, K c → I (change c)) :
    Gives (Holds w K) (changeCache change) (.ok ()) (Holds w I) :=
  fun f hf => ⟨rfl, hf.world, hf.link, h f.cache hf.cache⟩

theorem changeCache_shows {change : Cache → Cache} (h : ∀ c, c.Truthful w → (change c).Truthful w) :
    Gives (Shows w) (changeCache change) (.ok ()) (Shows w) := changeCache_gives h

theorem during_gives_error {account : Account} {body : Session → FacadeM α} {e : StoreError}
    (h : w.store.admits account = .error e) :
    Gives (Holds w K) (during account body) (.error (.ofStore e)) (Holds w K) :=
  (call_gives (Link.connect_gives_error h)).bind_error

theorem Holds.close {f : Facade} (h : Holds w K f) (session : Session) :
    Holds w K { f with link := f.link.close session } := by
  refine ⟨Eq.trans ?_ h.world, h.link.close session, h.cache⟩
  exact congrArg (World.mk · _ _ _ _ _ _ _) (Link.store_close session _)

theorem during_apply {account : Account} {f : Facade} (h : w.store.admits account = .ok ())
    (body : Session → FacadeM α) (hf : Holds w K f) :
    ∃ session f', session.user = account.clientUser ∧ Holds w K f' ∧
      during account body f = ((body session f').1,
        { (body session f').2 with link := (body session f').2.link.close session }) := by
  obtain ⟨rfl, hl, hc⟩ := hf
  obtain ⟨session, l', hconnect, huser, hl'⟩ := Link.connect_ok h hl
  refine ⟨session, { f with link := l' }, huser, ⟨?_, hl', hc⟩, ?_⟩
  · exact congrArg (World.mk · f.registry f.resolver f.identities f.allowList f.options.mountPoint
      f.options.zone
      f.options.allowOverwrite) hl'.store
  · simp only [during, bind_apply, call, hconnect]
    rfl

theorem during_gives {v : World} {I : Cache → Prop} {account : Account} {body : Session → FacadeM α}
    {r : Except FacadeError α} (h : w.store.admits account = .ok ()) (hbody : ∀ session,
      session.user = account.clientUser → Gives (Holds w K) (body session) r (Holds v I)) :
    Gives (Holds w K) (during account body) r (Holds v I) := by
  intro f hf
  obtain ⟨session, f', huser, hf', happly⟩ := during_apply h body hf
  obtain ⟨hr, hs⟩ := hbody session huser f' hf'
  rw [happly]
  exact ⟨hr, hs.close session⟩

theorem resolve_gives (hw : w.Sound) (uid : UInt32) :
    ∃ r w', w'.Sound ∧ Gives (Shows w) (resolve uid) r (Shows w') ∧
      ∀ user, r = .ok user → user.account = w'.resolver.admin.actingAs user.name := by
  have hl₀ : (Link.ofServer (Server.ofStore w.store)).Serves w.store := ⟨rfl, rfl, rfl, rfl⟩
  generalize Link.ofServer (Server.ofStore w.store) = l₀ at hl₀
  have hfaithful := hw.faithful.resolve uid l₀
  have hadmin := w.resolver.admin_resolve w.identities uid l₀
  refine ⟨(w.resolver.resolve w.identities uid l₀).1,
    { w with resolver := (w.resolver.resolve w.identities uid l₀).2.1 },
    ⟨hw.rooted, hw.inverse, hw.made, hfaithful⟩, ?_, fun user huser =>
      hw.faithful.account_resolve huser⟩
  rintro f ⟨rfl, hl, hc⟩
  obtain ⟨hr, hresolver, hl', -⟩ := f.resolver.resolve_serves f.identities uid hl hl₀
  refine ⟨hr, ?_, hl',
    hc.resolved hadmin fun name => hw.faithful.idsForName_resolve hw.made uid l₀ name⟩
  exact congrArg₂
    (World.mk · f.registry · f.identities f.allowList f.options.mountPoint f.options.zone
    f.options.allowOverwrite) hl'.store hresolver

theorem pathOf_gives (handle : Handle) :
    Gives (Holds w K) (pathOf handle) (match w.registry.pathOf? handle with
      | some path => .ok path
      | none => .error (.handleNotFound handle)) (Holds w K) := by
  refine Gives.bind_get fun f hf => ?_
  have hregistry : f.registry = w.registry := congrArg World.registry hf.world
  rw [hregistry]
  cases w.registry.pathOf? handle with
  | some path => exact Gives.of_pure
  | none => exact Gives.of_throw

theorem childPath_gives (parent : Handle) (name : String) :
    ∃ r, Gives (Holds w K) (childPath parent name) r (Holds w K) := by
  unfold childPath
  split
  · exact ⟨_, Gives.of_throw_bind⟩
  · have hpath := pathOf_gives (w := w) (K := K) parent
    cases hp : w.registry.pathOf? parent with
    | none => rw [hp] at hpath; exact ⟨_, hpath.bind_error⟩
    | some path => rw [hp] at hpath; exact ⟨_, hpath.bind_ok Gives.of_pure⟩

theorem handleFor_settled (hw : w.Sound) (path : Path) : Settled (Shows w) (handleFor path) := by
  refine ⟨.ok (w.registry.handleFor path).1, { w with registry := (w.registry.handleFor path).2 },
    { hw with inverse := hw.inverse.handleFor path }, ?_⟩
  rintro f ⟨rfl, hl, hc⟩
  refine ⟨rfl, rfl, hl, ?_⟩
  exact hc.changed (s := f.link.store) (r := (f.registry.handleFor path).2) rfl (C := fun _ => True)
    (D := fun _ => True)
    (fun k o _ ho => ⟨o, ho, Store.alike_refl o⟩) (fun k o _ ho => ⟨o, ho, rfl⟩)
    (fun p handle _ hp => Registry.handleOf?_handleFor hp) (fun _ _ _ h => ⟨h, trivial⟩)
    (fun _ _ h => ⟨h, trivial⟩) rfl

/-! ## What is read through the caches -/

theorem remembered_profile_gives {c : Cache} {name : String} (session : Session) (hc : K c)
    (hput : K (c.putUserProfile name (w.store.profile name))) :
    Gives (Holds w (· = c)) (userProfile session name)
      (.ok ((c.userProfile? name).getD (w.store.profile name)))
      (Holds w K) := by
  have hfetched : Gives (Holds w (· = c)) (do
      changeCache (·.putUserProfile name (w.store.profile name))
      return w.store.profile name) (.ok (w.store.profile name)) (Holds w K) :=
    Gives.bind_ok (changeCache_gives fun _ hc => hc ▸ hput) Gives.of_pure
  refine Gives.bind_get fun f hf => ?_
  obtain rfl := hf.cache
  cases f.cache.userProfile? name with
  | some profile => exact fun g hg => ⟨rfl, hg.world, hg.link, hg.cache ▸ hc⟩
  | none =>
    refine Gives.bind_ok (call_gives (Link.findUser_gives name)) ?_
    cases hu : w.store.users.get? name with
    | none =>
      have hprofile : w.store.profile name = ⟨.regular, []⟩ := by rw [Store.profile, hu]
      simp only [Store.findUser, hu, Option.map_none]
      exact hprofile ▸ hfetched
    | some r =>
      have hprofile : w.store.profile name = ⟨r.type, r.groups⟩ := by rw [Store.profile, hu]
      have hgroups : w.store.userGroups name = .ok r.groups := by rw [Store.userGroups, hu]
      simp only [Store.findUser, hu, Option.map_some]
      refine Gives.bind_ok (hgroups ▸ call_gives (Link.ask_gives (·.userGroups name))) ?_
      exact hprofile ▸ hfetched

/-- What is found of profiles and access lists is what the store has, and it stays so when more of
that is put in. -/
structure Informed (w : World) (K : Cache → Prop) : Prop where
  foundProfile : ∀ {c name profile}, K c → c.userProfile? name = some profile →
    profile = w.store.profile name
  foundPermissions : ∀ {c path entries}, K c → c.permissions? path = some entries →
    ∃ o, w.store.object? path = some o ∧ o.acl = entries
  putUserProfile : ∀ {c}, K c → ∀ name, K (c.putUserProfile name (w.store.profile name))
  putPermissions : ∀ {c path o}, K c → w.store.object? path = some o →
    K (c.putPermissions path o.acl)
  putObjectType : ∀ {c path o}, K c → w.store.object? path = some o →
    K (c.putObjectType path o.kind)

namespace Informed

theorem userProfile_gives (hK : Informed w K) (session : Session) (name : String) :
    Gives (Holds w K) (userProfile session name) (.ok (w.store.profile name)) (Holds w K) := by
  intro f hf
  have hprofile := remembered_profile_gives session hf.cache (hK.putUserProfile hf.cache name) f
    ⟨hf.world, hf.link, rfl⟩
  cases hfound : f.cache.userProfile? name with
  | none => rwa [hfound] at hprofile
  | some profile => rwa [hfound, hK.foundProfile hf.cache hfound] at hprofile

theorem permissions_gives (hK : Informed w K) (session : Session) (path : Path) :
    Gives (Holds w K) (permissions session path) ((w.store.permissions path).mapError .ofStore)
      (Holds w K) := by
  refine Gives.bind_get fun f hf => ?_
  split
  · next entries hfound =>
    obtain ⟨o, ho, hacl⟩ := hK.foundPermissions hf.cache hfound
    rw [Store.permissions_eq, ho, ← hacl]
    exact Gives.of_pure
  · have hcall := storedPermissions_gives (w := w) (K := K) session path
    rw [Store.permissions_eq] at hcall ⊢
    cases ho : w.store.object? path with
    | none => rw [ho] at hcall; exact hcall.bind_error
    | some o =>
      rw [ho] at hcall
      exact hcall.bind_ok
        (Gives.bind_ok (changeCache_gives fun c hc => hK.putPermissions hc ho) Gives.of_pure)

theorem userLevel_gives (hK : Informed w K) (session : Session) (user : Principal) {path : Path}
    {o : StoredObject} (ho : w.store.object? path = some o) :
    Gives (Holds w K) (userLevel session user path)
      (.ok (AccessList.levelOf? o.acl user.name (w.store.profile user.name).groups))
      (Holds w K) := by
  have hperm := hK.permissions_gives session path
  rw [Store.permissions_eq, ho] at hperm
  exact (hK.userProfile_gives session user.name).bind_ok (hperm.bind_ok Gives.of_pure)

theorem fetchAttributes_gives (hK : Informed w K) (session : Session) {user : Principal}
    {handle : Handle} {path : Path} (hput : ∀ c o, K c → w.store.object? path = some o →
      K (c.putAttributes user.name path (w.attributes user.name handle path o))) :
    Gives (Holds w K) (fetchAttributes session user handle path) (match w.store.object? path with
      | some o => .ok (w.attributes user.name handle path o)
      | none => .error (.ofStore (.notFound path))) (Holds w K) := by
  have hstat := stat_gives (w := w) (K := K) session path
  rw [Store.stat_eq] at hstat
  unfold fetchAttributes
  cases ho : w.store.object? path with
  | none => rw [ho] at hstat; exact hstat.bind_error
  | some o =>
    rw [ho] at hstat
    refine hstat.bind_ok (Gives.bind_ok (changeCache_gives fun c hc => hK.putObjectType hc ho) ?_)
    refine (structural_gives path).bind_ok ?_
    have hrest : ∀ level, level = (if path.structural w.zone then none else
        AccessList.levelOf? o.acl user.name (w.store.profile user.name).groups) →
          Gives (Holds w K) (rememberAttributes user handle path (w.store.statusOf o)
            (path.structural w.zone) level)
            (.ok (w.attributes user.name handle path o)) (Holds w K) := by
      rintro level rfl
      refine Gives.bind_get fun f hf => ?_
      have hresolver : f.resolver = w.resolver := congrArg World.resolver hf.world
      have hidentities : f.identities = w.identities := congrArg World.identities hf.world
      rw [hresolver, hidentities]
      exact Gives.bind_ok (changeCache_gives fun c hc => hput c o hc ho) Gives.of_pure
    split
    · next h => exact Gives.bind_ok Gives.of_pure (hrest none (by rw [if_pos h]))
    · next h => exact (hK.userLevel_gives session user ho).bind_ok (hrest _ (by rw [if_neg h]))

end Informed

theorem informed_truthful : Informed w (Cache.Truthful · w) where
  foundProfile hc hfound := by
    obtain ⟨since, hsince⟩ := Cache.fresh_eq_some hfound
    exact hc.profiles _ _ hsince
  foundPermissions hc hfound := by
    obtain ⟨since, hsince⟩ := Cache.fresh_eq_some hfound
    exact hc.permissions _ _ hsince
  putUserProfile hc name := hc.putUserProfile name
  putPermissions hc ho := hc.putPermissions ho
  putObjectType hc _ := hc.putObjectType _ _

theorem userProfile_gives (session : Session) (name : String) :
    Gives (Shows w) (userProfile session name) (.ok (w.store.profile name)) (Shows w) :=
  informed_truthful.userProfile_gives session name

theorem permissions_gives (session : Session) (path : Path) :
    Gives (Shows w) (permissions session path)
      ((w.store.permissions path).mapError .ofStore) (Shows w) :=
  informed_truthful.permissions_gives session path

theorem fetchAttributes_gives (session : Session) {user : Principal} {handle : Handle} {path : Path}
    (hh : w.registry.handleOf? path = some handle)
    (hadmits : w.store.admits (w.resolver.admin.actingAs user.name) = .ok ()) :
    Gives (Shows w) (fetchAttributes session user handle path) (match w.store.object? path with
      | some o => .ok (w.attributes user.name handle path o)
      | none => .error (.ofStore (.notFound path))) (Shows w) :=
  informed_truthful.fetchAttributes_gives session fun _ _ hc ho => hc.putAttributes ho hh hadmits

theorem getattr_settled (hw : w.Sound) (uid : UInt32) (handle : Handle) :
    SettledUpTo Attributes.Agrees (Shows w) (getattr uid handle) := by
  obtain ⟨r, w, hw, hresolve, haccount⟩ := resolve_gives hw uid
  cases r with
  | error e => exact ⟨_, w, hw, hresolve.bind_error.yields .refl⟩
  | ok user =>
    have haccount := haccount user rfl
    have hpath := pathOf_gives (w := w) (K := (Cache.Truthful · w)) handle
    cases hp : w.registry.pathOf? handle with
    | none =>
      rw [hp] at hpath
      exact ⟨_, w, hw, hresolve.then_yields (hpath.bind_error.yields .refl)⟩
    | some path =>
      rw [hp] at hpath
      have hhandle := hw.inverse.handleOf?_of_pathOf? hp
      cases hadmits : w.store.admits user.account with
      | error e =>
        refine ⟨.error (.ofStore e), w, hw,
          hresolve.then_yields (hpath.then_yields (Yields.bind_get fun f hf => ?_))⟩
        split
        · next a hfound =>
          -- nothing is remembered for somebody whom the store does not admit
          have hlet := (hf.cache.attributes?_eq_some hfound hhandle).1
          rw [← haccount, hadmits] at hlet
          cases hlet
        · exact (during_gives_error hadmits).yields .refl
      | ok _ =>
        refine ⟨match w.store.object? path with
          | some o => .ok (w.attributes user.name handle path o)
          | none => .error (.ofStore (.notFound path)), w, hw,
          hresolve.then_yields (hpath.then_yields (Yields.bind_get fun f hf => ?_))⟩
        split
        · next a hfound =>
          obtain ⟨-, o, ho, hagrees⟩ := hf.cache.attributes?_eq_some hfound hhandle
          rw [ho]
          exact fun s hs => ⟨.ok hagrees, hs⟩
        · exact (during_gives hadmits fun session _ =>
              fetchAttributes_gives session hhandle (haccount ▸ hadmits)).yields .refl

/-! ## Operations that look -/

namespace Settled

variable {m : FacadeM β}

theorem of_resolve (hw : w.Sound) {uid : UInt32} {f : Principal → FacadeM β}
    (h : ∀ user w, w.Sound → Settled (Shows w) (f user)) :
    Settled (Shows w) (resolve uid >>= f) := by
  obtain ⟨r, w', hw', hresolve, -⟩ := resolve_gives hw uid
  exact .bind hw' hresolve fun user _ => h user w' hw'

theorem of_pathOf (hw : w.Sound) {handle : Handle} {f : Path → FacadeM β}
    (h : ∀ path, w.registry.pathOf? handle = some path → Settled (Shows w) (f path)) :
    Settled (Shows w) (pathOf handle >>= f) := by
  refine .bind hw (pathOf_gives handle) fun path hpath => h path ?_
  cases hp : w.registry.pathOf? handle with
  | none => rw [hp] at hpath; cases hpath
  | some p => rw [hp] at hpath; exact congrArg some (Except.ok.inj hpath)

theorem of_childPath (hw : w.Sound) {parent : Handle} {name : String} {f : Path → FacadeM β}
    (h : ∀ path, Settled (Shows w) (f path)) : Settled (Shows w) (childPath parent name >>= f) := by
  obtain ⟨r, hr⟩ := childPath_gives (w := w) (K := (Cache.Truthful · w)) parent name
  exact .bind hw hr fun path _ => h path

theorem of_get {f : Facade → FacadeM β} (hf : ∀ s, s.world = w → f s = m)
    (h : Settled (Shows w) m) :
    Settled (Shows w) (get >>= f) := by
  obtain ⟨r, w', hw', hm⟩ := h
  exact ⟨r, w', hw', Gives.bind_get fun s hs => hf s hs.world ▸ hm⟩

theorem during (hw : w.Sound) {account : Account} {body : Session → FacadeM β}
    (h : ∃ r w', w'.Sound ∧
      ∀ session, session.user = account.clientUser → Gives (Shows w) (body session) r (Shows w')) :
    Settled (Shows w) (Facade.during account body) := by
  cases hadmits : w.store.admits account with
  | error e => exact .of_gives hw (during_gives_error hadmits)
  | ok _ =>
    obtain ⟨r, w', hw', hbody⟩ := h
    exact ⟨r, w', hw', during_gives hadmits hbody⟩

end Settled

theorem parentOf_settled (hw : w.Sound) (handle : Handle) :
    Settled (Shows w) (parentOf handle) := by
  refine .of_pathOf hw fun path _ =>
      .of_get (m := if handle = Registry.rootHandle ∨ path.place = w.mountPoint.place then
    return Registry.rootHandle else match path.parent? with
      | some parent => handleFor parent
      | none => return Registry.rootHandle) (by rintro s rfl; rfl) ?_
  split
  · exact .of_gives hw Gives.of_pure
  · split
    · exact handleFor_settled hw _
    · exact .of_gives hw Gives.of_pure

theorem lookup_settled (hw : w.Sound) (uid : UInt32) (parent : Handle) (name : String) :
    Settled (Shows w) (lookup uid parent name) := by
  unfold lookup
  split
  · exact .of_pathOf hw fun _ _ => .of_gives hw Gives.of_pure
  · split
    · exact parentOf_settled hw parent
    · refine .of_resolve hw fun user w hw => .of_childPath hw fun path => .during hw ?_
      have hstat := fun session => stat_gives (w := w) (K := (Cache.Truthful · w)) session path
      cases hs : w.store.stat path with
      | error e => exact ⟨_, w, hw, fun session _ => (hs ▸ hstat session).bind_error⟩
      | ok status =>
        obtain ⟨r, w', hw', hhandle⟩ := handleFor_settled hw path
        exact ⟨r, w', hw', fun session _ => (hs ▸ hstat session).bind_ok
          (Gives.bind_ok (changeCache_shows fun c hc => hc.putObjectType path _) hhandle)⟩

theorem directoryVerifier_settled (hw : w.Sound) (uid : UInt32) (directory : Handle) :
    Settled (Shows w) (directoryVerifier uid directory) := by
  refine .of_resolve hw fun user w hw => .of_pathOf hw fun path _ => .during hw ?_
  have hstat := fun session => stat_gives (w := w) (K := (Cache.Truthful · w)) session path
  cases hs : w.store.stat path with
  | error e => exact ⟨_, w, hw, fun session _ => (hs ▸ hstat session).bind_error⟩
  | ok status => exact ⟨_, w, hw, fun session _ => (hs ▸ hstat session).bind_ok Gives.of_pure⟩

theorem read_settled (hw : w.Sound) (uid : UInt32) (handle : Handle) (offset count : Nat) :
    Settled (Shows w) (read uid handle offset count) :=
  .of_resolve hw fun user w hw => .of_pathOf hw fun path _ => .during hw
    ⟨(w.store.read user.account.clientUser path offset count).mapError .ofStore, w, hw,
        fun session hsession =>
      call_gives (hsession ▸ Link.ask_gives (·.read session.user path offset count))⟩

theorem getAcl_settled (hw : w.Sound) (uid : UInt32) (handle : Handle) :
    Settled (Shows w) (getAcl uid handle) := by
  refine .of_resolve hw fun user w hw => .of_pathOf hw fun path _ => .during hw ?_
  have hperm := fun session => permissions_gives (w := w) session path
  cases hp : w.store.permissions path with
  | error e => exact ⟨_, w, hw, fun session _ => (hp ▸ hperm session).bind_error⟩
  | ok entries =>
    refine ⟨.ok (entries.map (AclExchange.toAce w.resolver w.identities)), w, hw,
      fun session _ => (hp ▸ hperm session).bind_ok (Gives.bind_get fun f hf => ?_)⟩
    obtain ⟨rfl, -, -⟩ := hf
    exact Gives.of_pure

end StoreMount.Facade
