import StoreMount.Proofs.Facade.Eviction

/-!
# What remains of access lists and decisions

An access list is replaced entry by entry, and the caches forget it only when all of it has been
replaced. If that fails on the way the outcome is settled all the same, but an old list may be
remembered. A decision on access is remembered until it expires, whatever happens to the access
list, and so depends on what the caches hold; but making one leaves the caches truthful.
-/
namespace StoreMount

variable {s s' : Store}

theorem Store.Spares.trans {s'' : Store} {C : Place → Prop} (h : Store.Spares s s' C)
    (h' : Store.Spares s' s'' C) :
    Store.Spares s s'' C := fun k o hk ho => by
  obtain ⟨o', ho', he⟩ := h k o hk ho
  obtain ⟨o'', ho'', he'⟩ := h' k o' hk ho'
  exact ⟨o'', ho'', Store.alike_trans he he'⟩

namespace Facade

variable {α β : Type} {w w' : World} {K K' : Cache → Prop}

/-- Whatever the session, the condition settles how the action ends; if it ends well, the caches are
truthful about the world that it leaves. -/
def SettledIfDone {ι : Type} (P : Facade → Prop) (m : ι → FacadeM α) : Prop :=
  ∃ r w' K, (∀ a, r = .ok a → w'.Sound ∧ ∀ c : Cache, K c → c.Truthful w') ∧ ∀ i,
    Gives P (m i) r (Holds w' K)

abbrev SessionOf (user : String) := { session : Session // session.user = user }

namespace SettledIfDone

variable {ι : Type} {P P' : Facade → Prop} {m : ι → FacadeM α} {f : ι → α → FacadeM β} {a : α}
    {e : FacadeError}

theorem of_ok (hw : w.Sound) (h : ∀ i, Gives P (m i) (.ok a) (Shows w)) : SettledIfDone P m :=
  ⟨.ok a, w, (Cache.Truthful · w), fun _ _ => ⟨hw, fun _ h => h⟩, h⟩

theorem of_error (h : ∀ i, Gives P (m i) (.error e) (Holds w K)) : SettledIfDone P m :=
  ⟨.error e, w, K, nofun, h⟩

theorem bind_ok (hm : ∀ i, Gives P (m i) (.ok a) P') (hf : SettledIfDone P' (f · a)) :
    SettledIfDone P fun i => m i >>= f i := by
  obtain ⟨r, w', K', hr, h⟩ := hf
  exact ⟨r, w', K', hr, fun i => (hm i).bind_ok (h i)⟩

theorem bind {r : Except FacadeError α} (hm : ∀ i, Gives P (m i) r (Holds w K))
    (hf : ∀ a, r = .ok a → SettledIfDone (Holds w K) (f · a)) :
    SettledIfDone P fun i => m i >>= f i := by
  cases r with
  | error e => exact of_error fun i => (hm i).bind_error
  | ok a => exact bind_ok hm (hf a rfl)

theorem of_get {f : ι → Facade → FacadeM α} (hf : ∀ i s, s.world = w → f i s = m i)
    (h : SettledIfDone (Holds w K) m) :
    SettledIfDone (Holds w K) fun i => get >>= f i := by
  obtain ⟨r, w', K', hr, hm⟩ := h
  exact ⟨r, w', K', hr, fun i => Gives.bind_get fun s hs => hf i s hs.world ▸ hm i⟩

theorem during {account : Account} {body : Session → FacadeM α}
    (h : SettledIfDone (Shows w) fun session : SessionOf account.clientUser => body session.1) :
    SettledIfDone (Shows w) fun _ : ι => Facade.during account body := by
  cases hadmits : w.store.admits account with
  | error e => exact of_error fun _ => during_gives_error hadmits
  | ok _ =>
    obtain ⟨r, w', K', hr, h⟩ := h
    exact ⟨r, w', K', hr,
      fun _ => during_gives hadmits fun session hsession => h ⟨session, hsession⟩⟩

end SettledIfDone

structure Regranted (place : Place) (s s' : Store) : Prop where
  rooted : s.Rooted → s'.Rooted
  users : s'.users = s.users
  spares : s.Spares s' (· ≠ place)

theorem Regranted.refl (place : Place) (s : Store) : Regranted place s s :=
  ⟨fun h => h, rfl, fun _ o _ ho => ⟨o, ho, Store.alike_refl o⟩⟩

theorem Regranted.trans {place : Place} {s'' : Store} (h : Regranted place s s')
    (h' : Regranted place s' s'') :
    Regranted place s s'' :=
  ⟨fun hs => h'.rooted (h.rooted hs), h'.users.trans h.users, h.spares.trans h'.spares⟩

theorem regranted_changeAcl (place : Place) (f : AccessList → AccessList) :
    Regranted place s (s.changeAcl place f) :=
  ⟨fun hs => hs.effect (.regranted place f), (Store.Effect.regranted place f).users,
    Store.spares_changeAcl place f⟩

theorem forM_gives {place : Place} (user : String) (c : PermissionEntry → Call)
    (action : PermissionEntry → String → Store → Except StoreError Store)
    (h : ∀ entry s s', action entry user s = .ok s' → Regranted place s s')
    (entries : List PermissionEntry) (w : World) :
    ∃ r s', Regranted place w.store s' ∧ ∀ session : SessionOf user, Gives (Holds w K)
      (entries.forM fun entry =>
        call (Link.tell session.1 (c entry) (action entry session.1.user))) r
      (Holds { w with store := s' } K) := by
  induction entries generalizing w with
  | nil => exact ⟨.ok ⟨⟩, w.store, .refl _ _, fun _ => Gives.of_pure⟩
  | cons entry entries ih =>
    cases ha : action entry user w.store with
    | error e =>
      refine ⟨.error (.ofStore e), w.store, .refl _ _, fun session => ?_⟩
      have ha : action entry session.1.user w.store = .error e :=
        (congrArg (action entry · w.store) session.2).trans ha
      exact (call_gives (Link.tell_gives_error ha)).bind_error
    | ok s' =>
      obtain ⟨r, s'', hs'', hrest⟩ := ih { w with store := s' }
      refine ⟨r, s'', (h entry _ _ ha).trans hs'', fun session => ?_⟩
      have ha : action entry session.1.user w.store = .ok s' :=
        (congrArg (action entry · w.store) session.2).trans ha
      exact (call_gives (Link.tell_gives_ok ha)).bind_ok (hrest session)

theorem applyChange_gives (path : Path) (change : AclChange) (user : String) (w : World) :
    ∃ r s', Regranted path.place w.store s' ∧ ∀ session : SessionOf user,
      Gives (Holds w K) (applyChange session.1 path change) r (Holds { w with store := s' } K) := by
  obtain ⟨r, s', hs', hrevoke⟩ := forM_gives (K := K) user (.revoke path)
    (fun entry user s => s.revoke user path entry) (fun entry s s' h => by
      obtain ⟨-, rfl⟩ := Store.revoke_eq_ok h
      exact regranted_changeAcl ..) change.removed w
  cases r with
  | error e => exact ⟨.error e, s', hs', fun session => (hrevoke session).bind_error⟩
  | ok _ =>
    obtain ⟨r, s'', hs'', hgrant⟩ := forM_gives (K := K) user (.grant path)
      (fun entry user s => s.grant user path entry) (fun entry s s' h => by
        obtain ⟨-, -, rfl⟩ := Store.grant_eq_ok h
        exact regranted_changeAcl ..) change.added { w with store := s' }
    exact ⟨r, s'', hs'.trans hs'', fun session => (hrevoke session).bind_ok (hgrant session)⟩

theorem toEntries_gives (r : Resolver) (ids : Identities) (s : Store) (aces : List Ace) :
    ∃ entries, (∀ e ∈ entries, s.users.contains e.name = true) ∧
      ∀ session, Gives (Link.Serves · s) (AclExchange.toEntries r ids session aces) (.ok entries)
        (Link.Serves · s) := by
  induction aces with
  | nil => exact ⟨[], by simp, fun _ => Gives.of_pure⟩
  | cons ace aces ih =>
    obtain ⟨entries, hknown, hrest⟩ := ih
    have hentry : ∃ entry : Option PermissionEntry,
        (∀ e ∈ entry.toList, s.users.contains e.name = true) ∧
        ∀ session, Gives (Link.Serves · s) (AclExchange.toEntry r ids session ace) (.ok entry)
          (Link.Serves · s) := by
      unfold AclExchange.toEntry
      cases AclExchange.request? r ids ace with
      | none => exact ⟨none, by simp, fun _ => Gives.of_pure⟩
      | some request =>
        have hfound : ∀ session,
            Gives (Link.Serves · s) (Link.findUser session request.1) (.ok (s.findUser request.1))
            (Link.Serves · s) := fun session => Link.findUser_gives request.1
        cases hu : s.findUser request.1 with
        | none => exact ⟨none, by simp, fun session => (hu ▸ hfound session).bind_ok Gives.of_pure⟩
        | some user =>
          refine ⟨some ⟨user.name, ace.subjectKind, user.zone, request.2⟩, ?_,
            fun session => (hu ▸ hfound session).bind_ok Gives.of_pure⟩
          obtain ⟨record, hrecord, rfl⟩ := Option.map_eq_some_iff.1 hu
          simp [Table.contains, hrecord]
    obtain ⟨entry, hentryKnown, hentry⟩ := hentry
    refine ⟨entry.toList ++ entries, fun e he => ?_,
      fun session => (hentry session).bind_ok ((hrest session).bind_ok Gives.of_pure)⟩
    exact (List.mem_append.1 he).elim (hentryKnown e) (hknown e)

theorem replaceAcl_settled (hw : w.Sound) (user : String) (path : Path) (aces : List Ace) :
    SettledIfDone (Shows w) fun session : SessionOf user => replaceAcl session.1 path aces := by
  refine .bind (fun session => stat_gives session.1 path) fun status _ => ?_
  refine .bind (fun session => storedPermissions_gives session.1 path) fun current _ => ?_
  refine .of_get (m := fun session => do
    let incoming ← call (AclExchange.toEntries w.resolver w.identities session.1 aces)
    applyChange session.1 path (.between current incoming status.ownerName)
    changeCache (·.forgetPermissions path)
    changeCache (·.forgetAttributes path)) (by rintro _ s rfl; rfl) ?_
  obtain ⟨incoming, -, hincoming⟩ := toEntries_gives w.resolver w.identities w.store aces
  refine .bind_ok (a := incoming) (fun session => call_gives (hincoming session.1)) ?_
  obtain ⟨r, s', hs', happly⟩ := applyChange_gives (K := (Cache.Truthful · w)) path
    (.between current incoming status.ownerName) user w
  refine .bind happly fun _ _ => .bind_ok (fun _ => changeCache_gives
    (I := fun c => ∃ c₀ : Cache, c₀.Truthful w ∧ c = c₀.forgetPermissions path) fun c hc =>
      ⟨c, hc, rfl⟩) ?_
  refine .of_ok (w := { w with store := s' })
    ⟨hs'.rooted hw.rooted, hw.inverse, hw.made, hw.faithful⟩
    fun _ => changeCache_gives ?_
  rintro - ⟨c, hc, rfl⟩
  exact hc.changed (r := w.registry) hs'.users hs'.spares hs'.spares.acl (fun _ _ _ h => h)
    (fun _ _ _ h => Cache.get?_forgetAttributes h) (fun _ _ h => Cache.get?_forgetPermissions h) rfl

theorem allowListed_gives (user : Principal) (profile : UserProfile) (path : Path) :
    Gives (Holds w K) (allowListed user profile path)
      (.ok (w.allowList.allows user.name profile.groups path))
      (Holds w K) := by
  refine Gives.bind_get fun f hf => ?_
  have hlist : f.allowList = w.allowList := congrArg World.allowList hf.world
  rw [hlist]
  exact Gives.of_pure

theorem setAcl_settled (hw : w.Sound) (uid : UInt32) (handle : Handle) (aces : List Ace) :
    SettledIfDone (Shows w) fun _ : Unit => setAcl uid handle aces := by
  unfold setAcl
  split
  · exact .of_ok hw fun _ => Gives.of_pure
  · obtain ⟨r, w, hw, hresolve, -⟩ := resolve_gives hw uid
    refine .bind (fun _ => hresolve) fun user _ =>
      .bind (fun _ => pathOf_gives handle) fun path _ => .during ?_
    refine .bind_ok (fun session => userProfile_gives session.1 user.name) ?_
    refine .bind_ok (fun _ => allowListed_gives user _ path) ?_
    refine .of_get (m := fun session => if ((w.store.profile user.name).type = .admin ||
        w.allowList.allows user.name (w.store.profile user.name).groups path) &&
        user.account.clientUser ≠ w.resolver.admin.clientUser then
      Facade.during w.resolver.admin fun adminSession => replaceAcl adminSession path aces
      else replaceAcl session.1 path aces) (by rintro _ s rfl; rfl) ?_
    split
    · exact .during (replaceAcl_settled hw _ path aces)
    · exact replaceAcl_settled hw _ path aces

/-! ## Decisions -/

/-- Whatever the action answers, it leads from the one world to the other, and leaves truthful
caches. -/
def Leads (w w' : World) (m : FacadeM α) : Prop := ∀ f, Shows w f → Shows w' (m f).2

namespace Leads

variable {m : FacadeM α} {f : α → FacadeM β}

theorem of_gives {r : Except FacadeError α} (h : Gives (Shows w) m r (Shows w')) : Leads w w' m :=
  fun f hf => (h f hf).2

theorem of_pure {a : α} : Leads w w (pure a) := fun _ hf => hf

theorem bind (hm : Leads w w' m) (hf : ∀ a, Leads w' w' (f a)) : Leads w w' (m >>= f) := by
  intro s hs
  have := hm s hs
  rw [bind_apply]
  rcases h : (m s : Except FacadeError α × Facade) with ⟨e | a, s'⟩ <;> rw [h] at this
  · exact this
  · exact hf a s' this

theorem of_get {f : Facade → FacadeM β} (hf : ∀ s, Leads w w (f s)) : Leads w w (get >>= f) :=
  fun s hs => hf s s hs

theorem during {account : Account} {body : Session → FacadeM α}
    (h : ∀ session, Leads w w (body session)) :
    Leads w w (Facade.during account body) := by
  cases hadmits : w.store.admits account with
  | error e => exact of_gives (during_gives_error hadmits)
  | ok _ =>
    intro f hf
    obtain ⟨session, f', -, hf', happly⟩ := during_apply hadmits body hf
    rw [happly]
    exact Holds.close (h session f' hf') session

end Leads

theorem objectKind_leads (session : Session) (path : Path) :
    Leads w w (objectKind session path) := by
  refine .of_get fun f => ?_
  split
  · exact .of_pure
  · refine .bind (.of_gives (stat_gives session path)) fun status => .bind ?_ fun _ => .of_pure
    exact .of_gives (changeCache_shows fun c hc => hc.putObjectType path _)

theorem userLevel_leads (session : Session) (user : Principal) (path : Path) :
    Leads w w (userLevel session user path) :=
  .bind (.of_gives (userProfile_gives session user.name)) fun _ =>
    .bind (.of_gives (permissions_gives session path)) fun _ => .of_pure

theorem mayEditAttributes_leads (session : Session) (user : Principal) (path : Path) :
    Leads w w (mayEditAttributes session user path) := by
  refine .bind (.of_gives (userProfile_gives session user.name)) fun profile => ?_
  split
  · exact .of_pure
  · exact .of_gives (allowListed_gives user profile path)

theorem decideAccess_leads (user : Principal) (path : Path) (mask : Mask) :
    Leads w w (decideAccess user path mask) := by
  refine .bind (.of_get fun _ => .of_pure) fun isOpen => ?_
  split
  · exact .of_pure
  · refine .during fun session => .bind (objectKind_leads session path) fun kind => ?_
    split
    · exact .of_pure
    · have hlevel : Leads w w (do
          let level ← userLevel session user path
          return Level.decision level mask) :=
        .bind (userLevel_leads session user path) fun _ => .of_pure
      split
      · refine .bind (mayEditAttributes_leads session user path) fun may => ?_
        split
        · exact .of_pure
        · exact hlevel
      · exact hlevel

theorem checkAccess_leads (hw : w.Sound) (uid : UInt32) (handle : Handle) (mask : Mask) :
    ∃ w', w'.Sound ∧ Leads w w' (checkAccess uid handle mask) := by
  obtain ⟨r, w', hw', hresolve, -⟩ := resolve_gives hw uid
  refine ⟨w', hw',
    .bind (.of_gives hresolve) fun user => .bind (.of_gives (pathOf_gives handle)) fun path => ?_⟩
  refine .of_get fun f => ?_
  split
  · exact .of_pure
  · refine .bind (decideAccess_leads user path mask) fun decision => .bind ?_ fun _ => .of_pure
    exact .of_gives (changeCache_shows fun c hc => hc.putAccess _ mask path decision)

end Facade
end StoreMount
