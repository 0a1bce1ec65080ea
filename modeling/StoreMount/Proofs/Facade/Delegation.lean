import StoreMount.Proofs.Facade.Conduct
import StoreMount.Proofs.Facade.Forfeit

/-!
# Acting for the caller

Whatever is asked under a user number is done with the authority of whom the number stands for:
every session that is asked for is that user's, and every call is made in one of them. Only a change
of an access list may go further. It has one more session, the proxy administrator's, if the user is
an administrator or on the allow-list for the path, and what the change needs is then called in that
session.
-/
namespace StoreMount.Facade

variable {α : Type} {For : Account → Prop} {Change : (Cache → Cache) → Prop}
    {Does : Store → Store → Prop}
  {session : Option Session} {events : List Event}

def trace (f : Facade) : List Event := f.link.trace

/-! ## What acts write down -/

/-- Calls of the session at hand, and visits for accounts of a kind. -/
inductive Record (For : Account → Prop) : Option Session → List Event → Prop
  | nil {session : Option Session} : Record For session []
  | call {session : Session} (call : Call) : Record For (some session) [.called session call]
  | refused {session : Option Session} {account : Account} (h : For account) :
      Record For session [.asked account.clientUser]
  | visit {session : Option Session} {account : Account} {opened : Session} {events : List Event}
      (h : For account)
      (owner : opened.user = account.clientUser) (inside : Record For (some opened) events) :
      Record For session
        (.asked account.clientUser :: .opened opened :: (events ++ [.closed opened]))
  | append {session : Option Session} {events events' : List Event}
      (head : Record For session events)
      (tail : Record For session events') : Record For session (events ++ events')

namespace Record

theorem of_visit {account : Account} (h : For account)
    (hv : Link.Visit account (fun s => Record For (some s)) events) :
    Record For session events := by
  cases hv with
  | refused => exact .refused h
  | made owner inside => exact .visit h owner inside

theorem of_callsOf {s : Session} (h : Link.CallsOf s events) : Record For (some s) events := by
  obtain ⟨calls, rfl⟩ := h
  induction calls with
  | nil => exact .nil
  | cons c calls ih => exact .append (.call c) ih

theorem users {P : String → Prop} (h : Record For session events)
    (hfor : ∀ a, For a → P a.clientUser) (hsession : ∀ s, session = some s → P s.user) :
    ∀ e ∈ events, P e.user := by
  induction h with
  | nil => simp
  | call c => simpa [Event.user] using hsession _ rfl
  | refused ha => simpa [Event.user] using hfor _ ha
  | visit ha owner _ ih =>
    have hname := hfor _ ha
    have hopened := owner ▸ hname
    have hinside := ih fun s hs => Option.some.inj hs ▸ hopened
    intro e he
    simp only [List.mem_cons, List.mem_append, List.not_mem_nil, or_false] at he
    rcases he with rfl | rfl | he | rfl
    · exact hname
    · exact hopened
    · exact hinside e he
    · exact hopened
  | append _ _ ih ih' =>
    intro e he
    exact (List.mem_append.1 he).elim (ih hsession e) (ih' hsession e)

theorem opened (h : Record For session events) {s : Session} {c : Call}
    (hc : .called s c ∈ events) :
    session = some s ∨ .opened s ∈ events := by
  induction h with
  | nil => cases hc
  | call _ => simp_all
  | refused _ => simp at hc
  | visit _ _ _ ih =>
    simp only [List.mem_cons, List.mem_append, List.not_mem_nil, or_false, reduceCtorEq,
      false_or] at hc
    rcases ih hc with hs | hs
    · exact .inr (by simp [Option.some.inj hs])
    · exact .inr (by simp [hs])
  | append _ _ ih ih' =>
    rcases List.mem_append.1 hc with hc | hc
    · exact (ih hc).imp_right (List.mem_append_left _)
    · exact (ih' hc).imp_right (List.mem_append_right _)

theorem callsOf {s : Session} (h : Record (fun _ => False) session events) (hs : session = some s) :
    Link.CallsOf s events := by
  induction h with
  | nil => exact ⟨[], rfl⟩
  | call c => cases hs; exact ⟨[c], rfl⟩
  | refused h => exact h.elim
  | visit h => exact h.elim
  | append _ _ ih ih' => exact (ih hs).append (ih' hs)

end Record

theorem during_writes_at {account : Account} {body : Session → FacadeM α}
    {Inside : Session → List Event → Prop} {f : Facade}
    (h : ∀ session l, session.user = account.clientUser → l.store = f.link.store →
      ∃ events, trace (body session { f with link := l }).2 = l.trace ++ events ∧
        Inside session events) :
    ∃ events, trace (during account body f).2 = trace f ++ events ∧
      Link.Visit account Inside events := by
  have hconnect := Link.connect_writes account f.link.trace f.link rfl
  have hstore := Link.keeps_connect account f.link
  simp only [during, bind_apply, call]
  rcases hc : (Link.connect account f.link : Except StoreError Session × Link) with ⟨e | s, l⟩
    <;> rw [hc] at hconnect hstore
  · exact ⟨_, hconnect, .refused⟩
  · obtain ⟨howner, htrace⟩ := hconnect
    obtain ⟨events, hevents, hinside⟩ := h s l howner hstore
    refine ⟨_, ?_, .made howner hinside⟩
    dsimp only [Except.mapError]
    change trace (body s { f with link := l }).2 ++ [.closed s] = _
    rw [hevents, htrace]
    simp only [trace, List.append_assoc, List.cons_append, List.nil_append]

theorem during_writes {account : Account} {body : Session → FacadeM α} {Inside : Session →
      List Event → Prop} (h : ∀ session, Writes trace (Inside session) (body session)) :
    Writes trace (Link.Visit account Inside) (during account body) := fun f =>
  during_writes_at fun session l _ _ => h session { f with link := l }

theorem Acts.writes {m : FacadeM α} (h : Acts For Change Does session m) :
    Writes trace (Record For session) m := by
  induction h with
  | looks h => exact .of_keeps (fun f => congrArg trace (h f)) .nil
  | registers h =>
    refine .of_keeps (fun f => ?_) .nil
    obtain ⟨registry, hr⟩ := h f
    rw [hr]
    rfl
  | remembers => exact .of_keeps (fun _ => rfl) .nil
  | calls h =>
    refine Writes.weaken (fun f => ?_) fun _ => Record.of_callsOf
    exact h.writes f.link
  | visits ha _ ih => exact (during_writes ih).weaken fun _ => Record.of_visit ha
  | bind _ _ ih ih' => exact ih.bind ih' fun _ _ => .append
  | catches _ _ ih ih' => exact ih.of_catch ih' fun _ _ => .append

/-! ## For the caller -/

/-- The events are the caller's, and calls are made in sessions that have been opened among them. -/
structure Own (f : Facade) (uid : Option UInt32) (events : List Event) : Prop where
  users : ∀ e ∈ events, ∃ number, uid = some number ∧
    f.resolver.callerName? f.identities number = some e.user
  opened : ∀ s c, .called s c ∈ events → .opened s ∈ events

variable {f : Facade} {uid : UInt32} {caller : Option UInt32}

theorem Own.nil (f : Facade) (caller : Option UInt32) : f.Own caller [] where
  users := by simp
  opened := by simp

theorem Own.append {events' : List Event} (h : f.Own caller events) (h' : f.Own caller events') :
    f.Own caller (events ++ events') where
  users e he := (List.mem_append.1 he).elim (h.users e) (h'.users e)
  opened s c hc := List.mem_append.2 ((List.mem_append.1 hc).imp (h.opened s c) (h'.opened s c))

theorem Own.of_record {name : String} (hname : f.resolver.callerName? f.identities uid = some name)
    (h : Record For none events) (hfor : ∀ a, For a → a.clientUser = name) :
    f.Own (some uid) events where
  users e he :=
    ⟨uid, rfl, by rw [hname, h.users (P := (· = name)) hfor (fun _ hs => nomatch hs) e he]⟩
  opened s c hc := (h.opened hc).resolve_left fun hs => nomatch hs

theorem Own.of_visit {name : String} (hname : f.resolver.callerName? f.identities uid = some name)
    {account : Account} (ha : account.clientUser = name)
    (h : Link.Visit account Link.CallsOf events) : f.Own (some uid) events := by
  have hrecord : Record (· = account) none events := by
    refine .of_visit rfl ?_
    cases h with
    | refused => exact .refused
    | made owner inside => exact .made owner (.of_callsOf inside)
  exact .of_record hname hrecord fun a h => h ▸ ha

theorem resolve_own (f : Facade) (uid : UInt32) :
    ∃ events, trace (resolve uid f).2 = trace f ++ events ∧ f.Own (some uid) events := by
  obtain ⟨events, hevents, hkind⟩ := f.resolver.resolve_writes f.identities uid f.link
  refine ⟨events, hevents, ?_⟩
  rcases hkind with rfl | ⟨name, hname, hvisit⟩
  · exact .nil f _
  · exact .of_visit hname rfl hvisit

theorem callerName?_of_resolve {user : Principal} (h : (resolve uid f).1 = .ok user) :
    f.resolver.callerName? f.identities uid = some user.name := Resolver.callerName?_of_resolve h

theorem clientUser_of_resolve (hr : f.resolver.Coherent) {user : Principal}
    (h : (resolve uid f).1 = .ok user) :
    user.account.clientUser = user.name := hr.clientUser_of_resolve h

theorem OnBehalf.writes {For : Principal → Account → Prop} {m : FacadeM α}
    (h : OnBehalf For Change Does caller m) (hfor : ∀ user account,
      For user account → account = user.account) (f : Facade) (hr : f.resolver.Coherent) :
    ∃ events, trace (m f).2 = trace f ++ events ∧ f.Own caller events := by
  induction h generalizing f with
  | nobody h =>
    obtain ⟨events, hevents, hrecord⟩ := h.writes f
    refine ⟨events, hevents, fun e he => ?_,
      fun s c hc => (hrecord.opened hc).resolve_left fun hs => nomatch hs⟩
    exact (hrecord.users (P := fun _ => False) (fun _ ha => ha) (fun _ hs => nomatch hs) e he).elim
  | @looks _ _ _ m rest head _ ih =>
    have hsame := head f
    rw [bind_apply]
    rcases hm : (m f : Except FacadeError _ × Facade) with ⟨e | a, f'⟩ <;> rw [hm] at hsame
      <;> obtain rfl : f' = f := hsame
    · exact ⟨[], (List.append_nil _).symm, .nil f' _⟩
    · exact ih a f' hr
  | @caller uid _ rest h =>
    obtain ⟨events, hevents, hown⟩ := resolve_own f uid
    rw [bind_apply]
    rcases hu : (resolve uid f : Except FacadeError Principal × Facade) with ⟨e | user, f'⟩
      <;> rw [hu] at hevents
    · exact ⟨events, hevents, hown⟩
    · have huser : (resolve uid f).1 = .ok user := congrArg Prod.fst hu
      obtain ⟨events', hevents', hrecord⟩ := (h user).writes f'
      refine ⟨events ++ events', by rw [hevents', hevents, List.append_assoc], hown.append ?_⟩
      refine .of_record (callerName?_of_resolve huser) hrecord fun account ha => ?_
      rw [hfor user account ha, clientUser_of_resolve hr huser]
  | @answers _ _ _ m answer _ quiet ih =>
    obtain ⟨events, hevents, hown⟩ := ih f hr
    rw [bind_apply]
    rcases hm : (m f : Except FacadeError _ × Facade) with ⟨e | a, f'⟩ <;> rw [hm] at hevents
    · exact ⟨events, hevents, hown⟩
    · exact ⟨events, (congrArg trace (quiet a f')).trans hevents, hown⟩

/-! ## Changing an access list -/

/-- What the caller needs to be to have a change made in the administrator's session. -/
def Privileged (f : Facade) (user : Principal) (path : Path) : Prop :=
  (f.profileFor user.name).type = .admin ∨
    f.allowList.allows user.name (f.profileFor user.name).groups path = true

theorem findUser_answers (session : Session) (name : String) (s : Store) :
    Triple (Link.store · = s) (Link.findUser session name)
      (fun found l => l.store = s ∧ (found = none ∨ found = s.findUser name))
      (fun _ l => l.store = s) := by
  refine Triple.bind (Link.ask_triple session _ _ s) fun found => ?_
  refine Triple.bind Triple.of_get fun l => Triple.of_pure fun l' h => ⟨h.2.1, ?_⟩
  split
  · exact .inl rfl
  · exact .inr (Except.ok.inj h.2.2).symm

theorem userProfile_answers (f : Facade) (session : Session) (name : String) :
    Triple (fun g : Facade => g.cache = f.cache ∧ g.link.store = f.link.store)
      (userProfile session name)
      (fun profile _ => profile = f.profileFor name ∨ profile = ⟨.regular, []⟩)
      (fun _ _ => True) := by
  have hput : ∀ profile, profile = f.profileFor name ∨ profile = ⟨.regular, []⟩ → ∀ P, Triple P (do
      changeCache (·.putUserProfile name profile)
      return profile) (fun profile _ => profile = f.profileFor name ∨ profile = ⟨.regular, []⟩)
        (fun _ _ => True) :=
    fun profile h _ _ _ => h
  refine Triple.bind Triple.of_get fun g => ?_
  split
  · next profile hfound =>
    refine Triple.of_pure ?_
    rintro g' ⟨rfl, hcache, -⟩
    exact .inl (by rw [profileFor, ← hcache, hfound, Option.getD_some])
  · next hfound =>
    rintro g' ⟨rfl, hcache, hstore⟩
    have hjudged : f.profileFor name = g.link.store.profile name := by
      rw [profileFor, ← hcache, hfound, Option.getD_none, ← hstore]
    have hfind := call_triple (g := g.ground) (Q := fun found s => s = g.link.store ∧
      (found = none ∨ found = g.link.store.findUser name))
      (findUser_answers session name g.link.store)
    refine Triple.bind (hfind.weaken (fun _ h => h) (fun _ _ h => h) fun _ _ _ => trivial)
      (fun found => ?_) g rfl
    cases found with
    | none => exact Triple.bind (Triple.of_pure (Q := fun profile _ => profile = ⟨.regular, []⟩)
        fun _ _ => rfl) fun profile =>
        fun g h => hput profile (.inr h) (fun _ => True) g trivial
    | some user =>
      rintro g' ⟨s, ⟨rfl, hfound⟩, hground⟩
      have hknown : g.link.store.findUser name = some user :=
        (hfound.resolve_left fun h => nomatch h).symm
      obtain ⟨r, hr, rfl⟩ := Option.map_eq_some_iff.1 hknown
      have hgroups := call_triple (g := g'.ground)
        (Q := fun groups s => s = g'.link.store ∧ g'.link.store.userGroups name = .ok groups)
        (Link.ask_triple session (.userGroups name) (·.userGroups name) g'.link.store)
      refine Triple.bind (hgroups.weaken (fun _ h => h) (fun _ _ h => h) fun _ _ _ => trivial)
        (fun groups => ?_) g' rfl
      rintro g'' ⟨s, ⟨rfl, hasked⟩, -⟩
      have hstore : g'.link.store = g.link.store := congrArg Ground.store hground
      rw [hstore, Store.userGroups, hr] at hasked
      have hsame : f.profileFor name = ⟨r.type, groups⟩ := by
        rw [hjudged, Store.profile, hr, ← Except.ok.inj hasked]
      exact hput ⟨r.type, groups⟩ (.inl hsame.symm) (fun _ => True) g'' trivial

/-! The change itself, once it is known who asks for it, and then in whose session it is made. -/

def changeAclWith (privileged : Bool) (user : Principal) (path : Path) (aces : List Ace)
    (session : Session) : FacadeM Unit := do
  let admin := (← get).resolver.admin
  if privileged && user.account.clientUser ≠ admin.clientUser then
    during admin fun adminSession => replaceAcl adminSession path aces
  else replaceAcl session path aces

def changeAcl (user : Principal) (path : Path) (aces : List Ace) (session : Session) :
    FacadeM Unit := do
  let profile ← userProfile session user.name
  let listed ← allowListed user profile path
  changeAclWith (profile.type = .admin || listed) user path aces session

theorem setAcl_eq (uid : UInt32) (handle : Handle) (aces : List Ace) : setAcl uid handle aces =
    if aces.isEmpty then pure ()
    else resolve uid >>= fun user =>
      pathOf handle >>= fun path => during user.account (changeAcl user path aces) := rfl

theorem privileged_of_profile {user : Principal} {path : Path} {profile : UserProfile}
    (hp : profile = f.profileFor user.name ∨ profile = ⟨.regular, []⟩)
    (h : profile.type = .admin ∨ f.allowList.allows user.name profile.groups path = true) :
    f.Privileged user path := by
  rcases hp with rfl | rfl
  · exact h
  · -- who is on the list without any groups is on it with them
    have hlisted := h.resolve_left fun h => nomatch h
    rw [AllowList.allows, List.any_cons, List.any_nil, Bool.or_false] at hlisted
    refine .inr ?_
    rw [AllowList.allows, List.any_cons, hlisted, Bool.true_or]

structure ChangeWrites (f : Facade) (user : Principal) (path : Path) (session : Session)
    (own extra : List Event) : Prop where
  own : Link.CallsOf session own
  extra : extra = [] ∨ f.Privileged user path ∧ Link.Visit f.resolver.admin Link.CallsOf extra

variable {g : Facade} {user : Principal} {path : Path}

theorem replaceAcl_writes (path : Path) (aces : List Ace) (session : Session) :
    Writes trace (Link.CallsOf session) (replaceAcl session path aces) := by
  have hacts : Acts (fun _ => False) Cache.Minor (fun _ _ => True) (some session)
      (replaceAcl session path aces) :=
    .replaceAcl (fun _ h => h) session (fun _ _ _ => trivial) path aces
  exact hacts.writes.weaken fun _ h => h.callsOf rfl

theorem changeAclWith_writes {privileged : Bool} (hp : privileged = true → f.Privileged user path)
    (hadmin : g.resolver.admin = f.resolver.admin) (aces : List Ace) (session : Session) :
    ∃ own extra, trace (changeAclWith privileged user path aces session g).2 = trace g ++
      (own ++ extra) ∧
      f.ChangeWrites user path session own extra := by
  rw [changeAclWith, bind_apply, get_apply]
  dsimp only
  split
  · next h =>
    obtain ⟨events, hevents, hvisit⟩ : ∃ events,
        _ ∧ Link.Visit g.resolver.admin Link.CallsOf events :=
      during_writes (replaceAcl_writes path aces) g
    exact ⟨[], events, hevents, ⟨[], rfl⟩, .inr ⟨hp (Bool.and_eq_true_iff.1 h).1, hadmin ▸ hvisit⟩⟩
  · obtain ⟨events, hevents, hcalls⟩ := replaceAcl_writes path aces session g
    exact ⟨events, [], by rw [List.append_nil]; exact hevents, hcalls, .inl rfl⟩

theorem changeAcl_writes (hcache : g.cache = f.cache) (hstore : g.link.store = f.link.store)
    (hlist : g.allowList = f.allowList) (hadmin : g.resolver.admin = f.resolver.admin)
    (aces : List Ace) (session : Session) :
    ∃ own extra, trace (changeAcl user path aces session g).2 = trace g ++ (own ++ extra) ∧
      f.ChangeWrites user path session own extra := by
  have hprofile : Acts (fun _ => False) Cache.Minor (fun _ _ => False) (some session)
      (userProfile session user.name) :=
    .userProfile (fun _ h => h) session user.name
  obtain ⟨own, hown, hrecord⟩ := hprofile.writes g
  have hkeeps : Keeps (fun f : Facade => (f.allowList, f.resolver))
      (userProfile session user.name) :=
    hprofile.keeps (fun _ _ => rfl) (fun _ _ => rfl) fun _ _ _ => rfl
  have hkept := hkeeps g
  have hanswer := userProfile_answers f session user.name g ⟨hcache, hstore⟩
  rw [changeAcl, bind_apply]
  rcases hu : (userProfile session user.name g : Except FacadeError UserProfile ×
    Facade) with ⟨e | profile, g'⟩ <;>
    rw [hu] at hown hkept hanswer
  · exact ⟨own, [], by rw [List.append_nil]; exact hown, hrecord.callsOf rfl, .inl rfl⟩
  · obtain ⟨hlist', hresolver'⟩ := Prod.mk.inj hkept
    have hprivileged : (decide (profile.type = .admin) ||
        g'.allowList.allows user.name profile.groups path) = true →
        f.Privileged user path := fun h => by
      rw [Bool.or_eq_true, decide_eq_true_eq, hlist', hlist] at h
      exact privileged_of_profile hanswer h
    obtain ⟨own', extra, hevents, hwrites⟩ :=
      changeAclWith_writes hprivileged
        ((congrArg Resolver.admin hresolver').trans hadmin) aces session
    refine ⟨own ++ own', extra, ?_, (hrecord.callsOf rfl).append hwrites.own, hwrites.extra⟩
    exact hevents.trans (by rw [hown]; simp only [List.append_assoc])

def Exceeds (f : Facade) (uid : UInt32) (handle : Handle) (events : List Event) : Prop :=
  ∃ user path, (resolve uid f).1 = .ok user ∧ f.registry.pathOf? handle = some path ∧
    f.Privileged user path ∧
    Link.Visit f.resolver.admin Link.CallsOf events

/-- The events are the caller's, but for a visit of the administrator's among them if the caller is
privileged. -/
def Sanctioned (f : Facade) (uid : UInt32) (handle : Handle) (events : List Event) : Prop :=
  ∃ own extra own', events = own ++ extra ++ own' ∧ f.Own (some uid) (own ++ own') ∧
    (extra = [] ∨ f.Exceeds uid handle extra)

section Sanctioned
variable {handle : Handle}

theorem Sanctioned.of_own (h : f.Own (some uid) events) : f.Sanctioned uid handle events :=
  ⟨events, [], [], by simp, by simpa using h, .inl rfl⟩

theorem Sanctioned.after {earlier : List Event} (h : f.Own (some uid) earlier)
    (h' : f.Sanctioned uid handle events) :
    f.Sanctioned uid handle (earlier ++ events) := by
  obtain ⟨own, extra, own', rfl, hown, hextra⟩ := h'
  refine ⟨earlier ++ own, extra, own', by simp only [List.append_assoc], ?_, hextra⟩
  rw [List.append_assoc]
  exact h.append hown

theorem Sanctioned.of_change (hr : f.resolver.Coherent) (huser : (resolve uid f).1 = .ok user)
    (hp : f.registry.pathOf? handle = some path) (h : Link.Visit user.account (fun session events =>
      ∃ own extra, events = own ++ extra ∧ f.ChangeWrites user path session own extra) events) :
    f.Sanctioned uid handle events := by
  have hname := callerName?_of_resolve huser
  have hclient := clientUser_of_resolve hr huser
  cases h with
  | refused => exact .of_own (.of_visit hname hclient .refused)
  | @made session _ owner inside =>
    obtain ⟨own, extra, rfl, hwrites⟩ := inside
    have hown : f.Own (some uid) _ := .of_visit hname hclient (.made owner hwrites.own)
    refine ⟨.asked user.account.clientUser :: .opened session :: own, extra,
      [.closed session], by simp, hown, ?_⟩
    exact hwrites.extra.imp_right fun ⟨hprivileged, hadmin⟩ =>
      ⟨user, path, huser, hp, hprivileged, hadmin⟩

end Sanctioned

theorem setAcl_writes (hr : f.resolver.Coherent) (uid : UInt32) (handle : Handle)
    (aces : List Ace) :
    ∃ events, trace (setAcl uid handle aces f).2 = trace f ++ events ∧
      f.Sanctioned uid handle events := by
  obtain ⟨asked, hasked, hown⟩ := resolve_own f uid
  rw [setAcl_eq]
  split
  · exact ⟨[], (List.append_nil _).symm, .of_own (.nil f _)⟩
  · have hstore : (resolve uid f).2.link.store = f.link.store :=
      f.resolver.store_resolve f.identities uid f.link
    have hadmin : (resolve uid f).2.resolver.admin = f.resolver.admin := Resolver.admin_resolve ..
    have hsame : (resolve uid f).2.cache = f.cache ∧ (resolve uid f).2.allowList = f.allowList ∧
      (resolve uid f).2.registry = f.registry := ⟨rfl, rfl, rfl⟩
    rw [bind_apply]
    rcases hu : (resolve uid f : Except FacadeError Principal × Facade) with ⟨e | user, g⟩ <;>
      rw [hu] at hasked hstore hadmin hsame
    · exact ⟨asked, hasked, .of_own hown⟩
    · obtain ⟨hcache, hlist, hregistry⟩ := hsame
      dsimp only
      rw [bind_apply, pathOf_apply, hregistry]
      cases hp : f.registry.pathOf? handle with
      | none => exact ⟨asked, hasked, .of_own hown⟩
      | some path =>
        obtain ⟨visited, hvisited, hvisit⟩ : ∃ visited,
            trace (during user.account (changeAcl user path aces) g).2 =
            trace g ++ visited ∧ Link.Visit user.account (fun session events =>
              ∃ own extra, events = own ++ extra ∧
                f.ChangeWrites user path session own extra) visited :=
          during_writes_at fun session l _ hl => by
            obtain ⟨own, extra, hevents, hwrites⟩ :=
              changeAcl_writes (g := { g with link := l }) hcache
                (hl.trans hstore) hlist hadmin aces session
            exact ⟨own ++ extra, hevents, own, extra, rfl, hwrites⟩
        refine ⟨asked ++ visited, hvisited.trans (by rw [hasked, List.append_assoc]),
          .after hown ?_⟩
        exact .of_change hr (congrArg Prod.fst hu) hp hvisit

/-! ## All operations -/

theorem caller_or_setAcl (operation : Operation) :
    (∀ user account, operation.MayActFor user account → account = user.account) ∨
      ∃ uid handle aces, operation = .setAcl uid handle aces := by
  cases operation with
  | setAcl uid handle aces => exact .inr ⟨uid, handle, aces, rfl⟩
  | _ => exact .inl fun _ _ h => h

/-- What an operation writes down is the caller's, in sessions that it opened, but for one visit of
the administrator's in a change of an access list, and that only if the caller is privileged. The
caller is whom the number stands for. -/
theorem operations_act_for_caller (hr : f.resolver.Arisen) (operation : Operation) :
    ∃ own extra own', trace (perform operation f).2 = trace f ++ (own ++ extra ++ own') ∧
      (∀ e ∈ own ++ own', ∃ uid,
        operation.caller? = some uid ∧ f.resolver.callerName? f.identities uid = some e.user) ∧
      (∀ session c, .called session c ∈ own ++ own' → .opened session ∈ own ++ own') ∧
      (∀ uid user, operation.caller? = some uid → (resolve uid f).1 = .ok user →
        f.resolver.callerName? f.identities uid = some user.name) ∧
      (extra = [] ∨ ∃ uid handle aces user path,
        operation = .setAcl uid handle aces ∧ (resolve uid f).1 = .ok user ∧
        f.registry.pathOf? handle = some path ∧
        ((f.profileFor user.name).type = .admin ∨
          f.allowList.allows user.name (f.profileFor user.name).groups path = true) ∧
        Link.Visit f.resolver.admin Link.CallsOf extra) := by
  rcases caller_or_setAcl operation with hfor | ⟨uid, handle, aces, rfl⟩
  · obtain ⟨events, hevents, hown⟩ := (perform_onBehalf operation).writes hfor f hr.coherent
    refine ⟨events, [],
      [], by simpa using hevents, ?_, ?_, fun uid user _ => callerName?_of_resolve, .inl rfl⟩
    · simpa using hown.users
    · simpa using hown.opened
  · obtain ⟨_, hevents, own, extra, own', rfl, hown, hextra⟩ :=
      setAcl_writes hr.coherent uid handle aces
    have hperform : trace (perform (.setAcl uid handle aces) f).2 =
        trace (setAcl uid handle aces f).2 :=
      congrArg trace (state_of_answer (setAcl uid handle aces) (fun _ => Answer.done) f)
    refine ⟨own, extra, own', hperform.trans hevents, hown.users, hown.opened,
      fun uid user _ => callerName?_of_resolve, ?_⟩
    exact hextra.imp_right fun ⟨user, path, huser, hp, hprivileged, hvisit⟩ =>
      ⟨uid, handle, aces, user, path, rfl, huser, hp, hprivileged, hvisit⟩

/-! Somebody whom the allow-list names for all paths changes the access list of their home. -/

def listedMount : Except FacadeError Facade :=
  let people := Identities.empty.addUser "alice" 1000 1000
  (mount (.ofServer (.ofStore sharedStore)) people (.new people sampleAccount .asKept)
    { AllowList.new sampleAccount "k" with allowed := AllowList.collect [("alice", "/z")] }
    ⟨Store.homeOf "z" "alice", "z", true, .default⟩).1

theorem listed_caller_goes_further :
    ∃ f user path, listedMount = .ok f ∧ (resolve 1000 f).1 = .ok user ∧
    user.name = "alice" ∧ f.registry.pathOf? 1 = some path ∧ f.Privileged user path ∧
    ∃ e ∈ (trace (perform (.setAcl 1000 1 (readOnly .none)) f).2).drop (trace f).length,
      e.user = "rods" := by
  have hchecks : listedMount.toOption.any (fun f =>
      decide ((resolve 1000 f).1.toOption.map Principal.name = some "alice") &&
        ((trace (perform (.setAcl 1000 1 (readOnly .none)) f).2).drop (trace f).length).any
        (fun e => e.user == "rods")) =
      true := by decide +kernel
  obtain ⟨f, hm, hchecks⟩ := exists_of_any hchecks
  rw [Bool.and_eq_true, decide_eq_true_eq, List.any_eq_true] at hchecks
  obtain ⟨halice, e, he, hrods⟩ := hchecks
  have hrods : e.user = "rods" := by simpa using hrods
  obtain ⟨user, huser, hname⟩ := Option.map_eq_some_iff.1 halice
  have huser := eq_ok_of_toOption huser
  have hr : f.resolver.Arisen := by
    obtain ⟨rootObjectId, link, registry, -, -, rfl⟩ := mount_eq_ok hm
    exact .new _ _ _
  obtain ⟨own, extra, own', htrace, hown, -, hcaller, hextra⟩ :=
    operations_act_for_caller hr (.setAcl 1000 1 (readOnly .none))
  have hnew : e ∈ own ++ extra ++ own' := by rwa [htrace, List.drop_left] at he
  rcases hextra with rfl | ⟨uid, handle, aces, user', path, heq, huser', hp, hprivileged, -⟩
  · -- were all events the caller's, this one would be alice's
    rw [List.append_nil] at hnew
    obtain ⟨uid, hasks, hmine⟩ := hown e hnew
    cases hasks
    rw [hcaller 1000 user rfl huser, hname, hrods] at hmine
    exact absurd hmine (by decide)
  · cases heq
    obtain rfl : user' = user := Except.ok.inj (huser'.symm.trans huser)
    exact ⟨f, user', path, hm, huser, hname, hp, hprivileged, e, he, hrods⟩

end StoreMount.Facade
