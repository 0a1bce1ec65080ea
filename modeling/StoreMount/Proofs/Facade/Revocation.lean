import StoreMount.Proofs.Facade.Recall

/-!
# Listings after a right has been taken away

The store shows the children of a collection to those who have level read on it. A facade keeps what
it was shown, under the name of the account that it asked for and the place, with the modification
time that the collection had. It shows this again as long as the collection carries that time still.
But a change of an access list is no modification, and makes nothing forget listings. So whoever is
shown a listing has level read, or had it when the collection was last fetched for them, which is
not too long ago, and access lists have been changed since.
-/
namespace StoreMount.Facade

variable {f : Facade} {uid : UInt32} {directory : Handle} {cookie : Nat} {user : Principal}
    {path : Path} {o : StoredObject}

structure Reaches (f : Facade) (uid : UInt32) (directory : Handle) (user : Principal) (path : Path)
    (o : StoredObject) : Prop where
  caller : (resolve uid f).1 = .ok user
  mapped : f.registry.pathOf? directory = some path
  there : f.link.store.object? path = some o

/-- The store shows the account what is in the object. -/
structure Fetches (f : Facade) (uid : UInt32) (directory : Handle) (user : Principal) (path : Path)
    (o : StoredObject) : Prop
    extends f.Reaches uid directory user path o where
  permitted : f.link.store.permits user.name o .read = true

/-- Nobody else changes the store. -/
def Undisturbed (f : Facade) (happenings : List Happening) : Prop :=
  ∀ before link after, happenings = before ++ .link link :: after →
    link.store = (f.live before).link.store

/-! ## One listing -/

inductive Lists (f : Facade) (uid : UInt32) (directory : Handle) :
    Except FacadeError (List DirEntry) → Table (String × Place) (Stamped Listing) → Prop
  | failed (e : FacadeError) : Lists f uid directory (.error e) f.cache.listingFor
  | kept {user : Principal} {path : Path} {o : StoredObject} {listing : Listing}
      (h : f.Reaches uid directory user path o)
      (found : f.cache.listing? user.name path = some listing)
      (current : listing.marker = o.modifiedAt)
      (answer : Except FacadeError (List DirEntry)) :
        Lists f uid directory answer f.cache.listingFor
  | fetched {user : Principal} {path : Path} {o : StoredObject}
      (h : f.Fetches uid directory user path o)
      (entries : List ListingEntry) (answer : Except FacadeError (List DirEntry)) :
        Lists f uid directory answer
        (f.cache.listingFor.insert (user.name, path.place) (f.cache.stamp ⟨entries, o.modifiedAt⟩))

def listings (f : Facade) : Table (String × Place) (Stamped Listing) := f.cache.listingFor

def Still (f g : Facade) : Prop := g.ground = f.ground ∧ g.cache = f.cache

theorem Still.listings {g : Facade} (h : f.Still g) : g.listings = f.cache.listingFor :=
  congrArg Cache.listingFor h.2

variable {α : Type}

theorem still_of {m : FacadeM α} {C : α → Prop} (hcache : Keeps Facade.cache m)
    (h : Triple (ground · = f.ground) m (fun a g => g.ground = f.ground ∧ C a)
      (fun _ g => g.ground = f.ground)) :
    Triple f.Still m (fun a g => f.Still g ∧ C a) (fun _ g => f.Still g) :=
  (h.and (hcache.triple f.cache)).weaken (fun _ h => h) (fun _ _ h => ⟨⟨h.1.1, h.2⟩, h.1.2⟩)
    fun _ _ h => h

theorem stat_still (session : Session) (path : Path) :
    Triple f.Still (call (Link.stat session path))
    (fun status g => f.Still g ∧ ∃ o,
      f.link.store.object? path = some o ∧ o.modifiedAt = status.modifiedAt)
    (fun _ g => f.Still g) := still_of (fun _ => rfl) (stat_triple session path f.ground)

theorem list_still (session : Session) (path : Path) :
    Triple f.Still (call (Link.list session path))
    (fun entries g => f.Still g ∧ f.link.store.list session.user path = .ok entries)
    (fun _ g => f.Still g) := by
  refine still_of (fun _ => rfl)
    ((call_triple (Q := fun entries s => s = f.link.store ∧ f.link.store.list session.user path =
    .ok entries) (Link.ask_triple session _ _ f.link.store)).weaken
      (fun _ h => h) ?_ fun _ _ h => h)
  rintro entries g ⟨s, ⟨rfl, hlist⟩, hg⟩
  exact ⟨hg, hlist⟩

theorem connect_still (account : Account) : Triple f.Still (call (Link.connect account))
    (fun session g => f.Still g ∧ session.user = account.clientUser) (fun _ g => f.Still g) := by
  rintro g ⟨hground, hcache⟩
  have howner := Link.connect_writes account g.link.trace g.link rfl
  have hstore := Link.keeps_connect account g.link
  simp only [call]
  rcases hc : (Link.connect account g.link : Except StoreError Session × Link) with ⟨e | session, l⟩
    <;> rw [hc] at howner hstore
  · exact ⟨(Quiet.link g l hstore).trans hground, hcache⟩
  · exact ⟨⟨(Quiet.link g l hstore).trans hground, hcache⟩, howner.1⟩

theorem currentListing_lists (h : f.Reaches uid directory user path o) {status : Status}
    (ht : o.modifiedAt = status.modifiedAt) {session : Session} (hs : session.user = user.name) :
    Triple f.Still (currentListing session user path status)
      (fun _ g => ∀ answer, f.Lists uid directory answer g.listings)
      (fun e g => f.Lists uid directory (.error e) g.listings) := by
  refine Triple.bind Triple.of_get fun c => ?_
  split
  · next listing hfound =>
    refine Triple.of_pure ?_
    rintro g ⟨rfl, hg⟩ answer
    obtain ⟨hkept, hmarker⟩ := Option.filter_eq_some_iff.1 hfound
    exact hg.listings ▸ .kept h (hg.2 ▸ hkept) ((of_decide_eq_true hmarker).trans ht.symm) answer
  · refine Triple.bind ((list_still session path).weaken (fun _ h => h.2)
        (fun _ _ h => h) fun e g hg => ?_) fun entries =>
      Triple.of_known fun hlist => ?_
    · exact hg.listings ▸ .failed e
    · rintro g ⟨-, hcache⟩ answer
      obtain ⟨o', ho', hpermits⟩ := Store.permits_of_list hlist
      obtain rfl := Option.some.inj (ho'.symm.trans h.there)
      change f.Lists uid directory answer (g.cache.listingFor.insert _ (g.cache.stamp _))
      rw [hcache, ← ht]
      exact .fetched ⟨h, hs ▸ hpermits⟩ entries answer

def listWith (user : Principal) (path : Path) (cookie : Nat) (session : Session) :
    FacadeM (List DirEntry) := do
  let status ← call (Link.stat session path)
  if !status.kind.isCollection then throw (.notADirectory path.text)
  let listing ← currentListing session user path status
  listEntries session user path cookie firstCookie listing.entries

theorem list_eq (uid : UInt32) (directory : Handle) (cookie : Nat) : list uid directory cookie =
    resolve uid >>= fun user =>
      pathOf directory >>= fun path => during user.account (listWith user path cookie) := rfl

theorem listWith_lists (hcaller : (resolve uid f).1 = .ok user)
    (hp : f.registry.pathOf? directory = some path) {session : Session}
    (hs : session.user = user.name) (cookie : Nat) :
    Triple f.Still (listWith user path cookie session)
      (fun lines g => f.Lists uid directory (.ok lines) g.listings)
      (fun e g => f.Lists uid directory (.error e) g.listings) := by
  have hfailed : ∀ e g, f.Still g → f.Lists uid directory (.error e) g.listings :=
    fun e g hg => hg.listings ▸ .failed e
  refine Triple.bind
      ((stat_still session path).weaken (fun _ h => h) (fun _ _ h => h) hfailed) fun status =>
    Triple.of_known ?_
  rintro ⟨o, ho, ht⟩
  split
  · exact Triple.of_throw (hfailed _)
  · refine Triple.bind (currentListing_lists ⟨hcaller, hp, ho⟩ ht hs) fun listing => ?_
    -- the lines change no listing, whether they can all be made or not
    have hacts : Acts (fun _ => False) Cache.Minor (fun _ _ => False) (some session)
        (listEntries session user path cookie firstCookie listing.entries) :=
      .listEntries (fun _ h => h) session user path cookie firstCookie listing.entries
    have hlines : Keeps listings
        (listEntries session user path cookie firstCookie listing.entries) :=
      hacts.keeps (fun _ _ => rfl) (fun _ _ => rfl) fun f _ hc => congrArg (·.2.2.1) (hc f.cache)
    refine Triple.of_view (C := fun t => ∀ answer, f.Lists uid directory answer t) fun t ht => ?_
    exact (hlines.triple t).weaken (fun _ h => h) (fun _ _ h => h ▸ ht _) fun _ _ h => h ▸ ht _

theorem during_lists (hcaller : (resolve uid f).1 = .ok user)
    (hp : f.registry.pathOf? directory = some path) (hu : user.account.clientUser = user.name)
    (cookie : Nat) {g : Facade} (hg : f.Still g) :
    f.Lists uid directory (during user.account (listWith user path cookie) g).1
      (during user.account (listWith user path cookie) g).2.listings := by
  have hconnect := connect_still user.account g hg
  rw [during, bind_apply]
  rcases hc : (call (Link.connect user.account) g : Except FacadeError Session ×
    Facade) with ⟨e | session, g'⟩ <;>
    rw [hc] at hconnect
  · exact hconnect.listings ▸ .failed e
  · have hlists := listWith_lists hcaller hp (hconnect.2.trans hu) cookie g' hconnect.1
    dsimp only
    rcases hb : (listWith user path cookie session g' : Except FacadeError (List DirEntry) ×
      Facade) with ⟨e | lines, g''⟩ <;>
      rw [hb] at hlists <;> exact hlists

theorem list_lists (hr : f.resolver.Coherent) (uid : UInt32) (directory : Handle) (cookie : Nat) :
    f.Lists uid directory (list uid directory cookie f).1
      (list uid directory cookie f).2.listings := by
  have hstill : f.Still (resolve uid f).2 := ⟨keeps_resolve uid f, rfl⟩
  rw [list_eq, bind_apply]
  rcases hu : (resolve uid f : Except FacadeError Principal × Facade) with ⟨e | user, g⟩
    <;> rw [hu] at hstill
  · exact hstill.listings ▸ .failed e
  · have huser : (resolve uid f).1 = .ok user := congrArg Prod.fst hu
    dsimp only
    rw [bind_apply, pathOf_apply,
      show g.registry = f.registry from congrArg Ground.registry hstill.1]
    cases hp : f.registry.pathOf? directory with
    | none => exact hstill.listings ▸ .failed _
    | some path => exact during_lists huser hp (hr.clientUser_of_resolve huser) cookie hstill

/-! ## What happens -/

theorem perform_list (f : Facade) (uid : UInt32) (directory : Handle) (cookie : Nat) :
    (perform (.list uid directory cookie) f).2 = (list uid directory cookie f).2 :=
  state_of_answer ..

theorem perform_listings (operation : Operation)
    (h : ∀ uid directory cookie, operation ≠ .list uid directory cookie) :
    Keeps listings (perform operation) := by
  refine (perform_onBehalf operation).keeps (fun _ _ => rfl) (fun _ _ => rfl)
    (fun _ _ => rfl) fun f change hc => ?_
  cases hc with
  | minor hminor => exact congrArg (·.2.2.1) (hminor f.cache)
  | listing => exact absurd rfl (h _ _ _)
  | decision => rfl

inductive Adds (f : Facade) : Happening → Table (String × Place) (Stamped Listing) → Prop
  | same (happening : Happening) : Adds f happening f.cache.listingFor
  | fetched {uid : UInt32} {directory : Handle} {user : Principal} {path : Path} {o : StoredObject}
      (h : f.Fetches uid directory user path o) (cookie : Nat) (entries : List ListingEntry) :
      Adds f (.own (.ask (.list uid directory cookie)))
        (f.cache.listingFor.insert (user.name, path.place) (f.cache.stamp ⟨entries, o.modifiedAt⟩))

theorem happen_adds (hr : f.resolver.Coherent) (happening : Happening) :
    f.Adds happening (f.happen happening).listings := by
  cases happening with
  | own move =>
    cases move with
    | pause milliseconds => exact .same _
    | ask operation =>
      change f.Adds _ (perform operation f).2.listings
      by_cases hlist : ∃ uid directory cookie, operation = .list uid directory cookie
      · obtain ⟨uid, directory, cookie, rfl⟩ := hlist
        rw [perform_list]
        have hlists := list_lists hr uid directory cookie
        generalize (list uid directory cookie f).1 = answer at hlists
        generalize (list uid directory cookie f).2.listings = t at hlists ⊢
        cases hlists with
        | failed | kept => exact .same _
        | fetched h entries => exact .fetched h cookie entries
      · rw [perform_listings operation
          (fun uid directory cookie he => hlist ⟨uid, directory, cookie, he⟩) f]
        exact .same _
  | link | identities | purge => exact .same _

theorem arisen_live (h : f.resolver.Arisen) (happenings : List Happening) :
    (f.live happenings).resolver.Arisen := by
  refine live_invariant (C := (·.resolver.Arisen)) (fun g happening hg => ?_) h happenings
  rcases g.resolver_happen happening with hr | ⟨number, l, hr⟩ | ⟨-, hr⟩ <;> rw [hr]
  · exact hg
  · exact hg.resolve _ number l
  · exact hg.purged _

/-! ## Where a kept listing comes from -/

variable {happenings before : List Happening} {name : String} {place : Place} {marker : Instant}

/-- What came after `before` fetched a collection with that modification time, at the place and for
an account of that name. -/
def Fetched (f : Facade) (happenings before after : List Happening) (name : String) (place : Place)
    (marker : Instant) : Prop :=
  ∃ uid directory cookie user path o,
    happenings = before ++ .own (.ask (.list uid directory cookie)) :: after ∧
    (f.live before).Fetches uid directory user path o ∧ user.name = name ∧ path.place = place ∧
      o.modifiedAt = marker

theorem fetched_of_listingFor (hf : f.cache.listingFor = .empty) (hr : f.resolver.Arisen)
    {listing : Listing} {since : Nat}
    (h : (f.live happenings).cache.listingFor.get? (name, place) = some ⟨listing, since⟩) :
    ∃ before after, f.Fetched happenings before after name place listing.marker ∧
      since = (f.live before).cache.now := by
  obtain ⟨before, happening, after, rfl, uid, directory, cookie, user, path, o, rfl, hfetched,
    hsince⟩ := exists_origin
    (P := fun before => (f.live before).listings.get? (name, place) = some ⟨listing, since⟩)
    (B := fun before happening => ∃ uid directory cookie user path o,
      happening = .own (.ask (.list uid directory cookie)) ∧
      ((f.live before).Fetches uid directory user path o ∧ user.name = name ∧ path.place = place ∧
        o.modifiedAt = listing.marker) ∧ since = (f.live before).cache.now)
    h (fun hnil => by rw [listings, show f.live [] = f from rfl, hf] at hnil; simp at hnil)
        fun before happening hfound => by
      have hadds := happen_adds (arisen_live hr before).coherent happening
      rw [live_concat] at hfound
      generalize ((f.live before).happen happening).listings = t at hfound hadds
      cases hadds with
      | same => exact .inl hfound
      | @fetched uid directory user path o hfetches cookie entries =>
        rw [Table.get?_insert] at hfound
        split at hfound
        · next hkey =>
          cases hkey
          cases hfound
          exact .inr ⟨uid, directory, cookie, user, path, o, rfl, ⟨hfetches, rfl, rfl, rfl⟩, rfl⟩
        · exact .inl hfound
  exact ⟨before, after, ⟨uid, directory, cookie, user, path, o, rfl, hfetched⟩, hsince⟩

/-! ## Access lists that nobody changes -/

theorem Undisturbed.left {earlier later : List Happening} (h : f.Undisturbed (earlier ++ later)) :
    f.Undisturbed earlier :=
  fun before l after he => h before l (after ++ later) (by simp [he])

theorem Undisturbed.right {earlier later : List Happening} (h : f.Undisturbed (earlier ++ later)) :
    (f.live earlier).Undisturbed later := fun before l after he => by
  rw [h (earlier ++ before) l after (by simp [he]), live_append]

theorem sustains_live {C : Store → Prop} (hu : f.Undisturbed happenings)
    (hC : ∀ operation, .own (.ask operation) ∈ happenings → ∀ s s', operation.MayDo s s' → C s →
      C s') (h : C f.link.store) : C (f.live happenings).link.store := by
  induction happenings using List.reverseRecOn with
  | nil => exact h
  | append_singleton happenings happening ih =>
    have hbefore := ih hu.left fun operation ho => hC operation (List.mem_append_left _ ho)
    rw [live_concat]
    cases happening with
    | own move =>
      cases move with
      | pause milliseconds => exact hbefore
      | ask operation =>
        exact (perform_onBehalf operation).sustains (hC operation (by simp)) _ hbefore
    | link l => exact (congrArg C (hu happenings l [] rfl)).mpr hbefore
    | identities | purge => exact hbefore

theorem timed_live (hu : f.Undisturbed happenings)
    (ht : Store.Timed f.link.store.objects f.link.store.clock) :
    Store.Timed (f.live happenings).link.store.objects (f.live happenings).link.store.clock :=
  sustains_live (C := fun s => Store.Timed s.objects s.clock) hu
    (fun _ _ _ _ hdone ht => ht.effect (Operation.effect_of_mayDo hdone)) ht

theorem permits_live (hu : f.Undisturbed happenings)
    (ht : Store.Timed f.link.store.objects f.link.store.clock)
    (hacl : ∀ uid handle aces, .own (.ask (.setAcl uid handle aces)) ∉ happenings)
    (ho : f.link.store.object? path = some o) {path' : Path} {o' : StoredObject}
    (ho' : (f.live happenings).link.store.object? path' = some o')
    (he : o'.modifiedAt = o.modifiedAt) (name : String) (level : Level) :
    (f.live happenings).link.store.permits name o' level = f.link.store.permits name o level := by
  have husers : (f.live happenings).link.store.users = f.link.store.users :=
    sustains_live (C := (Store.users · = f.link.store.users)) hu
      (fun _ _ _ _ hdone h => (Operation.effect_of_mayDo hdone).users.trans h) rfl
  have hmarked : (f.live happenings).link.store.Marked o.modifiedAt o.acl := by
    refine sustains_live (C := (Store.Marked · o.modifiedAt o.acl)) hu
      (fun operation hmem s s' hdone => ?_) (ht.marked ho)
    have halters : s.Alters s' :=
      Operation.alters_of_mayDo (fun uid handle aces he => hacl uid handle aces (he ▸ hmem)) hdone
    exact halters.2 _ _
  simp only [Store.permits, Store.isAdmin, Store.levelOf?, Store.groupsOf, husers,
    hmarked.acl path'.place o' ho' he]

/-! ## Who is shown a listing -/

variable {link : Link} {ids : Identities} {resolver : Resolver} {allowList : AllowList}
    {options : Options}

/-- In a reachable store that nobody else changes, whoever is shown a listing is an administrator or
has level read on the collection, or what is shown is kept from an earlier listing. That was of the
same collection, unmodified since, and for an account of the same name that had level read then, and
is not too old yet, and an access list has been changed since. -/
theorem listing_permitted_unless_kept (hs : link.store.Reachable) (hr : resolver.Arisen)
    (hm : (mount link ids resolver allowList options).1 = .ok f) (hu : f.Undisturbed happenings)
    {lines : List DirEntry} (h : (list uid directory cookie (f.live happenings)).1 = .ok lines) :
    ∃ user path o, (f.live happenings).Reaches uid directory user path o ∧
      ((f.live happenings).link.store.permits user.name o .read = true ∨
        ∃ before after, f.Fetched happenings before after user.name path.place o.modifiedAt ∧
          (f.live happenings).cache.now < (f.live before).cache.now + options.lifetimes.listing ∧
          ∃ number handle aces, .own (.ask (.setAcl number handle aces)) ∈ after) := by
  have hmounted := mounted hm
  have htimed : Store.Timed f.link.store.objects f.link.store.clock :=
    hmounted.store.symm ▸ hs.timed
  have harisen : f.resolver.Arisen := by
    obtain ⟨rootObjectId, l, registry, -, -, rfl⟩ := mount_eq_ok hm
    exact hr
  have hlists := list_lists (arisen_live harisen happenings).coherent uid directory cookie
  rw [h] at hlists
  generalize (list uid directory cookie (f.live happenings)).2.listings = t at hlists
  cases hlists with
  | @fetched user path o hfetches =>
    exact ⟨user, path, o, hfetches.toReaches, .inl hfetches.permitted⟩
  | @kept user path o listing hreaches hfound hcurrent =>
    obtain ⟨since, hfound, hrecent⟩ := Cache.fresh_eq_some_iff.1 hfound
    obtain ⟨before, after, hfetched, rfl⟩ :=
      fetched_of_listingFor (by rw [hmounted.cache]; rfl) harisen hfound
    rw [hcurrent] at hfetched
    rw [live_lifetimes, hmounted.cache] at hrecent
    refine ⟨user, path, o, hreaches, ?_⟩
    by_cases hacl : ∃ number handle aces, .own (.ask (.setAcl number handle aces)) ∈ after
    · exact .inr ⟨before, after, hfetched, hrecent, hacl⟩
    · obtain ⟨uid', directory', cookie', user', path', o', rfl, hfetches, hname, -, htime⟩ :=
        hfetched
      have hunchanged := permits_live hu.right (timed_live hu.left htimed)
        (fun number handle aces hmem => hacl ⟨number, handle, aces, by simpa using hmem⟩)
          hfetches.there
        (live_append f before _ ▸ hreaches.there) htime.symm user.name .read
      rw [← live_append] at hunchanged
      exact .inl (hunchanged.trans (hname ▸ hfetches.permitted))

/-! Somebody with whom a home is shared looks at it, before or after the home's owner has left level
read to one name only. -/

theorem undisturbed_of_own (moves : List Move) : f.Undisturbed (moves.map .own) :=
    fun before l after he => by
  have hmem : Happening.link l ∈ moves.map .own := by simp [he]
  simp at hmem

def looking : Move := .ask (.list 1001 1 0)

def leaving (name : String) : Move := .ask (.setAcl 1000 1 [⟨name, .allow, .none, .readData⟩])

theorem kept_listing_within_rights : ∃ f lines user path o, jointMount = .ok f ∧
    (list 1001 1 0 (f.live ([leaving "bob", looking].map .own))).1 = .ok lines ∧
    (f.live ([leaving "bob", looking].map .own)).Reaches 1001 1 user path o ∧
    (f.live ([leaving "bob", looking].map .own)).link.store.permits user.name o .read = true := by
  have hchecks : jointMount.toOption.any (fun f =>
      (list 1001 1 0 (f.live ([leaving "bob", looking].map .own))).1.toOption.isSome) = true := by
        decide +kernel
  obtain ⟨f, hm, hchecks⟩ := exists_of_any hchecks
  obtain ⟨lines, hlines⟩ := Option.isSome_iff_exists.1 hchecks
  have hs : (Link.ofServer (.ofStore jointStore)).store.Reachable := jointStore_reachable
  obtain ⟨user, path, o, hreaches, hpermits⟩ :=
    listing_permitted_unless_kept hs (.new _ _ _) hm (undisturbed_of_own _)
      (eq_ok_of_toOption hlines)
  refine ⟨f, lines, user, path, o, hm, eq_ok_of_toOption hlines, hreaches,
    hpermits.resolve_right ?_⟩
  rintro ⟨before, after, ⟨uid, directory, cookie, user', path', o', heq, -⟩, -, number,
    handle, aces, hmem⟩
  -- nothing comes after the look
  rcases before with _ | ⟨first, _ | ⟨second, before⟩⟩
  · simp [leaving] at heq
  · simp only [List.map_cons, List.map_nil, List.cons_append, List.nil_append,
      List.cons.injEq] at heq
    rw [← heq.2.2] at hmem
    cases hmem
  · simp at heq

theorem kept_listing_outlives_right :
    ¬∀ (link : Link) (ids : Identities) (resolver : Resolver) (allowList : AllowList)
    (options : Options) (f : Facade), link.store.Reachable → resolver.Arisen →
      (mount link ids resolver allowList options).1 = .ok f →
        ∀ (happenings : List Happening) (uid : UInt32) (directory : Handle) (cookie : Nat)
          (lines : List DirEntry),
          f.Undisturbed happenings → (list uid directory cookie (f.live happenings)).1 = .ok lines →
            ∃ user path o, (f.live happenings).Reaches uid directory user path o ∧
              (f.live happenings).link.store.permits user.name o .read = true := by
  intro hpermitted
  have hchecks : jointMount.toOption.any (fun f =>
      let g := f.live ([looking, leaving "rods"].map .own)
      decide ((resolve 1001 g).1.toOption.map Principal.name = some "bob" ∧
        g.registry.pathOf? 1 = some (Store.homeOf "z" "alice") ∧
        (g.link.store.object? (Store.homeOf "z" "alice")).map
        (g.link.store.permits "bob" · .read) = some false ∧
        (list 1001 1 0 g).1.toOption.isSome = true)) = true := by decide +kernel
  obtain ⟨f, hm, hchecks⟩ := exists_of_any hchecks
  obtain ⟨hbob, hpath, hdenied, hshown⟩ := of_decide_eq_true hchecks
  obtain ⟨lines, hlines⟩ := Option.isSome_iff_exists.1 hshown
  have hs : (Link.ofServer (.ofStore jointStore)).store.Reachable := jointStore_reachable
  obtain ⟨user, path, o, hreaches, hpermits⟩ :=
    hpermitted _ _ _ _ _ f hs (.new _ _ _) hm _ 1001 1 0 lines (undisturbed_of_own _)
      (eq_ok_of_toOption hlines)
  obtain rfl := Option.some.inj (hpath.symm.trans hreaches.mapped)
  rw [hreaches.caller] at hbob
  have hname : user.name = "bob" := Option.some.inj hbob
  rw [hreaches.there, Option.map_some, ← hname, hpermits] at hdenied
  cases hdenied

end StoreMount.Facade
