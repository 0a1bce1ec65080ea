import StoreMount.Proofs.Facade.Quiet
import StoreMount.Proofs.Link.Trace
import StoreMount.Proofs.Store.Regrants

/-!
# What operations are made of

An operation looks at the facade, changes its registry and its caches, makes calls in a session, and
opens sessions for accounts. It is nothing but these acts, one after the other, and what they are is
settled here once for all operations. So whatever each kind of act keeps, an operation keeps.

An operation that is asked by a number finds out first who that is. What it does afterwards it does
in sessions for that account. One operation can go further, the one that changes an access list.
-/
namespace StoreMount

def Cache.lasting (c : Cache) : Lifetimes × Nat × Table (String × Place) (Stamped Listing) ×
    Table (UInt32 × UInt32 × Place) (Stamped Decision) :=
  (c.lifetimes, c.now, c.listingFor, c.accessFor)

def Cache.Minor (change : Cache → Cache) : Prop := ∀ c, (change c).lasting = c.lasting

namespace Facade

/-- The ways to act: for accounts of a kind, changing caches and doing things to the store in ways
of a kind, and in a session if there is one. -/
inductive Acts (For : Account → Prop) (Change : (Cache → Cache) → Prop)
    (Does : Store → Store → Prop) :
    Option Session → {α : Type} → FacadeM α → Prop
  | looks {session : Option Session} {α : Type} {m : FacadeM α} (h : Keeps id m) :
      Acts For Change Does session m
  | registers {session : Option Session} {α : Type} {m : FacadeM α}
      (h : ∀ f, ∃ registry, (m f).2 = { f with registry }) :
      Acts For Change Does session m
  | remembers {session : Option Session} {change : Cache → Cache} (h : Change change) :
      Acts For Change Does session (changeCache change)
  | calls {session : Session} {α : Type} {action : LinkM StoreError α}
      (h : Link.Within session Does action) :
      Acts For Change Does (some session) (call action)
  | visits {session : Option Session} {account : Account} {α : Type} {body : Session → FacadeM α}
      (h : For account)
      (inside : ∀ session, Acts For Change Does (some session) (body session)) :
        Acts For Change Does session (during account body)
  | bind {session : Option Session} {α β : Type} {m : FacadeM α} {rest : α → FacadeM β}
      (head : Acts For Change Does session m)
      (tail : ∀ a, Acts For Change Does session (rest a)) :
        Acts For Change Does session (m >>= rest)
  | catches {session : Option Session} {α : Type} {m : FacadeM α}
      {handler : FacadeError → FacadeM α}
      (body : Acts For Change Does session m)
      (failed : ∀ e, Acts For Change Does session (handler e)) :
      Acts For Change Does session (tryCatch m handler)

variable {For : Account → Prop} {Change : (Cache → Cache) → Prop} {Does : Store → Store → Prop}
    {α β ν : Type}

namespace Acts

section Pieces
variable {session : Option Session}

theorem of_pure {a : α} : Acts For Change Does session (pure a) := .looks Keeps.of_pure

theorem of_throw {e : FacadeError} : Acts For Change Does session (throw e : FacadeM α) :=
  .looks Keeps.of_throw

theorem of_get {rest : Facade → FacadeM α} (h : ∀ f, Acts For Change Does session (rest f)) :
    Acts For Change Does session (get >>= rest) := .bind (.looks Keeps.of_get) h

theorem handleFor (path : Path) : Acts For Change Does session (handleFor path) :=
  .registers fun f => ⟨(f.registry.handleFor path).2, rfl⟩

theorem changeRegistry (change : Registry → Except Registry.Error Registry) :
    Acts For Change Does session (changeRegistry change) := .registers fun f => by
  simp only [Facade.changeRegistry]
  cases change f.registry with
  | ok r => exact ⟨r, rfl⟩
  | error e => exact ⟨f.registry, rfl⟩

theorem tells (session : Session) {c : Call} {action : Store → Except StoreError Store}
    (h : ∀ s s', action s = .ok s' → Does s s') :
    Acts For Change Does (some session) (call (Link.tell session c action)) :=
  .calls (.tells session c h)

theorem forM {ι : Type} {body : ι → FacadeM PUnit} (h : ∀ i, Acts For Change Does session (body i))
    (is : List ι) :
    Acts For Change Does session (is.forM body) := by
  induction is with
  | nil => exact .of_pure
  | cons i is ih => exact .bind (h i) fun _ => ih

end Pieces

theorem keeps {session : Option Session} {m : FacadeM α} {view : Facade → ν}
    (h : Acts For Change Does session m)
    (hlink : ∀ (f : Facade) link, view { f with link } = view f)
    (hregistry : ∀ (f : Facade) registry, view { f with registry } = view f)
    (hcache : ∀ (f : Facade) change,
      Change change → view { f with cache := change f.cache } = view f) : Keeps view m := by
  induction h with
  | looks h => exact fun f => congrArg view (h f)
  | registers h =>
    intro f
    obtain ⟨registry, hr⟩ := h f
    rw [hr, hregistry]
  | remembers h => exact Keeps.of_modify fun f => hcache f _ h
  | calls => exact fun f => hlink f _
  | visits _ _ ih =>
    refine Keeps.bind (fun f => hlink f _) fun session f => ?_
    exact (hlink _ _).trans (ih session f)
  | bind _ _ ih ih' => exact ih.bind ih'
  | catches _ _ ih ih' => exact ih.of_catch ih'

theorem sustains {session : Option Session} {m : FacadeM α} (h : Acts For Change Does session m)
    {C : Store → Prop} (hC : ∀ s s', Does s s' → C s → C s') :
    Sustains (fun f : Facade => C f.link.store) m := by
  induction h with
  | looks h => exact .of_keeps fun f => congrArg (·.link.store) (h f)
  | registers h =>
    intro f hf
    obtain ⟨registry, hr⟩ := h f
    exact hr ▸ hf
  | remembers => exact fun _ hf => hf
  | calls h => exact fun f hf => h.sustains hC f.link hf
  | visits _ _ ih =>
    refine Sustains.bind (fun f hf => ?_) fun session f hf => ?_
    · exact (congrArg C (Link.keeps_connect _ f.link)).mpr hf
    · exact (congrArg C (Link.store_close session _)).mpr (ih session f hf)
  | bind _ _ ih ih' => exact ih.bind ih'
  | catches _ _ ih ih' => exact ih.of_catch ih'

/-! ## Pieces of operations -/

section Pieces
variable (hminor : ∀ change, Cache.Minor change → Change change) (session : Session)
include hminor

theorem userProfile (name : String) :
    Acts For Change Does (some session) (userProfile session name) := by
  have hput : ∀ profile : UserProfile, Acts For Change Does (some session) (do
      changeCache (·.putUserProfile name profile)
      return profile) := fun profile => .bind (.remembers (hminor _ fun _ => rfl)) fun _ => .of_pure
  refine .of_get fun f => ?_
  split
  · exact .of_pure
  · refine .bind (.calls (.findUser session name)) fun found => ?_
    cases found with
    | none => exact .bind .of_pure hput
    | some user => exact .bind (.calls (.asks _ _)) fun groups => .bind .of_pure hput

theorem permissions (path : Path) :
    Acts For Change Does (some session) (permissions session path) := by
  refine .of_get fun f => ?_
  split
  · exact .of_pure
  · exact .bind (.calls (.asks _ _)) fun _ =>
      .bind (.remembers (hminor _ fun _ => rfl)) fun _ => .of_pure

theorem objectKind (path : Path) :
    Acts For Change Does (some session) (objectKind session path) := by
  refine .of_get fun f => ?_
  split
  · exact .of_pure
  · exact .bind (.calls (.stat session path)) fun _ =>
      .bind (.remembers (hminor _ fun _ => rfl)) fun _ => .of_pure

theorem userLevel (user : Principal) (path : Path) :
    Acts For Change Does (some session) (userLevel session user path) :=
  .bind (userProfile hminor session user.name) fun _ =>
    .bind (permissions hminor session path) fun _ => .of_pure

theorem mayEditAttributes (user : Principal) (path : Path) :
    Acts For Change Does (some session) (mayEditAttributes session user path) := by
  refine .bind (userProfile hminor session user.name) fun profile => ?_
  split
  · exact .of_pure
  · exact .looks (keeps_allowListed user profile path)

theorem fetchAttributes (user : Principal) (handle : Handle) (path : Path) :
    Acts For Change Does (some session) (fetchAttributes session user handle path) := by
  have hrest : ∀ status isOpen level,
      Acts For Change Does (some session)
        (rememberAttributes user handle path status isOpen level) :=
    fun status isOpen level =>
      .of_get fun f => .bind (.remembers (hminor _ fun _ => rfl)) fun _ => .of_pure
  refine .bind (.calls (.stat session path)) fun status =>
    .bind (.remembers (hminor _ fun _ => rfl)) fun _ => ?_
  refine .bind (.looks (keeps_structural path)) fun isOpen => ?_
  split
  · exact .bind .of_pure fun level => hrest status isOpen level
  · exact .bind (userLevel hminor session user path) fun level => hrest status isOpen level

theorem listAttributes (user : Principal) (child : Path) (cookie : Nat) (name : String)
    (handle : Handle) :
    Acts For Change Does (some session) (listAttributes session user child cookie name handle) := by
  refine .of_get fun f => ?_
  split
  · exact .of_pure
  · refine .catches (.bind (fetchAttributes hminor session user handle child) fun _ =>
        .of_pure) fun e => ?_
    split
    · exact .of_pure
    · exact .of_throw

theorem listEntries (user : Principal) (path : Path) (after cookie : Nat)
    (entries : List ListingEntry) :
    Acts For Change Does (some session) (listEntries session user path after cookie entries) := by
  induction entries generalizing cookie with
  | nil => exact .of_pure
  | cons entry rest ih =>
    have hlines : ∀ line : Option DirEntry, Acts For Change Does (some session) (do
        let lines ← Facade.listEntries session user path after (cookie + 1) rest
        return line.toList ++ lines) := fun line => .bind (ih (cookie + 1)) fun _ => .of_pure
    unfold Facade.listEntries
    split
    · exact .bind .of_pure hlines
    · refine .bind (.bind (.handleFor _) fun handle =>
          .bind (.remembers (hminor _ fun _ => rfl)) fun _ => ?_) hlines
      exact listAttributes hminor session user (path.child entry.name) cookie entry.name handle

theorem replaceAcl (hregrants : ∀ s place f, Does s (s.changeAcl place f)) (path : Path)
    (aces : List Ace) :
    Acts For Change Does (some session) (replaceAcl session path aces) := by
  refine .bind (.calls (.stat session path)) fun status =>
    .bind (.calls (.asks _ _)) fun current => .of_get fun f => ?_
  refine .bind (.calls (.toEntries session f.resolver f.identities aces)) fun incoming => ?_
  have hchange : ∀ change, Acts For Change Does (some session) (applyChange session path change) :=
      fun change => by
    refine .bind (.forM (fun entry => .tells session fun s s' h => ?_) _) fun _ =>
      .forM (fun entry => .tells session fun s s' h => ?_) _
    · obtain ⟨-, rfl⟩ := Store.revoke_eq_ok h
      exact hregrants s _ _
    · obtain ⟨-, -, rfl⟩ := Store.grant_eq_ok h
      exact hregrants s _ _
  exact .bind (hchange _) fun _ =>
    .bind (.remembers (hminor _ fun _ => rfl)) fun _ => .remembers (hminor _ fun _ => rfl)

end Pieces

end Acts

/-! ## Operations -/

/-- An action looks around at most before it finds out who the number stands for, and then it acts.
One that finds out nothing acts for nobody. -/
inductive OnBehalf (For : Principal → Account → Prop) (Change : (Cache → Cache) → Prop)
    (Does : Store → Store → Prop) :
    Option UInt32 → {α : Type} → FacadeM α → Prop
  | nobody {uid : Option UInt32} {α : Type} {m : FacadeM α}
      (h : Acts (fun _ => False) Change Does none m) :
      OnBehalf For Change Does uid m
  | looks {uid : Option UInt32} {α β : Type} {m : FacadeM α} {rest : α → FacadeM β}
      (head : Keeps id m)
      (tail : ∀ a, OnBehalf For Change Does uid (rest a)) :
        OnBehalf For Change Does uid (m >>= rest)
  | caller {uid : UInt32} {α : Type} {rest : Principal → FacadeM α}
      (h : ∀ user, Acts (For user) Change Does none (rest user)) :
      OnBehalf For Change Does (some uid) (resolve uid >>= rest)
  | answers {uid : Option UInt32} {α β : Type} {m : FacadeM α} {answer : α → FacadeM β}
      (h : OnBehalf For Change Does uid m)
      (quiet : ∀ a, Keeps id (answer a)) : OnBehalf For Change Does uid (m >>= answer)

end Facade

namespace Operation

def caller? : Operation → Option UInt32
  | .lookup uid .. | .getattr uid .. | .setattr uid .. | .list uid .. | .directoryVerifier uid
      .. | .create uid .. | .mkdir uid ..
  | .remove uid .. | .rename uid .. | .read uid .. | .write uid .. | .getAcl uid .. | .setAcl uid ..
  | .checkAccess uid .. => some uid
  | .parentOf .. | .commit .. | .fsStat .. | .hardLink | .symlink | .readlink => none

def MayActFor : Operation → Principal → Account → Prop
  | .setAcl .., _, _ => True
  | _, user, account => account = user.account

theorem mayActFor_self (operation : Operation) (user : Principal) :
    operation.MayActFor user user.account := by
  cases operation <;> trivial

/-- What an operation may change in the caches beyond what is minor. -/
inductive MayRemember : Operation → (Cache → Cache) → Prop
  | minor {operation : Operation} {change : Cache → Cache} (h : Cache.Minor change) :
      MayRemember operation change
  | listing {uid : UInt32} {directory : Handle} {cookie : Nat} (user : String) (path : Path)
      (listing : Listing) :
      MayRemember (.list uid directory cookie) (·.putListing user path listing)
  | decision {uid : UInt32} {handle : Handle} {mask : Mask} (number : UInt32) (path : Path)
      (decision : Decision) :
      MayRemember (.checkAccess uid handle mask) (·.putAccess number mask path decision)

/-- What an operation may do to the store. Only one changes access lists, and it does nothing else.
-/
def MayDo : Operation → Store → Store → Prop
  | .setAcl .., s, s' => ∃ place f, s' = s.changeAcl place f
  | _, s, s' => s.Alters s'

theorem effect_of_mayDo {operation : Operation} {s s' : Store} (h : operation.MayDo s s') :
    s.Effect s' := by
  cases operation with
  | setAcl => obtain ⟨place, f, rfl⟩ := h; exact .regranted place f
  | _ => exact h.1

theorem alters_of_mayDo {operation : Operation} {s s' : Store}
    (h : ∀ uid handle aces, operation ≠ .setAcl uid handle aces) (hdone : operation.MayDo s s') :
    s.Alters s' := by
  cases operation with
  | setAcl uid handle aces => exact absurd rfl (h uid handle aces)
  | _ => exact hdone

end Operation

namespace Facade

theorem decideAccess_acts {For : Account → Prop} {Change : (Cache → Cache) → Prop}
    {Does : Store → Store → Prop} {user : Principal} (hfor : For user.account)
    (hminor : ∀ change, Cache.Minor change → Change change) (path : Path) (mask : Mask) :
    Acts For Change Does none (decideAccess user path mask) := by
  have hlevel : ∀ session, Acts For Change Does (some session) (do
      let level ← userLevel session user path
      return Level.decision level mask) :=
        fun session => .bind (.userLevel hminor session user path) fun _ => .of_pure
  refine .bind (.looks (keeps_structural path)) fun isOpen => ?_
  split
  · exact .of_pure
  · refine .visits hfor fun session => .bind (.objectKind hminor session path) fun kind => ?_
    split
    · exact .of_pure
    · split
      · refine .bind (.mayEditAttributes hminor session user path) fun allowed => ?_
        split
        · exact .of_pure
        · exact hlevel session
      · exact hlevel session

def recallOrDecide (user : Principal) (path : Path) (mask : Mask) : FacadeM Decision := do
  match (← get).cache.access? user.uid mask path with
  | some decision => return decision
  | none =>
    let decision ← decideAccess user path mask
    changeCache (·.putAccess user.uid mask path decision)
    return decision

theorem checkAccess_eq (uid : UInt32) (handle : Handle) (mask : Mask) :
    checkAccess uid handle mask =
    resolve uid >>= fun user => pathOf handle >>= fun path => recallOrDecide user path mask := rfl

theorem recallOrDecide_acts {For : Account → Prop} {Change : (Cache → Cache) → Prop}
    {Does : Store → Store → Prop} {user : Principal} (hfor : For user.account)
    (hminor : ∀ change, Cache.Minor change → Change change) (path : Path) (mask : Mask)
    (hput : ∀ decision, Change (·.putAccess user.uid mask path decision)) :
    Acts For Change Does none (recallOrDecide user path mask) := by
  refine .of_get fun f => ?_
  split
  · exact .of_pure
  · exact .bind (decideAccess_acts hfor hminor path mask) fun decision =>
      .bind (.remembers (hput decision)) fun _ => .of_pure

section Operations
variable {For : Principal → Account → Prop} {Change : (Cache → Cache) → Prop}
    {Does : Store → Store → Prop}
  (hfor : ∀ user, For user user.account) (hminor : ∀ change, Cache.Minor change → Change change)

theorem OnBehalf.of_pathOf {uid : Option UInt32} {handle : Handle} {rest : Path → FacadeM α}
    (h : ∀ path, OnBehalf For Change Does uid (rest path)) :
    OnBehalf For Change Does uid (pathOf handle >>= rest) :=
  .looks (keeps_pathOf handle) h

theorem parentOf_onBehalf (handle : Handle) {uid : Option UInt32} :
    OnBehalf For Change Does uid (parentOf handle) := by
  refine .of_pathOf fun path => .nobody (.of_get fun f => ?_)
  split
  · exact .of_pure
  · split
    · exact .handleFor _
    · exact .of_pure

include hfor hminor

theorem lookup_onBehalf (uid : UInt32) (parent : Handle) (name : String) :
    OnBehalf For Change Does (some uid) (lookup uid parent name) := by
  unfold lookup
  split
  · exact .of_pathOf fun _ => .nobody .of_pure
  · split
    · exact parentOf_onBehalf parent
    · refine .caller fun user => .bind (.looks (keeps_childPath parent name)) fun path =>
        .visits (hfor user) fun session => ?_
      exact .bind (.calls (.stat session path)) fun status =>
        .bind (.remembers (hminor _ fun _ => rfl)) fun _ => .handleFor path

theorem getattr_onBehalf (uid : UInt32) (handle : Handle) :
    OnBehalf For Change Does (some uid) (getattr uid handle) := by
  refine .caller fun user => .bind (.looks (keeps_pathOf handle)) fun path => .of_get fun f => ?_
  split
  · exact .of_pure
  · exact .visits (hfor user) fun session => .fetchAttributes hminor session user handle path

theorem list_onBehalf (hlist : ∀ user path listing, Change (·.putListing user path listing))
    (uid : UInt32) (directory : Handle) (cookie : Nat) :
    OnBehalf For Change Does (some uid) (list uid directory cookie) := by
  refine .caller fun user => .bind (.looks (keeps_pathOf directory)) fun path =>
    .visits (hfor user) fun session => ?_
  refine .bind (.calls (.stat session path)) fun status => ?_
  split
  · exact .looks Keeps.of_throw_bind
  · refine .bind (.of_get fun f => ?_) fun listing =>
      .listEntries hminor session user path cookie firstCookie listing.entries
    split
    · exact .of_pure
    · exact .bind (.calls (.asks _ _)) fun entries =>
        .bind (.remembers (hlist _ _ _)) fun _ => .of_pure

omit hminor in
theorem directoryVerifier_onBehalf (uid : UInt32) (directory : Handle) :
    OnBehalf For Change Does (some uid) (directoryVerifier uid directory) :=
  .caller fun user => .bind (.looks (keeps_pathOf directory)) fun path =>
      .visits (hfor user) fun session =>
    .bind (.calls (.stat session path)) fun _ => .of_pure

theorem create_onBehalf (hdoes : ∀ s s', s.Alters s' → Does s s') (uid : UInt32)
    (parent : Handle) (name : String) (type : FileType) :
    OnBehalf For Change Does (some uid) (create uid parent name type) := by
  unfold create
  split
  · exact .nobody (.looks Keeps.of_throw_bind)
  · refine .caller fun user =>
      .bind (.looks (keeps_childPath parent name)) fun path => .of_get fun f => ?_
    refine .bind (.visits (hfor user) fun session => .tells session fun _ _ h =>
      hdoes _ _ (Store.alters_createDataObject h)) fun _ => ?_
    exact .bind (.remembers (hminor _ fun _ => rfl)) fun _ =>
      .bind (.remembers (hminor _ fun _ => rfl)) fun _ => .handleFor path

theorem mkdir_onBehalf (hdoes : ∀ s s', s.Alters s' → Does s s') (uid : UInt32) (parent : Handle)
    (name : String) :
    OnBehalf For Change Does (some uid) (mkdir uid parent name) := by
  refine .caller fun user => .bind (.looks (keeps_childPath parent name)) fun path => ?_
  refine .bind (.visits (hfor user) fun session => .tells session fun _ _ h =>
    hdoes _ _ (Store.alters_createCollection h)) fun _ => ?_
  exact .bind (.remembers (hminor _ fun _ => rfl)) fun _ =>
    .bind (.remembers (hminor _ fun _ => rfl)) fun _ => .handleFor path

theorem remove_onBehalf (hdoes : ∀ s s', s.Alters s' → Does s s') (uid : UInt32) (parent : Handle)
    (name : String) :
    OnBehalf For Change Does (some uid) (remove uid parent name) := by
  refine .caller fun user => .bind (.looks (keeps_childPath parent name)) fun path => ?_
  refine .bind (.visits (hfor user) fun session =>
      .tells session fun _ _ h => hdoes _ _ (Store.alters_remove h)) fun _ => ?_
  exact .bind (.remembers (hminor _ fun _ => rfl)) fun _ => .changeRegistry _

theorem rename_onBehalf (hdoes : ∀ s s', s.Alters s' → Does s s') (uid : UInt32)
    (parent : Handle) (name : String) (toParent : Handle) (toName : String) :
    OnBehalf For Change Does (some uid) (rename uid parent name toParent toName) := by
  refine .caller fun user => .bind (.looks (keeps_childPath parent name)) fun source => ?_
  refine .bind (.looks (keeps_childPath toParent toName)) fun target => ?_
  split
  · exact .of_pure
  · refine .bind (.changeRegistry _) fun _ => ?_
    refine .bind (.visits (hfor user) fun session =>
        .tells session fun _ _ h => hdoes _ _ (Store.alters_rename h)) fun _ => ?_
    exact .bind (.remembers (hminor _ fun _ => rfl)) fun _ =>
      .bind (.remembers (hminor _ fun _ => rfl)) fun _ => .changeRegistry _

omit hminor in
theorem read_onBehalf (uid : UInt32) (handle : Handle) (offset count : Nat) :
    OnBehalf For Change Does (some uid) (read uid handle offset count) :=
  .caller fun user => .bind (.looks (keeps_pathOf handle)) fun _ =>
    .visits (hfor user) fun _ => .calls (.asks _ _)

theorem write_onBehalf (hdoes : ∀ s s', s.Alters s' → Does s s') (uid : UInt32)
    (handle : Handle) (offset : Nat) (bytes : List UInt8) :
    OnBehalf For Change Does (some uid) (write uid handle offset bytes) :=
  .caller fun user => .bind (.looks (keeps_pathOf handle)) fun _ =>
    .bind (.visits (hfor user) fun _ =>
          .calls (.performs _ fun _ _ _ h => hdoes _ _ (Store.alters_write h))) fun _ =>
      .bind (.remembers (hminor _ fun _ => rfl)) fun _ => .of_pure

theorem getAcl_onBehalf (uid : UInt32) (handle : Handle) :
    OnBehalf For Change Does (some uid) (getAcl uid handle) :=
  .caller fun user => .bind (.looks (keeps_pathOf handle)) fun path =>
      .visits (hfor user) fun session =>
    .bind (.permissions hminor session path) fun _ => .of_get fun _ => .of_pure

theorem setAcl_onBehalf (hall : ∀ user account, For user account)
    (hregrants : ∀ s place f, Does s (s.changeAcl place f)) (uid : UInt32) (handle : Handle)
    (aces : List Ace) : OnBehalf For Change Does (some uid) (setAcl uid handle aces) := by
  unfold setAcl
  split
  · exact .nobody .of_pure
  · refine .caller fun user =>
      .bind (.looks (keeps_pathOf handle)) fun path => .visits (hfor user) fun session => ?_
    refine .bind (.userProfile hminor session user.name) fun profile => ?_
    refine .bind (.looks (keeps_allowListed user profile path)) fun listed => .of_get fun f => ?_
    dsimp only
    split
    · exact .visits (hall user _) fun adminSession =>
        .replaceAcl hminor adminSession hregrants path aces
    · exact .replaceAcl hminor session hregrants path aces

theorem checkAccess_onBehalf (uid : UInt32) (handle : Handle) (mask : Mask)
    (hput : ∀ number path decision, Change (·.putAccess number mask path decision)) :
    OnBehalf For Change Does (some uid) (checkAccess uid handle mask) :=
  .caller fun user => .bind (.looks (keeps_pathOf handle)) fun path =>
    recallOrDecide_acts (hfor user) hminor path mask (hput user.uid path)

end Operations

theorem perform_onBehalf (operation : Operation) :
    OnBehalf operation.MayActFor operation.MayRemember operation.MayDo operation.caller?
      (perform operation) := by
  have answers : ∀ {uid : Option UInt32} {α : Type} {m : FacadeM α} {answer : α → Answer},
      OnBehalf operation.MayActFor operation.MayRemember operation.MayDo uid m →
      OnBehalf operation.MayActFor operation.MayRemember operation.MayDo uid
        (do return answer (← m)) :=
    fun h => .answers h fun _ => Keeps.of_pure
  have hself := operation.mayActFor_self
  have hminor : ∀ change, Cache.Minor change → operation.MayRemember change := fun _ => .minor
  cases operation with
  | lookup uid parent name => exact answers (lookup_onBehalf hself hminor uid parent name)
  | getattr uid handle => exact answers (getattr_onBehalf hself hminor uid handle)
  | setattr uid handle =>
    exact answers (.of_pathOf fun _ => getattr_onBehalf hself hminor uid handle)
  | list uid directory cookie =>
    exact answers (list_onBehalf hself hminor .listing uid directory cookie)
  | directoryVerifier uid directory =>
    exact answers (directoryVerifier_onBehalf hself uid directory)
  | create uid parent name type =>
    exact answers (create_onBehalf hself hminor (fun _ _ h => h) uid parent name type)
  | mkdir uid parent name =>
    exact answers (mkdir_onBehalf hself hminor (fun _ _ h => h) uid parent name)
  | remove uid parent name =>
    exact answers (remove_onBehalf hself hminor (fun _ _ h => h) uid parent name)
  | rename uid parent name toParent toName =>
    exact answers (rename_onBehalf hself hminor (fun _ _ h => h) uid parent name toParent toName)
  | read uid handle offset count => exact answers (read_onBehalf hself uid handle offset count)
  | write uid handle offset bytes =>
    exact answers (write_onBehalf hself hminor (fun _ _ h => h) uid handle offset bytes)
  | getAcl uid handle => exact answers (getAcl_onBehalf hself hminor uid handle)
  | setAcl uid handle aces =>
    exact answers (setAcl_onBehalf hself hminor (fun _ _ => trivial)
      (fun _ place f => ⟨place, f, rfl⟩) uid handle aces)
  | checkAccess uid handle mask =>
    exact answers (checkAccess_onBehalf hself hminor uid handle mask .decision)
  | parentOf handle => exact answers (parentOf_onBehalf handle)
  | commit handle => exact answers (.of_pathOf fun _ => .nobody .of_pure)
  | fsStat handle => exact answers (.of_pathOf fun _ => .nobody .of_pure)
  | hardLink => exact .nobody (.looks Keeps.of_throw_bind)
  | symlink => exact .nobody (.looks Keeps.of_throw_bind)
  | readlink => exact .nobody (.looks Keeps.of_throw_bind)

/-! ## What an operation keeps -/

namespace OnBehalf

variable {For : Principal → Account → Prop} {Change : (Cache → Cache) → Prop}
    {Does : Store → Store → Prop}
  {uid : Option UInt32} {m : FacadeM α}

theorem keeps {view : Facade → ν} (h : OnBehalf For Change Does uid m)
    (hlink : ∀ (f : Facade) link, view { f with link } = view f)
    (hregistry : ∀ (f : Facade) registry, view { f with registry } = view f)
    (hresolver : ∀ (f : Facade) resolver, view { f with resolver } = view f)
    (hcache : ∀ (f : Facade) change,
      Change change → view { f with cache := change f.cache } = view f) : Keeps view m := by
  induction h with
  | nobody h => exact h.keeps hlink hregistry hcache
  | looks head _ ih => exact Keeps.bind (fun f => congrArg view (head f)) ih
  | caller h =>
    refine Keeps.bind (fun f => ?_) fun user => (h user).keeps hlink hregistry hcache
    exact (hlink { f with resolver := (f.resolver.resolve f.identities _ f.link).2.1 } _).trans
      (hresolver f _)
  | answers _ quiet ih => exact ih.bind fun a f => congrArg view (quiet a f)

theorem sustains (h : OnBehalf For Change Does uid m) {C : Store → Prop}
    (hC : ∀ s s', Does s s' → C s → C s') :
    Sustains (fun f : Facade => C f.link.store) m := by
  induction h with
  | nobody h => exact h.sustains hC
  | looks head _ ih => exact Sustains.bind (.of_keeps fun f => congrArg (·.link.store) (head f)) ih
  | caller h =>
    refine Sustains.bind (fun f hf => ?_) fun user => (h user).sustains hC
    exact (congrArg C (f.resolver.store_resolve f.identities _ f.link)).mpr hf
  | answers _ quiet ih =>
    exact ih.bind fun a => .of_keeps fun f => congrArg (·.link.store) (quiet a f)

theorem resolver (h : OnBehalf For Change Does uid m) (f : Facade) : (m f).2.resolver = f.resolver ∨
    ∃ number, uid = some number ∧
      (m f).2.resolver = (f.resolver.resolve f.identities number f.link).2.1 := by
  induction h generalizing f with
  | @nobody _ _ m h =>
    have hkept : Keeps Facade.resolver m :=
      h.keeps (fun _ _ => rfl) (fun _ _ => rfl) fun _ _ _ => rfl
    exact .inl (hkept f)
  | @looks _ _ _ m rest head _ ih =>
    have hsame := head f
    rw [bind_apply]
    rcases hm : (m f : Except FacadeError _ × Facade) with ⟨e | a, f'⟩ <;> rw [hm] at hsame
      <;> obtain rfl : f' = f := hsame
    · exact .inl rfl
    · exact ih a f'
  | @caller number _ rest h =>
    refine .inr ⟨number, rfl, ?_⟩
    rw [bind_apply]
    rcases hr : (resolve number f : Except FacadeError Principal × Facade) with ⟨e | user, f'⟩
    · exact (congrArg (·.2.resolver) hr).symm
    · have hkept : Keeps Facade.resolver (rest user) :=
        (h user).keeps (fun _ _ => rfl) (fun _ _ => rfl) fun _ _ _ => rfl
      exact (hkept f').trans (congrArg (·.2.resolver) hr).symm
  | @answers _ _ _ m answer _ quiet ih =>
    have hm := ih f
    rw [bind_apply]
    rcases hmf : (m f : Except FacadeError _ × Facade) with ⟨e | a, f'⟩ <;> rw [hmf] at hm
    · exact hm
    · rw [show (answer a f').2.resolver = f'.resolver from congrArg Facade.resolver (quiet a f')]
      exact hm

end OnBehalf

end Facade
end StoreMount
