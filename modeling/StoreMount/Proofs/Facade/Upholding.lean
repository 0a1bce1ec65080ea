import StoreMount.Proofs.Facade.Handles
import StoreMount.Proofs.Facade.Scene

/-!
# Invariants of a run among others

Whatever a client asks of a facade, an invariant of its scene holds again afterwards, whether the
answer is an error or not. Others use the same store meanwhile: between the moves of a facade it may
undergo any change, and those that fail leave it as it was. An invariant that these changes keep too
holds throughout such a run.
-/
namespace StoreMount

inductive Turn
  | own (move : Move)
  | others (change : Store.Change)

namespace Facade

def among (f : Facade) (s : Store) : Facade :=
  { f with link := { f.link with server := { f.link.server with store := s } } }

def turn (f : Facade) : Turn → Facade
  | .own move => (f.step move).2
  | .others change =>
    match f.link.store.apply change with
    | .ok s => f.among s
    | .error _ => f

def runAmong (f : Facade) (turns : List Turn) : Facade := turns.foldl turn f

theorem runAmong_concat (f : Facade) (turns : List Turn) (t : Turn) :
    f.runAmong (turns ++ [t]) = (f.runAmong turns).turn t :=
  List.foldl_concat ..

theorem runAmong_append (f : Facade) (turns turns' : List Turn) :
    f.runAmong (turns ++ turns') = (f.runAmong turns).runAmong turns' := List.foldl_append ..

variable {Near Below : Path → Prop} {I : Scene → Prop} {α β : Type}
    (hI : Scene.Invariant Near Below I)
include hI

/-! ## Looking -/

theorem upholds_parentOf (handle : Handle) : Upholds I (parentOf handle) Any := by
  refine Triple.bind (pathOf_mapped handle) fun path => Triple.bind Triple.of_get fun f => ?_
  split
  · exact Triple.of_pure fun _ h => ⟨h.2.1, trivial⟩
  · next hroot =>
    rw [not_or] at hroot
    split
    · next up hup =>
      rintro _ ⟨rfl, hf, hpath⟩
      exact upholds_handleFor hI (hI.parent (s := f.scene) hf hpath hroot.1 hroot.2 hup) f hf
    · exact Triple.of_pure fun _ h => ⟨h.2.1, trivial⟩

theorem upholds_lookup (uid : UInt32) (parent : Handle) (name : String) :
    Upholds I (lookup uid parent name) Any := by
  unfold lookup
  split
  · exact (upholds_pathOf hI parent).bind fun _ _ => .of_pure trivial
  · split
    · exact upholds_parentOf hI parent
    · refine (upholds_resolve hI uid).then_any fun user =>
        (upholds_childPath hI parent name).bind fun path hpath => ?_
      refine upholds_during hI fun session =>
        (upholds_stat hI (hI.near hpath) session).then_any fun status => ?_
      exact Upholds.then_any (.changeCache fun _ => rfl) fun _ =>
        upholds_handleFor hI (hI.near hpath)

theorem upholds_getattr (uid : UInt32) (handle : Handle) : Upholds I (getattr uid handle) Any := by
  refine (upholds_resolve hI uid).then_any fun user =>
    (upholds_pathOf hI handle).bind fun path hpath => .of_get fun f => ?_
  split
  · exact .of_pure trivial
  · exact upholds_during hI fun session => upholds_fetchAttributes hI hpath session user handle

theorem upholds_directoryVerifier (uid : UInt32) (directory : Handle) :
    Upholds I (directoryVerifier uid directory) Any :=
  (upholds_resolve hI uid).then_any fun _ => (upholds_pathOf hI directory).bind fun _ hpath =>
    upholds_during hI fun session =>
      (upholds_stat hI hpath session).then_any fun _ => .of_pure trivial

theorem upholds_read (uid : UInt32) (handle : Handle) (offset count : Nat) :
    Upholds I (read uid handle offset count) Any :=
  (upholds_resolve hI uid).then_any fun _ => (upholds_pathOf hI handle).bind fun _ hpath =>
    upholds_during hI fun session => upholds_ask hI session (by simpa [Call.paths] using hpath) _

theorem upholds_getAcl (uid : UInt32) (handle : Handle) : Upholds I (getAcl uid handle) Any :=
  (upholds_resolve hI uid).then_any fun _ => (upholds_pathOf hI handle).bind fun _ hpath =>
    upholds_during hI fun session =>
        (upholds_permissions hI hpath session).then_any fun _ => .of_get fun _ =>
      .of_pure trivial

theorem upholds_checkAccess (uid : UInt32) (handle : Handle) (mask : Mask) :
    Upholds I (checkAccess uid handle mask) Any := by
  have hdecide : ∀ user path, Near path → Upholds I (decideAccess user path mask) Any :=
      fun user path hpath => by
    have hlevel : ∀ session, Upholds I (do
        let level ← userLevel session user path
        return Level.decision level mask) Any := fun session =>
      (upholds_userLevel hI hpath session user).then_any fun _ => .of_pure trivial
    refine Upholds.then_any (.of_get fun _ => .of_pure trivial) fun isOpen => ?_
    split
    · exact .of_pure trivial
    · refine upholds_during hI fun session =>
        (upholds_objectKind hI hpath session).then_any fun kind => ?_
      split
      · exact .of_pure trivial
      · split
        · refine (upholds_mayEditAttributes hI session user path).then_any fun allowed => ?_
          split
          · exact .of_pure trivial
          · exact hlevel session
        · exact hlevel session
  refine (upholds_resolve hI uid).then_any fun user =>
    (upholds_pathOf hI handle).bind fun path hpath => .of_get fun f => ?_
  split
  · exact .of_pure trivial
  · exact (hdecide user path hpath).then_any fun decision =>
      Upholds.then_any (.changeCache fun _ => rfl) fun _ => .of_pure trivial

/-! ## Changing -/

theorem upholds_changeRegistry {change : Registry → Except Registry.Error Registry}
    (h : ∀ s : Scene, ∀ r, change s.registry = .ok r → r = s.registry ∨
      Scene.Step Near Below s { s with registry := r }) :
    Upholds I (changeRegistry change) Any := by
  intro f hf
  simp only [changeRegistry]
  cases hr : change f.registry with
  | error e => exact hf
  | ok r =>
    refine ⟨?_, trivial⟩
    rcases h f.scene r hr with rfl | hstep
    · exact hf
    · exact hI.step hstep hf

theorem upholds_create (uid : UInt32) (parent : Handle) (name : String) (type : FileType) :
    Upholds I (create uid parent name type) Any := by
  unfold create
  split
  · exact .of_throw_bind
  · refine (upholds_resolve hI uid).then_any fun user =>
      (upholds_childPath hI parent name).bind fun path hpath => .of_get fun f => ?_
    refine (upholds_during hI fun session => ?_).then_any fun _ =>
        Upholds.then_any (.changeCache fun _ => rfl) fun _ =>
      Upholds.then_any (.changeCache fun _ => rfl) fun _ => upholds_handleFor hI (hI.near hpath)
    exact upholds_tell hI session (by simpa [Call.paths] using hI.near hpath) fun _ _ =>
      Store.effect_createDataObject

theorem upholds_mkdir (uid : UInt32) (parent : Handle) (name : String) :
    Upholds I (mkdir uid parent name) Any := by
  refine (upholds_resolve hI uid).then_any fun user =>
    (upholds_childPath hI parent name).bind fun path hpath => ?_
  refine (upholds_during hI fun session => ?_).then_any fun _ =>
      Upholds.then_any (.changeCache fun _ => rfl) fun _ =>
    Upholds.then_any (.changeCache fun _ => rfl) fun _ => upholds_handleFor hI (hI.near hpath)
  exact upholds_tell hI session (by simpa [Call.paths] using hI.near hpath) fun _ _ =>
    Store.effect_createCollection

theorem upholds_remove (uid : UInt32) (parent : Handle) (name : String) :
    Upholds I (remove uid parent name) Any := by
  refine (upholds_resolve hI uid).then_any fun user =>
    (upholds_childPath hI parent name).bind fun path hpath => ?_
  refine (upholds_during hI fun session => ?_).then_any fun _ =>
    Upholds.then_any (.changeCache fun _ => rfl) fun _ => ?_
  · exact upholds_tell hI session (by simpa [Call.paths] using hI.near hpath) fun _ _ =>
      Store.effect_remove
  · refine upholds_changeRegistry hI fun s r hr => ?_
    cases hh : s.registry.handleOf? path with
    | none => exact .inl (Except.ok.inj (by simpa only [hh] using hr)).symm
    | some handle => exact .inr (.gaveUp hpath hh (by simpa only [hh] using hr))

theorem upholds_rename (uid : UInt32) (parent : Handle) (name : String) (toParent : Handle)
    (toName : String) :
    Upholds I (rename uid parent name toParent toName) Any := by
  refine (upholds_resolve hI uid).then_any fun user => ?_
  refine (upholds_childPath hI parent name).bind fun source hsource => ?_
  refine (upholds_childPath hI toParent toName).bind fun target htarget => ?_
  split
  · exact .of_pure trivial
  · refine (upholds_changeRegistry hI fun s r hr => .inl ?_).then_any fun _ => ?_
    · obtain ⟨-, -, hr⟩ := eq_ok_of_map hr
      exact hr.symm
    refine (upholds_during hI fun session => ?_).then_any fun _ =>
        Upholds.then_any (.changeCache fun _ => rfl) fun _ =>
      Upholds.then_any (.changeCache fun _ => rfl) fun _ =>
        upholds_changeRegistry hI fun s r hr => .inr ?_
    · exact upholds_tell hI session
          (by simpa [Call.paths] using ⟨hI.near hsource, hI.near htarget⟩) fun _ _ =>
        Store.effect_rename
    · obtain ⟨answer, hm, rfl⟩ := eq_ok_of_map hr
      exact .moved hsource htarget hm

theorem upholds_write (uid : UInt32) (handle : Handle) (offset : Nat) (bytes : List UInt8) :
    Upholds I (write uid handle offset bytes) Any := by
  refine (upholds_resolve hI uid).then_any fun user =>
    (upholds_pathOf hI handle).bind fun path hpath => ?_
  refine (upholds_during hI fun session => ?_).then_any fun _ =>
      Upholds.then_any (.changeCache fun _ => rfl) fun _ =>
    .of_pure trivial
  exact upholds_perform hI session (by simpa [Call.paths] using hpath) fun _ _ _ =>
    Store.effect_write

omit hI in
theorem upholds_forM {ι : Type} {body : ι → FacadeM PUnit} (h : ∀ i, Upholds I (body i) Any)
    (is : List ι) :
    Upholds I (is.forM body) Any := by
  induction is with
  | nil => exact .of_pure trivial
  | cons i is ih => exact (h i).then_any fun _ => ih

theorem upholds_replaceAcl (session : Session) {path : Path} (hpath : Near path) (aces : List Ace) :
    Upholds I (replaceAcl session path aces) Any := by
  have happly : ∀ change, Upholds I (applyChange session path change) Any := fun change => by
    refine (upholds_forM (fun entry => ?_) _).then_any fun _ => upholds_forM (fun entry => ?_) _
    · exact upholds_tell hI session (by simpa [Call.paths] using hpath) fun _ _ =>
        Store.effect_revoke
    · exact upholds_tell hI session (by simpa [Call.paths] using hpath) fun _ _ =>
        Store.effect_grant
  refine (upholds_stat hI hpath session).then_any fun status => ?_
  refine (upholds_storedPermissions hI hpath session).then_any fun current => .of_get fun f => ?_
  refine (upholds_call hI (Link.asks_toEntries _ _ session aces)
    (keeps_toEntries _ _ session aces)).then_any fun incoming => ?_
  exact (happly _).then_any fun _ =>
    Upholds.then_any (.changeCache fun _ => rfl) fun _ => .changeCache fun _ => rfl

theorem upholds_setAcl (uid : UInt32) (handle : Handle) (aces : List Ace) :
    Upholds I (setAcl uid handle aces) Any := by
  unfold setAcl
  split
  · exact .of_pure trivial
  · refine (upholds_resolve hI uid).then_any fun user =>
      (upholds_pathOf hI handle).bind fun path hpath => ?_
    refine upholds_during hI fun session =>
      (upholds_userProfile hI session user.name).then_any fun profile => ?_
    refine Upholds.then_any (.of_get fun _ => .of_pure trivial) fun listed => .of_get fun f => ?_
    dsimp only
    split
    · exact upholds_during hI fun adminSession => upholds_replaceAcl hI adminSession hpath aces
    · exact upholds_replaceAcl hI session hpath aces

/-! ## Listing -/

theorem currentListing_upholds (session : Session) (user : Principal) {path : Path}
    (hpath : Near path) {status : Status} {g : Ground} {o : StoredObject}
    (ho : g.store.object? path = some o) (ht : o.modifiedAt = status.modifiedAt) :
    Triple (fun f => I f.scene ∧ f.ground = g) (currentListing session user path status)
      (fun listing f => I f.scene ∧ ∀ e ∈ listing.entries, Near (path.child e.name))
      (fun _ f => I f.scene) := by
  refine Triple.bind Triple.of_get fun f => ?_
  split
  · next listing hfound =>
    refine Triple.of_pure ?_
    rintro s ⟨rfl, hs, -⟩
    obtain ⟨since, hsince⟩ := Cache.fresh_eq_some (Option.filter_eq_some_iff.1 hfound).1
    exact ⟨hs, hI.shown (s := f.scene) hs hsince hpath⟩
  · have hcall :=
      Triple.and (upholds_ask hI session (c := .list path) (by simpa [Call.paths] using hpath)
      (·.list session.user path)) (list_triple session path g)
    refine Triple.bind (hcall.weaken (fun _ h => h.2) (fun _ _ h => h) fun _ _ h => h.1)
      fun entries => ?_
    refine Triple.bind
        (Q := fun _ f => I f.scene ∧ ∀ e ∈ entries, Near (path.child e.name)) ?_ fun _ =>
      Triple.of_pure fun _ h => h
    rintro s ⟨⟨hs, -⟩, rfl, rfl⟩
    refine ⟨hI.step (s := s.scene) ?_ hs, hI.children (s := s.scene) hs hpath⟩
    exact ht ▸ .kept (s := s.scene) user.name ho s.cache.now

theorem upholds_listAttributes (session : Session) (user : Principal) {child : Path}
    (hchild : Near child) (cookie : Nat) (name : String) (handle : Handle) :
    Upholds I (listAttributes session user child cookie name handle) Any := by
  refine .of_get fun f => ?_
  split
  · exact .of_pure trivial
  · refine .of_catch ((upholds_fetchAttributes hI hchild session user handle).then_any fun _ =>
        .of_pure trivial) fun e => ?_
    split
    · exact .of_pure trivial
    · exact .of_throw

theorem upholds_listEntries (session : Session) (user : Principal) (path : Path) (after : Nat)
    {entries : List ListingEntry} (cookie : Nat) (h : ∀ e ∈ entries, Near (path.child e.name)) :
    Upholds I (listEntries session user path after cookie entries) Any := by
  induction entries generalizing cookie with
  | nil => exact .of_pure trivial
  | cons entry rest ih =>
    have hchild := h entry List.mem_cons_self
    have hlines : ∀ line : Option DirEntry, Upholds I (do
        let lines ← listEntries session user path after (cookie + 1) rest
        return line.toList ++ lines) Any := fun line =>
      (ih (cookie + 1) fun e he => h e (List.mem_cons_of_mem _ he)).then_any fun _ =>
        .of_pure trivial
    unfold listEntries
    split
    · exact Upholds.then_any (.of_pure trivial) hlines
    · refine Upholds.then_any ((upholds_handleFor hI hchild).then_any fun handle => ?_) hlines
      exact Upholds.then_any (.changeCache fun _ => rfl) fun _ =>
        upholds_listAttributes hI session user hchild cookie entry.name handle

theorem upholds_list (uid : UInt32) (directory : Handle) (cookie : Nat) :
    Upholds I (list uid directory cookie) Any := by
  refine (upholds_resolve hI uid).then_any fun user =>
    (upholds_pathOf hI directory).bind fun path hpath => ?_
  refine upholds_during hI fun session f hf => ?_
  have hstat := Triple.and (upholds_stat hI hpath session) (stat_triple session path f.ground)
  refine Triple.bind (hstat.weaken (fun _ h => h) (fun _ _ h => h) fun _ _ h => h.1)
    (fun status => ?_) f ⟨hf, rfl⟩
  refine Triple.weaken (P := fun s => (I s.scene ∧ s.ground = f.ground) ∧
      ∃ o, f.ground.store.object? path = some o ∧ o.modifiedAt = status.modifiedAt)
    (Triple.of_known ?_) (fun _ h => ⟨⟨h.1.1, h.2.1⟩, h.2.2⟩) (fun _ _ h => h) fun _ _ h => h
  rintro ⟨o, ho, ht⟩
  split
  · exact Triple.of_throw fun _ h => h.1
  · exact Triple.bind (currentListing_upholds hI session user hpath ho ht) fun listing =>
        Triple.of_known fun hentries =>
      upholds_listEntries hI session user path cookie firstCookie hentries

/-! ## Runs -/

theorem upholds_perform_operation (operation : Operation) : Upholds I (perform operation) Any := by
  have answers : ∀ {α : Type} {m : FacadeM α} {C : α → Answer}, Upholds I m Any →
      Upholds I (do return C (← m)) Any :=
    fun h => h.then_any fun _ => .of_pure trivial
  cases operation with
  | lookup uid parent name => exact answers (upholds_lookup hI uid parent name)
  | getattr uid handle => exact answers (upholds_getattr hI uid handle)
  | setattr uid handle =>
    exact answers ((upholds_pathOf hI handle).bind fun _ _ => upholds_getattr hI uid handle)
  | list uid directory cookie => exact answers (upholds_list hI uid directory cookie)
  | directoryVerifier uid directory => exact answers (upholds_directoryVerifier hI uid directory)
  | create uid parent name type => exact answers (upholds_create hI uid parent name type)
  | mkdir uid parent name => exact answers (upholds_mkdir hI uid parent name)
  | remove uid parent name => exact answers (upholds_remove hI uid parent name)
  | rename uid parent name toParent toName =>
    exact answers (upholds_rename hI uid parent name toParent toName)
  | read uid handle offset count => exact answers (upholds_read hI uid handle offset count)
  | write uid handle offset bytes => exact answers (upholds_write hI uid handle offset bytes)
  | getAcl uid handle => exact answers (upholds_getAcl hI uid handle)
  | setAcl uid handle aces => exact answers (upholds_setAcl hI uid handle aces)
  | checkAccess uid handle mask => exact answers (upholds_checkAccess hI uid handle mask)
  | parentOf handle => exact answers (upholds_parentOf hI handle)
  | commit handle => exact answers ((upholds_pathOf hI handle).bind fun _ _ => .of_pure trivial)
  | fsStat handle => exact answers ((upholds_pathOf hI handle).bind fun _ _ => .of_pure trivial)
  | hardLink => exact .of_throw_bind
  | symlink => exact .of_throw_bind
  | readlink => exact .of_throw_bind

theorem upheld_step {f : Facade} (hf : I f.scene) (move : Move) : I (f.step move).2.scene := by
  cases move with
  | pause milliseconds => exact hf
  | ask operation =>
    have := upholds_perform_operation hI operation f hf
    rcases h : (perform operation f : Except FacadeError Answer × Facade) with ⟨e | a, f'⟩
      <;> rw [h] at this
    · simpa only [Facade.step, h] using this
    · simpa only [Facade.step, h] using this.1

theorem upheld_turn {f : Facade} {t : Turn} (hothers : ∀ {change store}, t = .others change →
    f.link.store.apply change = .ok store → I { f.scene with store }) (hf : I f.scene) :
    I (f.turn t).scene := by
  cases t with
  | own move => exact upheld_step hI hf move
  | others change =>
    simp only [turn]
    split
    · next s hs => exact hothers rfl hs
    · exact hf

/-- An invariant that holds at the start holds throughout, if it outlasts what others do at each
point where they come in. -/
theorem upheld_runAmong {f : Facade} {turns : List Turn} (hothers : ∀ before change after {store},
    turns = before ++ .others change :: after → I (f.runAmong before).scene →
      (f.runAmong before).link.store.apply change = .ok store → I { (f.runAmong before).scene with
        store }) (hf : I f.scene) : I (f.runAmong turns).scene := by
  induction turns generalizing f with
  | nil => exact hf
  | cons t turns ih =>
    have hturn : I (f.turn t).scene :=
      upheld_turn hI (fun ht h => hothers [] _ turns (by rw [ht]; rfl) hf h) hf
    exact ih (fun before change after _ hb hi h =>
      hothers (t :: before) change after (congrArg (t :: ·) hb) hi h) hturn

end Facade
end StoreMount
