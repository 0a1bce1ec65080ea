import StoreMount.Proofs.Cache
import StoreMount.Proofs.Facade.Quiet

/-!
# A handle means one object

Every operation of a mounted collection, whoever calls it and whether it succeeds or fails, moves
store and registry on in lockstep. So in every state of a run each mapped handle leads to an object
that is there, and as long as a handle is mapped it leads to the same object, whatever is renamed,
overwritten or listed meanwhile. Faults of the link and pauses that let caches expire are allowed;
what is not is that somebody else changes the store.
-/
namespace StoreMount.Facade

variable {α β : Type} {g : Ground}

/-- However the action ends, store and registry have moved on together. -/
def InStep (m : FacadeM α) : Prop :=
  ∀ g, Triple (ground · = g) m (fun _ f => g.Advances f.ground) (fun _ f => g.Advances f.ground)

theorem advances_of_lockstep {m : FacadeM α} {P : Facade → Prop}
    (h : g.Lockstep → Triple P m (fun _ f => g.Advances f.ground)
      (fun _ f => g.Advances f.ground)) :
    Triple P m (fun _ f => g.Advances f.ground) (fun _ f => g.Advances f.ground) := by
  by_cases hg : g.Lockstep
  · exact h hg
  · intro f _
    split <;> exact fun h => absurd h hg

namespace InStep

theorem of_keeps {m : FacadeM α} (h : Keeps ground m) : InStep m := fun g =>
  (h.triple g).weaken (fun _ h => h) (fun _ _ h => h ▸ .refl g) fun _ _ h => h ▸ .refl g

theorem bind {m : FacadeM α} {f : α → FacadeM β} (hm : InStep m) (hf : ∀ a, InStep (f a)) :
    InStep (m >>= f) := fun g =>
  (hm g).bind fun a => Triple.of_view (C := g.Advances) fun g' hg' =>
    (hf a g').weaken (fun _ h => h) (fun _ _ h => hg'.trans h) fun _ _ h => hg'.trans h

end InStep

/-! ## Sessions and calls -/

theorem during_triple {ν : Type} {view : Facade → ν} [Discreet view] {v : ν} (account : Account)
    {body : Session → FacadeM α} {Q : α → ν → Prop} {E : ν → Prop}
    (h : ∀ session, Triple (view · = v) (body session) (fun a f => Q a (view f))
      (fun _ f => E (view f))) (hv : E v) : Triple (view · = v) (during account body)
    (fun a f => Q a (view f)) (fun _ f => E (view f)) := by
  refine Keeps.then_triple (keeps_call (Link.keeps_connect account))
    (fun _ _ h => h ▸ hv) fun session f hf => ?_
  have := h session f hf
  rcases hb : (body session f : Except FacadeError α × Facade) with ⟨e | a, f'⟩ <;> rw [hb] at this
  · exact (congrArg E (view_close f' session)).mpr this
  · exact (congrArg (Q a) (view_close f' session)).mpr this

theorem InStep.during {account : Account} {body : Session → FacadeM α}
    (h : ∀ session, InStep (body session)) :
    InStep (during account body) :=
  fun g => during_triple account (fun session => h session g) (.refl g)

theorem call_triple {action : LinkM StoreError α} {Q : α → Store → Prop}
    (h : Triple (Link.store · = g.store) action (fun a l => Q a l.store)
      (fun _ l => l.store = g.store)) :
    Triple (ground · = g) (call action)
      (fun a f => ∃ s', Q a s' ∧ f.ground = { g with store := s' })
      (fun _ f => f.ground = g) := by
  rintro f rfl
  have := h f.link rfl
  simp only [call, ground]
  rcases ha : (action f.link : Except StoreError α × Link) with ⟨e | a, l⟩ <;> rw [ha] at this
  · exact congrArg (Ground.mk · _ _) this
  · exact ⟨l.store, this, rfl⟩

theorem tell_triple (session : Session) (c : Call) (action : Store → Except StoreError Store)
    (g : Ground) :
    Triple (ground · = g) (call (Link.tell session c action))
      (fun _ f => ∃ s', action g.store = .ok s' ∧ f.ground = { g with store := s' })
      (fun _ f => f.ground = g) :=
  call_triple (Link.tell_triple session c action g.store)

theorem stat_triple (session : Session) (path : Path) (g : Ground) :
    Triple (ground · = g) (call (Link.stat session path))
      (fun status f => f.ground = g ∧ ∃ o,
        g.store.object? path = some o ∧ o.modifiedAt = status.modifiedAt)
      (fun _ f => f.ground = g) := by
  refine (call_triple
    (Q := fun status s' => s' = g.store ∧ ∃ kind base, g.store.stat path = .ok base ∧
    status = { base with kind }) (Link.stat_triple session path g.store)).weaken
      (fun _ h => h) ?_ fun _ _ h => h
  rintro status f ⟨s', ⟨rfl, kind, base, hbase, rfl⟩, hf⟩
  obtain ⟨o, ho, h⟩ := Store.bind_eq_ok hbase
  cases h
  exact ⟨hf, o, Store.find_eq_ok ho, rfl⟩

theorem list_triple (session : Session) (path : Path) (g : Ground) :
    Triple (ground · = g) (call (Link.list session path))
      (fun entries f => f.ground = g ∧ entries = g.store.children path.place)
      (fun _ f => f.ground = g) := by
  refine (call_triple
    (Q := fun entries s' => s' = g.store ∧ g.store.list session.user path = .ok entries)
    (Link.ask_triple session _ _ g.store)).weaken (fun _ h => h) ?_ fun _ _ h => h
  rintro entries f ⟨s', ⟨rfl, hlist⟩, hf⟩
  exact ⟨hf, (Store.list_eq_ok hlist).symm⟩

structure Settles (s s' : Store) : Prop where
  effect : s.Effect s'
  textual : s.Textual → s'.Textual
  stands : ∀ k, s.standing? k ≠ none → s'.standing? k = s.standing? k

theorem InStep.tell {session : Session} {c : Call} {action : Store → Except StoreError Store}
    (h : ∀ s s', action s = .ok s' → Settles s s') :
    InStep (call (Link.tell session c action)) := fun g => by
  refine (tell_triple session c action g).weaken (fun _ h => h) ?_ fun _ f hf => hf ▸ .refl g
  rintro - f ⟨s', hs', hf⟩
  have hsettles := h _ _ hs'
  exact hf ▸ .settled hsettles.effect hsettles.textual hsettles.stands

theorem settles_changeAcl (s : Store) (place : Place) (f : AccessList → AccessList) :
    Settles s (s.changeAcl place f) where
  effect := .regranted place f
  textual h := h.of_standing fun k hk => by rwa [Store.standing?_changeAcl] at hk
  stands _ _ := Store.standing?_changeAcl ..

theorem settles_rewritten (s : Store) (place : Place) (contents : Contents → Contents) :
    Settles s (s.rewritten place contents) where
  effect := .rewritten place contents
  textual h := h.of_standing fun k hk => by rwa [Store.standing?_rewritten] at hk
  stands _ _ := Store.standing?_rewritten ..

theorem settles_inserted {s : Store} {path : Path} (hp : path.Titled) (hv : s.Vacant path.place)
    (kind : ObjectKind) (owner : String) (contents : Contents) :
    Settles s (s.insertObject path.place kind owner contents) ∧
      (s.insertObject path.place kind owner contents).standing? path.place ≠ none := by
  refine ⟨⟨.inserted path kind owner contents hv, fun h => h.inserted hp _ _ _, fun k hk => ?_⟩,
    by simp [Store.standing?_insertObject]⟩
  have hne : k ≠ path.place := fun h => hk (h ▸ Store.standing?_eq_none_iff.2 hv.free)
  rw [Store.standing?_insertObject, if_neg hne]

theorem settles_createDataObject {s s' : Store} {user : String} {path : Path}
    {overwrite : Bool} (hp : path.Titled) (h : s.createDataObject user path overwrite = .ok s') :
    Settles s s' ∧ s'.standing? path.place ≠ none := by
  obtain ⟨o, ho, -, -, -, rfl⟩ | ⟨hn, -, rfl⟩ := Store.createDataObject_eq_ok h
  · refine ⟨settles_rewritten .., ?_⟩
    rw [Store.standing?_rewritten, ne_eq, Store.standing?_eq_none_iff]
    exact Option.ne_none_iff_exists'.2 ⟨o, ho⟩
  · exact settles_inserted hp (Store.vacant_of_checkNewChild hn) ..

theorem settles_createCollection {s s' : Store} {user : String} {path : Path} (hp : path.Titled)
    (h : s.createCollection user path = .ok s') :
    Settles s s' ∧ s'.standing? path.place ≠ none := by
  obtain ⟨hn, -, rfl⟩ := Store.createCollection_eq_ok h
  exact settles_inserted hp (Store.vacant_of_checkNewChild hn) ..

/-! ## Handles -/

theorem handleFor_triple (path : Path) (g : Ground) :
    Triple (ground · = g) (handleFor path)
      (fun _ f => f.ground = { g with registry := (g.registry.handleFor path).2 })
      (fun _ _ => False) := by
  rintro f rfl
  rfl

theorem handleFor_advances {path : Path} (h : g.Lockstep → g.Shown path) :
    Triple (ground · = g) (handleFor path)
      (fun _ f => g.Advances f.ground ∧ f.ground.store = g.store)
      (fun _ f => g.Advances f.ground) :=
  (handleFor_triple path g).weaken (fun _ h => h)
    (fun _ _ hf => hf ▸ ⟨fun hg => Ground.Advances.handleFor (h hg) hg, rfl⟩)
    fun _ _ h => h.elim

theorem pathOf_triple {ν : Type} {view : Facade → ν} {v : ν} {r : Registry} (handle : Handle)
    (hr : ∀ f, view f = v → f.registry = r) :
    Triple (view · = v) (pathOf handle) (fun path f => view f = v ∧ r.pathOf? handle = some path)
      (fun _ f => view f = v) := by
  refine Triple.bind Triple.of_get fun f => ?_
  split
  · next path hpath =>
    refine Triple.of_pure ?_
    rintro s ⟨rfl, hs⟩
    exact ⟨hs, hr f hs ▸ hpath⟩
  · exact Triple.of_throw fun s h => h.2

theorem then_changeCache {change : Cache → Cache} (h : ∀ c, (change c).listingFor = c.listingFor)
    {rest : FacadeM α} {Q : α → Facade → Prop} {E : FacadeError → Facade → Prop}
    (hrest : Triple (ground · = g) rest Q E) :
    Triple (ground · = g) (do changeCache change; rest) Q E := by
  refine Triple.bind (Q := fun _ f => f.ground = g) (fun f hf => ?_) fun _ => hrest
  exact (keeps_changeCache h f).trans hf

theorem childPath_triple (parent : Handle) (name : String) (g : Ground) :
    Triple (ground · = g) (childPath parent name) (fun path f => f.ground = g ∧ path.Titled)
      (fun _ f => f.ground = g) := by
  have htitled (hn : Spelling.Plain name) :
      Triple (ground · = g) (do return (← pathOf parent).child name)
      (fun path f => f.ground = g ∧ path.Titled) (fun _ f => f.ground = g) :=
    ((keeps_pathOf parent).triple g).bind fun p =>
      Triple.of_pure fun _ hf => ⟨hf, p.titled_child hn⟩
  unfold childPath
  split
  · exact Triple.bind (Q := fun _ _ => False) (Triple.of_throw fun _ h => h) fun _ =>
      fun _ h => h.elim
  · next hn => exact htitled (Spelling.plain_of_ordinary hn)

theorem InStep.bind_childPath {parent : Handle} {name : String} {m : Path → FacadeM α}
    (h : ∀ path, path.Titled → InStep (m path)) : InStep (childPath parent name >>= m) := fun g =>
  Triple.bind ((childPath_triple parent name g).weaken (fun _ h => h)
    (fun _ _ h => h) fun _ _ hf => hf ▸ .refl g)
    fun path => Triple.of_known fun htitled => h path htitled g

/-! ## The operations -/

theorem InStep.parentOf (handle : Handle) : InStep (parentOf handle) := fun g => by
  unfold Facade.parentOf
  refine Triple.bind ((pathOf_triple handle fun _ => congrArg Ground.registry).weaken (fun _ h => h)
    (fun _ _ h => h) fun _ f hf => hf ▸ .refl g)
    fun path => Triple.of_known fun hpath => ?_
  refine Keeps.then_triple Keeps.of_get (fun _ f hf => hf ▸ .refl g) fun f => ?_
  split
  · exact InStep.of_keeps Keeps.of_pure g
  · split
    · next parent hparent =>
      refine (handleFor_advances fun hg => ?_).weaken (fun _ h => h)
        (fun _ _ h => h.1) fun _ _ h => h
      have hup : path.place.parent? = some parent.place := by
        rw [← Path.place_parent?, hparent, Option.map_some]
      exact hg.present_parent (hg.present handle path hpath) hup
    · exact InStep.of_keeps Keeps.of_pure g

theorem InStep.lookup (uid : UInt32) (parent : Handle) (name : String) :
    InStep (lookup uid parent name) := by
  unfold Facade.lookup
  split
  · exact .of_keeps (Keeps.bind (keeps_pathOf parent) fun _ => Keeps.of_pure)
  · split
    · exact .parentOf parent
    · refine .bind (.of_keeps (keeps_resolve uid)) fun user => ?_
      refine .bind (.of_keeps (keeps_childPath parent name)) fun path => .during fun session g => ?_
      refine Triple.bind ((stat_triple session path g).weaken (fun _ h => h)
        (fun _ _ h => h) fun _ f hf => hf ▸ .refl g)
        fun status => Triple.of_known fun hthere => ?_
      refine then_changeCache (by intro; rfl) ?_
      refine (handleFor_advances fun _ => ?_).weaken (fun _ h => h)
        (fun _ _ h => h.1) fun _ _ h => h
      obtain ⟨o, ho, -⟩ := hthere
      exact .inl fun hn => by simp [Store.standing?_eq_none_iff.1 hn, Store.object?] at ho

theorem keeps_getattr (uid : UInt32) (handle : Handle) : Keeps ground (getattr uid handle) := by
  unfold getattr
  refine (keeps_resolve uid).bind fun user =>
    (keeps_pathOf handle).bind fun path => Keeps.bind Keeps.of_get fun f => ?_
  split
  · exact Keeps.of_pure
  · exact keeps_during fun session => keeps_fetchAttributes session user handle path

theorem keeps_directoryVerifier (uid : UInt32) (directory : Handle) :
    Keeps ground (directoryVerifier uid directory) :=
  (keeps_resolve uid).bind fun _ =>
      (keeps_pathOf directory).bind fun path => keeps_during fun session =>
    (keeps_stat session path).bind fun _ => Keeps.of_pure

theorem keeps_read (uid : UInt32) (handle : Handle) (offset count : Nat) :
    Keeps ground (read uid handle offset count) :=
  (keeps_resolve uid).bind fun _ => (keeps_pathOf handle).bind fun _ => keeps_during fun session =>
    keeps_call (Link.keeps_ask session _ _)

theorem keeps_getAcl (uid : UInt32) (handle : Handle) : Keeps ground (getAcl uid handle) :=
  (keeps_resolve uid).bind fun _ =>
      (keeps_pathOf handle).bind fun path => keeps_during fun session =>
    (keeps_permissions session path).bind fun _ => Keeps.of_get.bind fun _ => Keeps.of_pure

theorem told_triple {account : Account} {c : Call}
    {action : Session → Store → Except StoreError Store} (g : Ground) :
    Triple (ground · = g) (Facade.during account fun session =>
      call (Link.tell session c (action session)))
      (fun _ f => ∃ session s', action session g.store = .ok s' ∧ f.ground = { g with store := s' })
      (fun _ f => f.ground = g) :=
  during_triple account
    (Q := fun _ g' => ∃ session s', action session g.store = .ok s' ∧ g' = { g with store := s' })
    (E := (· = g)) (fun session => (tell_triple session c (action session) g).weaken (fun _ h => h)
      (fun _ _ ⟨s', hs', hf⟩ => ⟨session, s', hs', hf⟩) fun _ _ h => h) rfl

theorem change_triple {account : Account} {c : Call}
    {action : Session → Store → Except StoreError Store} {rest : FacadeM α}
    (h : ∀ session s', action session g.store = .ok s' →
      Triple (ground · = { g with store := s' }) rest (fun _ f => g.Advances f.ground)
        (fun _ f => g.Advances f.ground)) :
    Triple (ground · = g) (do
        Facade.during account fun session => call (Link.tell session c (action session))
        rest)
      (fun _ f => g.Advances f.ground) (fun _ f => g.Advances f.ground) := by
  refine Triple.bind ((told_triple g).weaken (fun _ h => h) (fun _ _ h => h) fun _ f hf =>
      hf ▸ .refl g) fun _ => ?_
  refine Triple.of_view
    (C := fun g' => ∃ session s', action session g.store = .ok s' ∧ g' = { g with store := s' }) ?_
  rintro - ⟨session, s', hs', rfl⟩
  exact h session s' hs'

theorem made_triple {account : Account} {path : Path} {c : Call}
    {action : Session → Store → Except StoreError Store} {kind : ObjectKind} (h : ∀ session s s',
      action session s = .ok s' → Settles s s' ∧ s'.standing? path.place ≠ none) :
    InStep (do
      Facade.during account fun session => call (Link.tell session c (action session))
      changeCache (·.putObjectType path kind)
      changeCache (·.forgetAttributes path)
      handleFor path) := fun g => by
  refine change_triple fun session s' hs' => ?_
  obtain ⟨hsettles, hthere⟩ := h session g.store s' hs'
  have hsettled : g.Advances { g with store := s' } :=
    .settled hsettles.effect hsettles.textual hsettles.stands
  refine then_changeCache (by intro; rfl) (then_changeCache (by intro; rfl) ?_)
  exact (handleFor_advances fun _ => .inl hthere).weaken (fun _ h => h)
    (fun _ _ h => hsettled.trans h.1)
    fun _ _ h => hsettled.trans h

theorem InStep.create (uid : UInt32) (parent : Handle) (name : String) (type : FileType) :
    InStep (create uid parent name type) := by
  unfold Facade.create
  split
  · exact .of_keeps Keeps.of_throw_bind
  · refine .bind (.of_keeps (keeps_resolve uid)) fun user => .bind_childPath fun path hpath => ?_
    exact .bind (.of_keeps Keeps.of_get) fun f =>
      made_triple fun session s s' => settles_createDataObject hpath

theorem InStep.mkdir (uid : UInt32) (parent : Handle) (name : String) :
    InStep (mkdir uid parent name) :=
  .bind (.of_keeps (keeps_resolve uid)) fun _ => .bind_childPath fun _ hpath =>
    made_triple fun _ _ _ => settles_createCollection hpath

theorem changeRegistry_triple {change : Registry → Except Registry.Error Registry} {r : Registry}
    (h : change g.registry = .ok r) : Triple (ground · = g) (changeRegistry change)
      (fun _ f => f.ground = { g with registry := r }) (fun _ _ => False) := by
  rintro f rfl
  have h : change f.registry = .ok r := h
  simp only [changeRegistry, h]
  rfl

theorem InStep.remove (uid : UInt32) (parent : Handle) (name : String) :
    InStep (remove uid parent name) := by
  refine .bind (.of_keeps (keeps_resolve uid)) fun user => .bind_childPath fun path hpath g => ?_
  refine change_triple fun session s' hs' =>
    advances_of_lockstep fun hg => then_changeCache (by intro; rfl) ?_
  obtain ⟨-, hchildless, rfl⟩ := Store.remove_eq_ok hs'
  obtain ⟨r', hr', hinverse, hnext, hpaths⟩ := hg.inverse.giveUp path
  refine (changeRegistry_triple (g := { g with store := g.store.removed path.place }) hr').weaken
    (fun _ h => h)
    (fun _ f hf => hf ▸ ?_) fun _ _ h => h.elim
  exact .removed hchildless hpath fun _ => ⟨hinverse, hnext, fun h q => (hpaths h q).1⟩

theorem keeps_checkMove (source target : Path) :
    Keeps ground (changeRegistry fun r => (r.checkMove source target).map fun _ => r) := fun f => by
  simp only [changeRegistry]
  cases f.registry.checkMove source target <;> rfl

theorem InStep.rename (uid : UInt32) (parent : Handle) (name : String) (toParent : Handle)
    (toName : String) :
    InStep (rename uid parent name toParent toName) := by
  refine .bind (.of_keeps (keeps_resolve uid)) fun user => ?_
  refine .bind_childPath fun source hsource => .bind_childPath fun target htarget => ?_
  split
  · exact .of_keeps Keeps.of_pure
  · refine .bind (.of_keeps (keeps_checkMove source target)) fun _ g =>
      change_triple fun session s' hs' => ?_
    have hmovable := Store.movable_of_rename hs'
    obtain ⟨-, -, -, -, rfl⟩ := Store.rename_eq_ok hs'
    have ht : target.strictlyWithin source = false := Bool.eq_false_iff.2 fun h =>
      hmovable.outside (Path.strictlyWithin_iff.1 h).1
    refine then_changeCache (by intro; rfl) (then_changeCache (by intro; rfl) ?_)
    refine (changeRegistry_triple
      (g := { g with store := g.store.renamed source.place target.place })
      (r := g.registry.relocated source target) ?_).weaken (fun _ h => h) (fun _ f hf => hf ▸ ?_)
      fun _ _ h => h.elim
    · rw [Registry.moveTree_eq ht]
      rfl
    · exact .renamed hmovable hsource htarget

theorem InStep.write (uid : UInt32) (handle : Handle) (offset : Nat) (bytes : List UInt8) :
    InStep (write uid handle offset bytes) := by
  refine .bind (.of_keeps (keeps_resolve uid)) fun user =>
    .bind (.of_keeps (keeps_pathOf handle)) fun path => ?_
  refine .bind (.during fun session g => ?_) fun written =>
    .of_keeps (Keeps.bind (keeps_changeCache fun _ => rfl) fun _ => Keeps.of_pure)
  refine (call_triple (Q := fun n s' => g.store.write session.user path offset bytes = .ok (n, s'))
    (Link.perform_triple session _ _ g.store)).weaken (fun _ h => h) ?_ fun _ f hf => hf ▸ .refl g
  rintro n f ⟨s', hs', hf⟩
  obtain ⟨-, -, -, -, -, -, rfl⟩ := Store.write_eq_ok hs'
  have hsettles := settles_rewritten g.store path.place (·.write offset bytes)
  exact hf ▸ .settled hsettles.effect hsettles.textual hsettles.stands

/-! ### Access lists -/

theorem InStep.forM {ι : Type} {body : ι → FacadeM PUnit} (h : ∀ i, InStep (body i)) (is : List ι) :
    InStep (is.forM body) := by
  induction is with
  | nil => exact .of_keeps Keeps.of_pure
  | cons i is ih => exact .bind (h i) fun _ => ih

theorem InStep.applyChange (session : Session) (path : Path) (change : AclChange) :
    InStep (applyChange session path change) := by
  refine .bind (.forM (fun entry => .tell fun s s' h => ?_) _) fun _ =>
    .forM (fun entry => .tell fun s s' h => ?_) _
  · obtain ⟨-, rfl⟩ := Store.revoke_eq_ok h
    exact settles_changeAcl ..
  · obtain ⟨-, -, rfl⟩ := Store.grant_eq_ok h
    exact settles_changeAcl ..

theorem keeps_toEntries (r : Resolver) (ids : Identities) (session : Session) (aces : List Ace) :
    Keeps Link.store (AclExchange.toEntries r ids session aces) := by
  induction aces with
  | nil => exact Keeps.of_pure
  | cons ace aces ih =>
    refine Keeps.bind ?_ fun entry => ih.bind fun entries => Keeps.of_pure
    unfold AclExchange.toEntry
    split
    · exact Keeps.of_pure
    · refine (Link.keeps_findUser session _).bind fun found => ?_
      split <;> exact Keeps.of_pure

theorem InStep.replaceAcl (session : Session) (path : Path) (aces : List Ace) :
    InStep (replaceAcl session path aces) := by
  refine .bind (.of_keeps (keeps_stat session path)) fun status => ?_
  refine .bind (.of_keeps (keeps_call (Link.keeps_ask session _ _))) fun current => ?_
  refine .bind (.of_keeps Keeps.of_get) fun f => ?_
  refine .bind (.of_keeps (keeps_call (keeps_toEntries _ _ session aces))) fun incoming => ?_
  refine .bind (.applyChange session path _) fun _ => .of_keeps ?_
  exact Keeps.bind (keeps_changeCache fun _ => rfl) fun _ => keeps_changeCache fun _ => rfl

theorem InStep.setAcl (uid : UInt32) (handle : Handle) (aces : List Ace) :
    InStep (setAcl uid handle aces) := by
  unfold Facade.setAcl
  split
  · exact .of_keeps Keeps.of_pure
  · refine .bind (.of_keeps (keeps_resolve uid)) fun user =>
      .bind (.of_keeps (keeps_pathOf handle)) fun path => ?_
    refine .during fun session =>
      .bind (.of_keeps (keeps_userProfile session user.name)) fun profile => ?_
    refine .bind (.of_keeps (keeps_allowListed user profile path)) fun listed => ?_
    refine .bind (.of_keeps Keeps.of_get) fun f => ?_
    dsimp only
    split
    · exact .during fun adminSession => .replaceAcl adminSession path aces
    · exact .replaceAcl session path aces

theorem keeps_checkAccess (uid : UInt32) (handle : Handle) (mask : Mask) :
    Keeps ground (checkAccess uid handle mask) := by
  refine (keeps_resolve uid).bind fun user =>
    (keeps_pathOf handle).bind fun path => Keeps.bind Keeps.of_get fun f => ?_
  split
  · exact Keeps.of_pure
  · exact (keeps_decideAccess user path mask).bind fun decision =>
      Keeps.bind (keeps_changeCache fun _ => rfl) fun _ => Keeps.of_pure

/-! ### Listings -/

theorem currentListing_triple (session : Session) (user : Principal) (path : Path) {status : Status}
    {o : StoredObject} (ho : g.store.object? path = some o) (ht : o.modifiedAt = status.modifiedAt)
    (hg : g.Lockstep) :
    Triple (ground · = g) (currentListing session user path status)
      (fun listing f => g.Advances f.ground ∧ f.ground.store = g.store ∧
        ∀ e ∈ listing.entries, g.Shown (path.child e.name))
      (fun _ f => g.Advances f.ground) := by
  -- a kept listing counts only if its time is still that of the collection
  have hlines : ∀ listing : Listing, listing.marker = status.modifiedAt →
      g.store.Shows listing.marker listing.entries →
      ∀ e ∈ listing.entries, g.Shown (path.child e.name) := by
    intro listing hm hs e he
    obtain ⟨n, i, hn, hi⟩ := (hs.lines path.place o ho (ht.trans hm.symm) e).1 he
    obtain ⟨p, hp⟩ := hg.sound.spelled.of_standing hi
    have hplain : Spelling.Plain n := Path.plain_of_mem_place (p := p) (by simp [hp])
    rw [Ground.Shown, ← hn, Path.place_child hplain.shown]
    exact Store.standing_or_shadow (by simp [hi])
  refine Triple.bind Triple.of_get fun f => ?_
  split
  · next listing hfound =>
    refine Triple.of_pure ?_
    rintro s ⟨rfl, rfl⟩
    obtain ⟨hcached, hmarker⟩ := Option.filter_eq_some_iff.1 hfound
    obtain ⟨since, hsince⟩ := Cache.fresh_eq_some hcached
    have hmarker : listing.marker = status.modifiedAt := of_decide_eq_true hmarker
    exact ⟨.refl _, rfl, hlines listing hmarker (hg.listed _ _ hsince)⟩
  · refine Triple.bind (Q := fun entries s => s.ground = g ∧ entries = g.store.children path.place)
      ((list_triple session path g).weaken (fun _ h => h.2) (fun _ _ h => h) fun _ s hs =>
          hs ▸ .refl g) fun entries => ?_
    refine Triple.of_known ?_
    rintro rfl
    have hs : g.store.Shows status.modifiedAt (g.store.children path.place) :=
      ht ▸ Store.shows_children hg.sound.timed ho
    refine Triple.bind (Q := fun _ s => g.Advances s.ground ∧ s.ground.store = g.store) ?_ fun _ =>
      Triple.of_pure fun s h => ⟨h.1, h.2, hlines _ rfl hs⟩
    rintro s rfl
    exact ⟨ht ▸ .keep ho (user.name, path.place) s.cache.now, rfl⟩

theorem keeps_listAttributes (session : Session) (user : Principal) (child : Path)
    (cookie : Nat) (name : String) (handle : Handle) :
    Keeps ground (listAttributes session user child cookie name handle) := by
  refine Keeps.bind Keeps.of_get fun f => ?_
  split
  · exact Keeps.of_pure
  · refine Keeps.of_catch ((keeps_fetchAttributes session user handle _).bind fun _ =>
        Keeps.of_pure) fun e => ?_
    split
    · exact Keeps.of_pure
    · exact Keeps.of_throw

theorem listEntry_triple (session : Session) (user : Principal) (path : Path) (cookie : Nat)
    (entry : ListingEntry) (h : g.Lockstep → g.Shown (path.child entry.name)) :
    Triple (ground · = g) (listEntry session user path cookie entry)
      (fun _ f => g.Advances f.ground ∧ f.ground.store = g.store)
      (fun _ f => g.Advances f.ground) := by
  refine Triple.bind (handleFor_advances h) fun handle => ?_
  refine Triple.of_view (C := fun g' => g.Advances g' ∧ g'.store = g.store) fun g' hg' => ?_
  have hrest : Keeps ground (do
      changeCache (·.putObjectType (path.child entry.name) entry.kind)
      listAttributes session user (path.child entry.name) cookie entry.name handle) :=
    Keeps.bind (keeps_changeCache fun _ => rfl) fun _ =>
      keeps_listAttributes session user _ cookie entry.name handle
  exact (hrest.triple g').weaken (fun _ h => h) (fun _ _ h => h ▸ hg') fun _ _ h => h ▸ hg'.1

theorem listEntries_triple (session : Session) (user : Principal) (path : Path) (after : Nat)
    {entries : List ListingEntry} (cookie : Nat) (h : ∀ e ∈ entries, g.Shown (path.child e.name)) :
    Triple (ground · = g) (listEntries session user path after cookie entries)
      (fun _ f => g.Advances f.ground ∧ f.ground.store = g.store)
      (fun _ f => g.Advances f.ground) := by
  -- the lines share one store, in which all children are there; only the registry moves on from
  -- line to line
  induction entries generalizing g cookie with
  | nil => exact Triple.of_pure fun f hf => hf ▸ ⟨.refl _, rfl⟩
  | cons entry rest ih =>
    have hlines : ∀ line : Option DirEntry,
        Triple (fun f => g.Advances f.ground ∧ f.ground.store = g.store) (do
        let lines ← listEntries session user path after (cookie + 1) rest
        return line.toList ++ lines)
        (fun _ f => g.Advances f.ground ∧ f.ground.store = g.store)
        (fun _ f => g.Advances f.ground) := by
      intro line
      refine Triple.of_view (C := fun g' => g.Advances g' ∧ g'.store = g.store)
        fun g' ⟨hg', hstore⟩ => ?_
      refine Triple.bind ((ih (cookie + 1) fun e he => by
        rw [Ground.Shown, hstore]
        exact h e (List.mem_cons_of_mem _ he)).weaken (fun _ h => h)
        (fun _ _ h => h) fun _ _ h => hg'.trans h) fun lines => ?_
      exact Triple.of_pure fun f hf => ⟨hg'.trans hf.1, hf.2.trans hstore⟩
    unfold listEntries
    split
    · exact Triple.bind (Q := fun _ f => g.Advances f.ground ∧ f.ground.store = g.store)
        (Triple.of_pure fun f hf => hf ▸ ⟨.refl _, rfl⟩) hlines
    · exact Triple.bind (listEntry_triple session user path cookie entry fun _ =>
          h entry List.mem_cons_self) hlines

theorem InStep.list (uid : UInt32) (directory : Handle) (cookie : Nat) :
    InStep (list uid directory cookie) := by
  refine .bind (.of_keeps (keeps_resolve uid)) fun user =>
    .bind (.of_keeps (keeps_pathOf directory)) fun path => ?_
  refine .during fun session g => advances_of_lockstep fun hg => ?_
  refine Triple.bind
    ((stat_triple session path g).weaken (fun _ h => h) (fun _ _ h => h) fun _ f hf => hf ▸ .refl g)
    fun status => Triple.of_known ?_
  rintro ⟨o, ho, ht⟩
  split
  · exact InStep.of_keeps Keeps.of_throw_bind g
  · refine Triple.bind (currentListing_triple session user path ho ht hg) fun listing => ?_
    refine Triple.of_view (C := fun g' => g.Advances g' ∧ g'.store = g.store ∧
      ∀ e ∈ listing.entries, g.Shown (path.child e.name)) ?_
    rintro g' ⟨hg', hstore, hlines⟩
    exact (listEntries_triple session user path cookie firstCookie fun e he => by
      rw [Ground.Shown, hstore]
      exact hlines e he).weaken (fun _ h => h)
      (fun _ _ h => hg'.trans h.1) fun _ _ h => hg'.trans h

/-! ## Runs -/

theorem InStep.perform (operation : Operation) : InStep (perform operation) := by
  cases operation with
  | lookup uid parent name => exact .bind (.lookup uid parent name) fun _ => .of_keeps Keeps.of_pure
  | getattr uid handle =>
    exact .bind (.of_keeps (keeps_getattr uid handle)) fun _ => .of_keeps Keeps.of_pure
  | setattr uid handle =>
    refine .bind (.bind (.of_keeps (keeps_pathOf handle)) fun _ => ?_) fun _ =>
      .of_keeps Keeps.of_pure
    exact .of_keeps (keeps_getattr uid handle)
  | list uid directory cookie =>
    exact .bind (.list uid directory cookie) fun _ => .of_keeps Keeps.of_pure
  | directoryVerifier uid directory =>
    exact .bind (.of_keeps (keeps_directoryVerifier uid directory)) fun _ => .of_keeps Keeps.of_pure
  | create uid parent name type =>
    exact .bind (.create uid parent name type) fun _ => .of_keeps Keeps.of_pure
  | mkdir uid parent name => exact .bind (.mkdir uid parent name) fun _ => .of_keeps Keeps.of_pure
  | remove uid parent name => exact .bind (.remove uid parent name) fun _ => .of_keeps Keeps.of_pure
  | rename uid parent name toParent toName =>
    exact .bind (.rename uid parent name toParent toName) fun _ => .of_keeps Keeps.of_pure
  | read uid handle offset count =>
    exact .bind (.of_keeps (keeps_read uid handle offset count)) fun _ => .of_keeps Keeps.of_pure
  | write uid handle offset bytes =>
    exact .bind (.write uid handle offset bytes) fun _ => .of_keeps Keeps.of_pure
  | getAcl uid handle =>
    exact .bind (.of_keeps (keeps_getAcl uid handle)) fun _ => .of_keeps Keeps.of_pure
  | setAcl uid handle aces => exact .bind (.setAcl uid handle aces) fun _ => .of_keeps Keeps.of_pure
  | checkAccess uid handle mask =>
    exact .bind (.of_keeps (keeps_checkAccess uid handle mask)) fun _ => .of_keeps Keeps.of_pure
  | parentOf handle => exact .bind (.parentOf handle) fun _ => .of_keeps Keeps.of_pure
  | commit handle | fsStat handle =>
    exact .bind (.of_keeps ((keeps_pathOf handle).bind fun _ => Keeps.of_pure)) fun _ =>
      .of_keeps Keeps.of_pure
  | hardLink => exact .of_keeps Keeps.of_throw_bind
  | symlink => exact .of_keeps Keeps.of_throw_bind
  | readlink => exact .of_keeps Keeps.of_throw_bind

theorem advances_step (f : Facade) (move : Move) : f.ground.Advances (f.step move).2.ground := by
  cases move with
  | pause milliseconds => exact .refl _
  | ask operation =>
    have := InStep.perform operation f.ground f rfl
    rcases h : (perform operation f : Except FacadeError Answer × Facade) with ⟨e | a, f'⟩ <;>
      simpa [Facade.step, h] using this

theorem advances_run (f : Facade) (moves : List Move) : f.ground.Advances (f.run moves).ground := by
  induction moves generalizing f with
  | nil => exact .refl _
  | cons move moves ih => exact (advances_step f move).trans (ih _)

theorem look_triple (admin : Account) (mountPoint : Path) (s : Store) :
    Triple (Link.store · = s) (look admin mountPoint)
      (fun _ l => l.store = s ∧ ∃ o, s.object? mountPoint = some o)
      (fun _ l => l.store = s) := by
  refine Link.during_triple (Q := fun _ s' => s' = s ∧ ∃ o, s.object? mountPoint = some o)
    (E := (· = s))
    (fun session => ?_) rfl
  refine Triple.bind (Link.Triple.failingAs (Link.stat_triple session mountPoint s)) fun status =>
    Triple.of_known ?_
  rintro ⟨kind, base, hbase, -⟩
  obtain ⟨o, ho, -⟩ := Store.bind_eq_ok hbase
  split
  · exact Triple.of_throw fun _ h => h
  · exact Triple.of_pure fun _ h => ⟨h, o, Store.find_eq_ok ho⟩

variable {link : Link} {ids : Identities} {resolver : Resolver} {allowList : AllowList}
    {options : Options} {f : Facade}

theorem mount_eq_ok (hm : (mount link ids resolver allowList options).1 = .ok f) :
    ∃ rootObjectId l registry, look resolver.admin options.mountPoint link = (.ok rootObjectId, l) ∧
      Registry.empty.establishRoot options.mountPoint = .ok registry ∧
      f = ⟨l, ids, resolver, allowList, options, rootObjectId, registry,
        Cache.new options.lifetimes⟩ := by
  simp only [mount] at hm
  rcases h : (look resolver.admin options.mountPoint link : Except FacadeError Nat ×
    Link) with ⟨e | a, l⟩ <;>
    rw [h] at hm
  · cases hm
  · cases hr : Registry.empty.establishRoot options.mountPoint with
    | error e => simp only [hr] at hm; cases hm
    | ok r =>
      simp only [hr] at hm
      cases hm
      exact ⟨a, l, r, rfl, rfl, rfl⟩

/-- What a mount that went well over the store `s` leaves behind. -/
structure Mounted (s : Store) (options : Options) (f : Facade) : Prop where
  store : f.link.store = s
  root : s.object? options.mountPoint ≠ none
  inverse : f.registry.Inverse
  next : f.registry.next = Registry.rootHandle + 1
  paths : ∀ h p, f.registry.pathOf? h = some p ↔ h = Registry.rootHandle ∧ p = options.mountPoint
  cache : f.cache = Cache.new options.lifetimes
  kept : f.options = options

theorem mounted (hm : (mount link ids resolver allowList options).1 = .ok f) :
    f.Mounted link.store options := by
  obtain ⟨rootObjectId, l, registry, hlook, hroot, rfl⟩ := mount_eq_ok hm
  obtain ⟨hinverse, hnext, hpaths⟩ := Registry.establishRoot_empty hroot
  have hlooked := look_triple resolver.admin options.mountPoint link.store link rfl
  rw [hlook] at hlooked
  obtain ⟨hstore, o, ho⟩ := hlooked
  exact ⟨hstore, by simp [ho], hinverse, hnext, hpaths, rfl, rfl⟩

theorem Mounted.lockstep {s : Store} (h : f.Mounted s options) (hs : s.Sound) :
    f.ground.Lockstep := by
  have hground : f.ground = ⟨s, f.registry, .empty⟩ := by
    rw [← h.store, ground, h.cache]
    rfl
  rw [hground]
  refine ⟨hs, h.inverse, fun i p hp => ?_, fun i p hp => ?_, fun key l hl => by simp at hl⟩
  · obtain ⟨rfl, -⟩ := (h.paths i p).1 hp
    exact Nat.lt_of_lt_of_eq (Nat.lt_succ_self _) h.next.symm
  · obtain ⟨-, rfl⟩ := (h.paths i p).1 hp
    exact .inl fun hn => h.root (Store.standing?_eq_none_iff.1 hn)

def sampleAccount : Account := ⟨"localhost", 1247, "z", "r", "rods", "p", "rods", ⟨"/z"⟩⟩

def sampleLink : Link := .ofServer (.ofStore (.new "z" "rods"))

def sampleMount (lifetimes : Lifetimes) : Except FacadeError Facade :=
  (mount sampleLink .empty (.new .empty sampleAccount .asKept) (.new sampleAccount "k")
    ⟨⟨"/z"⟩, "z", true, lifetimes⟩).1

theorem eq_ok_of_toOption {ε α : Type} {x : Except ε α} {a : α} (h : x.toOption = some a) :
    x = .ok a := by
  cases x with
  | error e => cases h
  | ok b => rw [Option.some.inj h]

theorem exists_of_any {ε α : Type} {x : Except ε α} {p : α → Bool} (h : x.toOption.any p = true) :
    ∃ a, x = .ok a ∧ p a = true := by
  obtain ⟨a, ha, hp⟩ := (Option.any_eq_true _ _).1 h
  exact ⟨a, eq_ok_of_toOption ha, hp⟩

end StoreMount.Facade
