import StoreMount.Proofs.Facade.Settled

/-!
# What changes make the caches forget

An operation that changes the store makes the caches forget, before it answers, whatever no longer
shows: what is at or below a place that was removed, moved or moved over, and the attributes of a
place that was created or written. So the caches are truthful about the world that the operation
leaves.
-/
namespace StoreMount

variable {s s' : Store}

theorem Store.Spares.mono {C D : Place → Prop} (h : Store.Spares s s' C) (hC : ∀ k, D k → C k) :
    Store.Spares s s' D :=
  fun k o hk ho => h k o (hC k hk) ho

theorem World.Sound.effect {w : World} (hw : w.Sound) (he : w.store.Effect s') {r' : Registry}
    (hr : r'.Inverse) :
    World.Sound { w with store := s', registry := r' } :=
  ⟨hw.rooted.effect he, hr, hw.made, hw.faithful⟩

namespace Facade

variable {α β : Type} {w w' : World} {K K' : Cache → Prop} {account : Account}

/-! ## One change of the store -/

theorem perform_settled (hw : w.Sound) {c : Call}
    (action : String → Store → Except StoreError (α × Store)) {rest : α → FacadeM β}
    (h : ∀ a s', action account.clientUser w.store = .ok (a, s') →
      Settled (Holds { w with store := s' } (Cache.Truthful · w)) (rest a)) :
    Settled (Shows w) (Facade.during account
      (fun session => call (Link.perform session c (action session.user))) >>= rest) := by
  cases hadmits : w.store.admits account with
  | error e => exact .bind_error hw (during_gives_error hadmits)
  | ok _ =>
    cases ha : action account.clientUser w.store with
    | error e =>
      refine .bind_error hw (e := .ofStore e) (during_gives hadmits fun session hsession => ?_)
      exact call_gives (Link.perform_gives_error (hsession ▸ ha))
    | ok answer =>
      obtain ⟨a, s'⟩ := answer
      refine .bind_ok (a := a)
        (during_gives (v := { w with store := s' }) hadmits fun session hsession => ?_) (h a s' ha)
      exact call_gives (Link.perform_gives_ok (hsession ▸ ha))

theorem tell_settled (hw : w.Sound) {c : Call} (action : String → Store → Except StoreError Store)
    {rest : FacadeM β} (h : ∀ s', action account.clientUser w.store = .ok s' →
      Settled (Holds { w with store := s' } (Cache.Truthful · w)) rest) :
    Settled (Shows w) (do
      Facade.during account fun session => call (Link.tell session c (action session.user))
      rest) := by
  refine perform_settled hw (fun user s => (action user s).map ((), ·)) fun _ s' ha => ?_
  cases hs : action account.clientUser w.store with
  | error e => rw [hs] at ha; cases ha
  | ok s'' =>
    rw [hs] at ha
    cases ha
    exact h _ hs

theorem changeRegistry_gives {change : Registry → Except Registry.Error Registry} {r' : Registry}
    (h : change w.registry = .ok r') :
    Gives (Holds w K) (changeRegistry change) (.ok ()) (Holds { w with registry := r' } K) := by
  rintro f ⟨rfl, hl, hc⟩
  have h : change f.registry = .ok r' := h
  simp only [changeRegistry, h, true_and]
  exact ⟨rfl, hl, hc⟩

theorem checkMove_gives (source target : Path) :
    Gives (Holds w K) (changeRegistry fun r => (r.checkMove source target).map fun _ => r)
      ((w.registry.checkMove source target).mapError .invariant) (Holds w K) := by
  rintro f hf
  have hregistry : f.registry = w.registry := congrArg World.registry hf.world
  simp only [changeRegistry, hregistry]
  cases w.registry.checkMove source target with
  | error e => exact ⟨rfl, hf⟩
  | ok _ => exact ⟨rfl, hregistry ▸ hf⟩

theorem truthful_forgetAttributes {c : Cache} (hc : c.Truthful w) {path : Path}
    (hu : s'.users = w.store.users) (hspares : w.store.Spares s' (· ≠ path.place))
    (hacl : w.store.SparesAcl s' fun _ => True) :
    (c.forgetAttributes path).Truthful { w with store := s' } :=
  hc.changed (r := w.registry) hu hspares hacl (fun _ _ _ h => h)
    (fun _ _ _ h => Cache.get?_forgetAttributes h)
    (fun _ _ h => ⟨h, trivial⟩) rfl

theorem made_settled (hw : w.Sound) {path : Path} {c : Call}
    (action : String → Store → Except StoreError Store) {kind : ObjectKind}
    (h : ∀ s', action account.clientUser w.store = .ok s' →
      w.store.Effect s' ∧ w.store.Spares s' (· ≠ path.place) ∧ w.store.SparesAcl s' fun _ => True) :
    Settled (Shows w) (do
      Facade.during account fun session => call (Link.tell session c (action session.user))
      changeCache (·.putObjectType path kind)
      changeCache (·.forgetAttributes path)
      handleFor path) := by
  refine tell_settled hw action fun s' hs' => ?_
  obtain ⟨heffect, hspares, hacl⟩ := h s' hs'
  refine .bind_ok (changeCache_gives (I := (Cache.Truthful · w)) fun c hc =>
      hc.putObjectType path kind) ?_
  refine .bind_ok
    (changeCache_gives (I := (Cache.Truthful · { w with store := s' })) fun c hc => ?_)
    (handleFor_settled (hw.effect heffect hw.inverse) path)
  exact truthful_forgetAttributes hc heffect.users hspares hacl

theorem create_settled (hw : w.Sound) (uid : UInt32) (parent : Handle) (name : String)
    (type : FileType) :
    Settled (Shows w) (create uid parent name type) := by
  unfold create
  split
  · exact .of_gives hw Gives.of_throw_bind
  · refine .of_resolve hw fun user w hw => .of_childPath hw fun path => .of_get (m := do
      Facade.during user.account fun session =>
        call (Link.createDataObject session path w.allowOverwrite)
      changeCache (·.putObjectType path .dataObject)
      changeCache (·.forgetAttributes path)
      handleFor path) (by rintro s rfl; rfl) (made_settled hw
        (fun user s => s.createDataObject user path w.allowOverwrite) fun s' hs' => ?_)
    refine ⟨Store.effect_createDataObject hs', ?_⟩
    obtain ⟨o, -, -, -, -, rfl⟩ | ⟨hn, -, rfl⟩ := Store.createDataObject_eq_ok hs'
    · exact ⟨Store.spares_rewritten _ _, Store.sparesAcl_rewritten _ _⟩
    · have hspares := Store.spares_insertObject
        (Store.vacant_of_checkNewChild hn) .dataObject user.account.clientUser .empty
      exact ⟨hspares.mono fun _ _ => trivial, hspares.acl⟩

theorem mkdir_settled (hw : w.Sound) (uid : UInt32) (parent : Handle) (name : String) :
    Settled (Shows w) (mkdir uid parent name) := by
  refine .of_resolve hw fun user w hw => .of_childPath hw fun path =>
    made_settled hw (fun user s => s.createCollection user path) fun s' hs' => ?_
  obtain ⟨hn, -, rfl⟩ := Store.createCollection_eq_ok hs'
  have hspares := Store.spares_insertObject
    (Store.vacant_of_checkNewChild hn) .collection user.account.clientUser .empty
  exact ⟨Store.effect_createCollection hs', hspares.mono fun _ _ => trivial, hspares.acl⟩

theorem remove_settled (hw : w.Sound) (uid : UInt32) (parent : Handle) (name : String) :
    Settled (Shows w) (remove uid parent name) := by
  refine .of_resolve hw fun user w hw => .of_childPath hw fun path =>
    tell_settled hw (fun user s => s.remove user path) fun s' hs' => ?_
  have heffect := Store.effect_remove hs'
  obtain ⟨hrequire, -, rfl⟩ := Store.remove_eq_ok hs'
  obtain ⟨o, ho⟩ := Store.object?_of_require hrequire
  have hspares :=
      (Store.spares_removed hw.rooted ho).mono (D := fun k => ¬path.place <+: k) fun k hk he =>
    hk (he ▸ List.prefix_refl _)
  obtain ⟨r', hr', hinverse, -, hpaths⟩ := hw.inverse.giveUp path
  refine .bind_ok (changeCache_gives
    (I := (Cache.Truthful · { w with store := w.store.removed path.place, registry := r' }))
    fun c hc => ?_) (.of_gives (hw.effect heffect hinverse) (changeRegistry_gives hr'))
  refine hc.changed heffect.users hspares hspares.acl (fun p handle hp hh => ?_)
    (fun _ _ _ h => Cache.attributesFor_forgetTree h)
    (fun _ _ h => Cache.permissionsOf_forgetTree h) rfl
  refine hw.inverse.handleOf?_kept hinverse (fun q hq he => ?_) hh
  exact (hpaths handle q).2 ⟨hq, fun hplace => hp (hplace ▸ he ▸ List.prefix_refl _)⟩

theorem rename_settled (hw : w.Sound) (uid : UInt32) (parent : Handle)
    (name : String) (toParent : Handle) (toName : String) :
    Settled (Shows w) (rename uid parent name toParent toName) := by
  refine .of_resolve hw fun user w hw =>
    .of_childPath hw fun source => .of_childPath hw fun target => ?_
  split
  · exact .of_gives hw Gives.of_pure
  · refine .bind hw (checkMove_gives source target) fun _ _ =>
      tell_settled hw (fun user s => s.rename user source target) fun s' hs' => ?_
    have heffect := Store.effect_rename hs'
    have hmovable := Store.movable_of_rename hs'
    obtain ⟨-, -, -, -, rfl⟩ := Store.rename_eq_ok hs'
    have ht : target.strictlyWithin source = false := Bool.eq_false_iff.2 fun h =>
      hmovable.outside (Path.strictlyWithin_iff.1 h).1
    have hinverse := hw.inverse.moveTree ht
    have hspares := Store.spares_renamed hw.rooted hmovable
    have hmoved : w.registry.moveTree source target =
      .ok ((w.registry.cleared target).handleOf? source,
      w.registry.relocated source target) := Registry.moveTree_eq ht
    -- the caches are true to the new world only when both subtrees are forgotten
    refine .bind_ok
      (changeCache_gives (I := fun c => ∃ c₀ : Cache, c₀.Truthful w ∧ c = c₀.forgetTree source)
      fun c hc => ⟨c, hc, rfl⟩) ?_
    refine .bind_ok (changeCache_gives (I := (Cache.Truthful · { w with
      store := w.store.renamed source.place target.place
      registry := w.registry.relocated source target })) ?_)
      (.of_gives (hw.effect heffect hinverse) (changeRegistry_gives (by rw [hmoved]; rfl)))
    rintro - ⟨c, hc, rfl⟩
    refine hc.changed heffect.users hspares hspares.acl (fun p handle hp hh => ?_)
      (fun _ _ _ h => ?_) (fun _ _ h => ?_) rfl
    · exact hw.inverse.handleOf?_kept hinverse
        (fun q hq he => hw.inverse.pathOf?_moveTree ht hq (he ▸ hp.1) (he ▸ hp.2)) hh
    · obtain ⟨hfound, htarget⟩ := Cache.attributesFor_forgetTree h
      obtain ⟨hfound, hsource⟩ := Cache.attributesFor_forgetTree hfound
      exact ⟨hfound, hsource, htarget⟩
    · obtain ⟨hfound, htarget⟩ := Cache.permissionsOf_forgetTree h
      obtain ⟨hfound, hsource⟩ := Cache.permissionsOf_forgetTree hfound
      exact ⟨hfound, hsource, htarget⟩

theorem write_settled (hw : w.Sound) (uid : UInt32) (handle : Handle) (offset : Nat)
    (bytes : List UInt8) :
    Settled (Shows w) (write uid handle offset bytes) := by
  refine .of_resolve hw fun user w hw => .of_pathOf hw fun path _ =>
    perform_settled hw (fun user s => s.write user path offset bytes) fun written s' hs' => ?_
  have heffect := Store.effect_write hs'
  obtain ⟨-, -, -, -, -, -, rfl⟩ := Store.write_eq_ok hs'
  refine .bind_ok (changeCache_gives (I := (Cache.Truthful · _)) fun c hc => ?_)
    (.of_gives (hw.effect heffect hw.inverse) Gives.of_pure)
  exact truthful_forgetAttributes hc heffect.users (Store.spares_rewritten _ _)
    (Store.sparesAcl_rewritten _ _)

end Facade
end StoreMount
