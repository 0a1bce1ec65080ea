import StoreMount.Proofs.Facade.Quiet
import StoreMount.Proofs.Link.Calls

/-!
# What a facade has to do with

The scene of a facade is what it can do something about: the store, the registry, the listings it
keeps, and the calls it has made and the faults they may still meet. A facade acts in six ways only,
and only on paths that are near, where those it creates, removes and moves are moreover below: it
asks, changes the store, keeps a listing, hands out a handle, gives one up, or moves what is mapped.
A condition on the scene is an invariant if all of these keep it, and if it makes sure in return
that what a facade finds in the registry, in a listing and in the store is near again.
-/
namespace StoreMount

structure Scene where
  mountPoint : Path
  store : Store
  faults : List Fault
  calls : List Call
  registry : Registry
  listings : Table (String × Place) (Stamped Listing)

def Facade.scene (f : Facade) : Scene where
  mountPoint := f.options.mountPoint
  store := f.link.store
  faults := f.link.faults
  calls := f.link.calls
  registry := f.registry
  listings := f.cache.listingFor

namespace Scene

inductive Step (Near Below : Path → Prop) (s : Scene) : Scene → Prop
  | asked (made : List Call) (near : ∀ c ∈ made, ∀ p ∈ c.paths, Near p) {faults : List Fault}
      (quiet : s.faults = [] → faults = []) :
        Step Near Below s { s with calls := s.calls ++ made, faults }
  | changed {store : Store} (effect : s.store.Effect store) : Step Near Below s { s with store }
  | kept (user : String) {path : Path} {o : StoredObject} (there : s.store.object? path = some o)
      (since : Nat) :
      Step Near Below s { s with
        listings := s.listings.insert (user, path.place)
          ⟨⟨s.store.children path.place, o.modifiedAt⟩, since⟩ }
  | entered {path : Path} (near : Near path) :
      Step Near Below s { s with registry := (s.registry.handleFor path).2 }
  | gaveUp {path : Path} (below : Below path) {handle : Handle} {registry : Registry}
      (mapped : s.registry.handleOf? path = some handle)
      (unmapped : s.registry.unmap handle path = .ok registry) :
      Step Near Below s { s with registry }
  | moved {source target : Path} (source_below : Below source) (target_below : Below target)
      {answer : Option Handle × Registry} (done : s.registry.moveTree source target = .ok answer) :
      Step Near Below s { s with registry := answer.2 }

structure Invariant (Near Below : Path → Prop) (I : Scene → Prop) : Prop where
  step : ∀ {s s'}, Step Near Below s s' → I s → I s'
  near : ∀ {p}, Below p → Near p
  child : ∀ {p} {name : String}, Near p → Spelling.Plain name → Below (p.child name)
  mapped : ∀ {s h p}, I s → s.registry.pathOf? h = some p → Near p
  parent : ∀ {s h p up}, I s → s.registry.pathOf? h = some p → h ≠ Registry.rootHandle →
    p.place ≠ s.mountPoint.place → p.parent? = some up → Near up
  shown : ∀ {s user p l}, I s → s.listings.get? (user, p.place) = some l → Near p →
    ∀ e ∈ l.value.entries, Near (p.child e.name)
  children : ∀ {s p}, I s → Near p → ∀ e ∈ s.store.children p.place, Near (p.child e.name)

theorem Invariant.of_step {I : Scene → Prop}
    (h : ∀ {s s'}, Step (fun _ => True) (fun _ => True) s s' → I s → I s') :
    Invariant (fun _ => True) (fun _ => True) I where
  step hs hi := h hs hi
  near _ := trivial
  child _ _ := trivial
  mapped _ _ := trivial
  parent _ _ _ _ _ := trivial
  shown _ _ _ _ _ := trivial
  children _ _ _ _ := trivial

end Scene

namespace Facade

variable {Near Below : Path → Prop} {I : Scene → Prop} {α β : Type}

/-- The condition holds again however the action ends, and the answer is of a certain kind. -/
def Upholds (I : Scene → Prop) (m : FacadeM α) (C : α → Prop) : Prop :=
  Triple (fun f => I f.scene) m (fun a f => I f.scene ∧ C a) (fun _ f => I f.scene)

def Any (_ : α) : Prop := True

namespace Upholds

variable {m : FacadeM α} {f : α → FacadeM β} {C C' : α → Prop} {D : β → Prop}

theorem of_pure {a : α} (h : C a) : Upholds I (pure a) C := Triple.of_pure fun _ hf => ⟨hf, h⟩

theorem of_throw {e : FacadeError} : Upholds I (throw e) C := Triple.of_throw fun _ hf => hf

theorem of_throw_bind {e : FacadeError} : Upholds I (throw e >>= f) D := fun _ hf => hf

theorem of_keeps (h : Keeps scene m) : Upholds I m Any := fun f hf => by
  have hscene := h f
  rcases hm : (m f : Except FacadeError α × Facade) with ⟨e | a, f'⟩ <;> rw [hm] at hscene
  · exact (congrArg I hscene).mpr hf
  · exact ⟨(congrArg I hscene).mpr hf, trivial⟩

theorem bind (hm : Upholds I m C) (hf : ∀ a, C a → Upholds I (f a) D) : Upholds I (m >>= f) D :=
  Triple.bind hm fun a => Triple.of_known fun ha => hf a ha

theorem then_any (hm : Upholds I m Any) (hf : ∀ a, Upholds I (f a) D) : Upholds I (m >>= f) D :=
  hm.bind fun a _ => hf a

theorem of_get {f : Facade → FacadeM β} (hf : ∀ s, Upholds I (f s) D) : Upholds I (get >>= f) D :=
  fun s hs => hf s s hs

theorem of_catch {handler : FacadeError → FacadeM α} (hm : Upholds I m C)
    (hh : ∀ e, Upholds I (handler e) C) :
    Upholds I (tryCatch m handler) C := by
  intro s hs
  have := hm s hs
  rw [tryCatch_apply]
  rcases h : (m s : Except FacadeError α × Facade) with ⟨e | a, s'⟩ <;> rw [h] at this
  · exact hh e s' this
  · exact this

theorem changeCache {change : Cache → Cache} (h : ∀ c, (change c).listingFor = c.listingFor) :
    Upholds I (changeCache change) Any :=
  of_keeps (Keeps.of_modify fun f => congrArg (Scene.mk _ _ _ _ _) (h f.cache))

end Upholds

/-! ## Calls and sessions -/

@[simp] theorem scene_close (f : Facade) (session : Session) :
    ({ f with link := f.link.close session } : Facade).scene = f.scene :=
  congrArg₂ (Scene.mk _ · _ · _ _) (Link.store_close session f.link)
    (Link.calls_close session f.link)

theorem step_of_asked {f : Facade} {l : Link} (ha : Link.Asked Near f.link l)
    (hs : l.store = f.link.store) :
    Scene.Step Near Below f.scene ({ f with link := l } : Facade).scene := by
  obtain ⟨⟨made, hcalls, hnear⟩, hfaults⟩ := ha
  have hstep : Scene.Step Near Below f.scene _ := .asked made hnear hfaults
  simp only [scene, hs, hcalls] at hstep ⊢
  exact hstep

variable (hI : Scene.Invariant Near Below I)
include hI

theorem upholds_call {action : LinkM StoreError α} (ha : Link.Asks Near action)
    (hk : Keeps Link.store action) :
    Upholds I (call action) Any := by
  intro f hf
  have hstep := hI.step (step_of_asked (ha f.link) (hk f.link)) hf
  simp only [call]
  rcases h : (action f.link : Except StoreError α × Link) with ⟨e | a, l⟩ <;> rw [h] at hstep
  · exact hstep
  · exact ⟨hstep, trivial⟩

theorem upholds_ask (session : Session) {c : Call} (hc : ∀ p ∈ c.paths, Near p)
    (question : Store → Except StoreError α) :
    Upholds I (call (Link.ask session c question)) Any :=
  upholds_call hI (Link.asks_perform hc) (Link.keeps_ask session c question)

theorem upholds_perform (session : Session) {c : Call} (hc : ∀ p ∈ c.paths, Near p)
    {action : Store → Except StoreError (α × Store)}
    (he : ∀ s a s', action s = .ok (a, s') → s.Effect s') :
    Upholds I (call (Link.perform session c action)) Any := by
  intro f hf
  have hasked : Link.Asked Near f.link (Link.perform session c action f.link).2 :=
    Link.asks_perform hc f.link
  have hdone := Link.perform_triple session c action f.link.store f.link rfl
  simp only [call]
  rcases h : (Link.perform session c action f.link : Except StoreError α × Link) with ⟨e | a, l⟩
    <;> rw [h] at hasked hdone
  · exact hI.step (step_of_asked hasked hdone) hf
  · -- the call is made first, and then the store changes
    obtain ⟨⟨made, hcalls, hnear⟩, hfaults⟩ := hasked
    refine ⟨?_, trivial⟩
    have hafter := hI.step (.changed (he _ _ _ hdone)) (hI.step (.asked made hnear hfaults) hf)
    simp only [scene] at hafter ⊢
    rwa [hcalls]

theorem upholds_tell (session : Session) {c : Call} (hc : ∀ p ∈ c.paths, Near p)
    {action : Store → Except StoreError Store} (he : ∀ s s', action s = .ok s' → s.Effect s') :
    Upholds I (call (Link.tell session c action)) Any :=
  upholds_perform hI session hc fun s _ s' h => he s s' <| by
    cases ha : action s with
    | error e => simp [ha, Except.map] at h
    | ok t =>
      simp only [ha, Except.map, Except.ok.injEq, Prod.mk.injEq] at h
      rw [h.2]

theorem upholds_during {account : Account} {body : Session → FacadeM α} {C : α → Prop}
    (h : ∀ session, Upholds I (body session) C) : Upholds I (during account body) C := by
  refine (upholds_call hI (Link.asks_connect account) (Link.keeps_connect account)).then_any
    fun session f hf => ?_
  have := h session f hf
  rcases hb : (body session f : Except FacadeError α × Facade) with ⟨e | a, f'⟩ <;> rw [hb] at this
  · exact (congrArg I (scene_close f' session)).mpr this
  · exact ⟨(congrArg I (scene_close f' session)).mpr this.1, this.2⟩

theorem upholds_resolve (uid : UInt32) : Upholds I (resolve uid) Any := by
  intro f hf
  have hstep := hI.step (step_of_asked (Link.asked_resolve f.resolver f.identities uid f.link)
    (f.resolver.store_resolve f.identities uid f.link)) hf
  simp only [resolve]
  rcases h : f.resolver.resolve f.identities uid f.link with ⟨e | user, r, l⟩ <;> rw [h] at hstep
  · exact hstep
  · exact ⟨hstep, trivial⟩

/-! ## Paths and handles -/

omit hI in
theorem pathOf_mapped (handle : Handle) : Triple (fun f => I f.scene) (pathOf handle)
    (fun path f => I f.scene ∧ f.registry.pathOf? handle = some path) (fun _ f => I f.scene) := by
  refine Triple.bind Triple.of_get fun f => ?_
  split
  · next path hpath =>
    refine Triple.of_pure ?_
    rintro s ⟨rfl, hs⟩
    exact ⟨hs, hpath⟩
  · exact Triple.of_throw fun s h => h.2

theorem upholds_pathOf (handle : Handle) : Upholds I (pathOf handle) Near :=
  (pathOf_mapped handle).weaken (fun _ h => h) (fun _ _ h => ⟨h.1, hI.mapped h.1 h.2⟩)
    fun _ _ h => h

theorem upholds_childPath (parent : Handle) (name : String) :
    Upholds I (childPath parent name) Below := by
  unfold childPath
  split
  · exact .of_throw_bind
  · next h => exact (upholds_pathOf hI parent).bind fun path hpath =>
      .of_pure (hI.child hpath (Spelling.plain_of_ordinary h))

theorem upholds_handleFor {path : Path} (h : Near path) :
    Upholds I (handleFor path) Any := fun f hf =>
  ⟨hI.step (s := f.scene) (.entered h) hf, trivial⟩

/-! ## What is looked up for others -/

variable {path : Path} (hpath : Near path)

theorem upholds_userProfile (session : Session) (name : String) :
    Upholds I (userProfile session name) Any := by
  have hput : ∀ profile : UserProfile, Upholds I (do
      changeCache (·.putUserProfile name profile)
      return profile) Any := fun profile =>
    Upholds.then_any (.changeCache fun _ => rfl) fun _ => .of_pure trivial
  refine .of_get fun f => ?_
  split
  · exact .of_pure trivial
  · refine (upholds_call hI (Link.asks_findUser session name)
      (Link.keeps_findUser session name)).then_any fun found => ?_
    cases found with
    | none => exact Upholds.then_any (.of_pure trivial) hput
    | some user =>
      refine (upholds_ask hI session (c := .userGroups name) (by simp [Call.paths]) _).then_any
        fun groups => ?_
      exact Upholds.then_any (.of_pure trivial) hput

theorem upholds_mayEditAttributes (session : Session) (user : Principal) (path : Path) :
    Upholds I (mayEditAttributes session user path) Any := by
  refine (upholds_userProfile hI session user.name).then_any fun profile => ?_
  split
  · exact .of_pure trivial
  · exact .of_get fun _ => .of_pure trivial

include hpath

theorem upholds_stat (session : Session) : Upholds I (call (Link.stat session path)) Any :=
  upholds_call hI (Link.asks_stat hpath) (Link.keeps_stat session path)

theorem upholds_storedPermissions (session : Session) :
    Upholds I (call (Link.permissions session path)) Any :=
  upholds_ask hI session (by simpa [Call.paths] using hpath) _

theorem upholds_permissions (session : Session) : Upholds I (permissions session path) Any := by
  refine .of_get fun f => ?_
  split
  · exact .of_pure trivial
  · exact (upholds_storedPermissions hI hpath session).then_any fun _ =>
      Upholds.then_any (.changeCache fun _ => rfl) fun _ => .of_pure trivial

theorem upholds_objectKind (session : Session) : Upholds I (objectKind session path) Any := by
  refine .of_get fun f => ?_
  split
  · exact .of_pure trivial
  · exact (upholds_stat hI hpath session).then_any fun _ =>
      Upholds.then_any (.changeCache fun _ => rfl) fun _ => .of_pure trivial

theorem upholds_userLevel (session : Session) (user : Principal) :
    Upholds I (userLevel session user path) Any :=
  (upholds_userProfile hI session user.name).then_any fun _ =>
    (upholds_permissions hI hpath session).then_any fun _ => .of_pure trivial

theorem upholds_fetchAttributes (session : Session) (user : Principal) (handle : Handle) :
    Upholds I (fetchAttributes session user handle path) Any := by
  have hrest : ∀ status isOpen level,
      Upholds I (rememberAttributes user handle path status isOpen level) Any :=
    fun status isOpen level => .of_get fun f =>
      Upholds.then_any (.changeCache fun _ => rfl) fun _ => .of_pure trivial
  refine (upholds_stat hI hpath session).then_any fun status =>
    Upholds.then_any (.changeCache fun _ => rfl) fun _ => ?_
  refine Upholds.then_any (.of_get fun _ => .of_pure trivial) fun isOpen => ?_
  split
  · exact Upholds.then_any (.of_pure trivial) fun level => hrest status isOpen level
  · exact (upholds_userLevel hI hpath session user).then_any fun level => hrest status isOpen level

end Facade
end StoreMount
