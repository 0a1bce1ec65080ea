import StoreMount.Proofs.Facade.Lockstep
import StoreMount.Proofs.Facade.Operation
import StoreMount.Proofs.Link

/-!
# What leaves store and registry alone

Finding out who calls, where a handle leads and what an object is like changes neither the store nor
the registry, whatever the link and the caches do on the way, and it keeps no new listing. So a
piece of an operation that only does such things can be passed over, in whatever view of the facade
the rest does not show.
-/
namespace StoreMount

theorem Resolver.keeps_load (admin : Account) (ids : Identities) (uid : UInt32) :
    Keeps Link.store (Resolver.load admin ids uid) := by
  unfold Resolver.load
  refine Keeps.bind Keeps.of_lift fun person => Link.keeps_during fun session => ?_
  refine Keeps.bind (Link.Keeps.failingAs (Link.keeps_findUser session _)) fun found => ?_
  cases found with
  | none => exact Keeps.of_throw
  | some _ => exact Keeps.of_pure

theorem Resolver.store_resolve (r : Resolver) (ids : Identities) (uid : UInt32) (l : Link) :
    (r.resolve ids uid l).2.2.store = l.store := by
  have := Resolver.keeps_load r.admin ids uid l
  unfold Resolver.resolve
  split
  · rfl
  · split <;> simp_all

namespace Facade

variable {α ν : Type} {view : Facade → ν}

/-- What the link writes down, whom the resolver knows, and what is remembered besides listings does
not show. -/
class Quiet (view : Facade → ν) : Prop where
  link : ∀ (f : Facade) (l : Link), l.store = f.link.store → view { f with link := l } = view f
  resolver : ∀ (f : Facade) (r : Resolver), view { f with resolver := r } = view f
  cache : ∀ (f : Facade) (c : Cache), c.listingFor = f.cache.listingFor →
    view { f with cache := c } = view f

class Discreet (view : Facade → ν) : Prop where
  link : ∀ (f : Facade) (l : Link), l.store = f.link.store → view { f with link := l } = view f
  resolver : ∀ (f : Facade) (r : Resolver), view { f with resolver := r } = view f
  cache : ∀ (f : Facade) (c : Cache), c.listingFor = f.cache.listingFor →
    c.attributesFor = f.cache.attributesFor →
    view { f with cache := c } = view f

instance [Quiet view] : Discreet view where
  link := Quiet.link
  resolver := Quiet.resolver
  cache f c h _ := Quiet.cache f c h

instance : Quiet ground where
  link f _ h := congrArg (Ground.mk · f.registry f.cache.listingFor) h
  resolver _ _ := rfl
  cache _ _ h := congrArg (Ground.mk _ _) h

/-! ## Pieces that only look at the facade -/

theorem pathOf_apply (handle : Handle) (f : Facade) :
    pathOf handle f = match f.registry.pathOf? handle with
    | some path => (.ok path, f)
    | none => (.error (.handleNotFound handle), f) := by
  rw [pathOf, bind_apply, get_apply]
  dsimp only
  cases f.registry.pathOf? handle <;> rfl

theorem keeps_pathOf (handle : Handle) : Keeps view (pathOf handle) := by
  refine Keeps.bind Keeps.of_get fun f => ?_
  split
  · exact Keeps.of_pure
  · exact Keeps.of_throw

theorem keeps_childPath (parent : Handle) (name : String) : Keeps view (childPath parent name) := by
  unfold childPath
  split
  · exact Keeps.of_throw_bind
  · exact (keeps_pathOf parent).bind fun _ => Keeps.of_pure

theorem keeps_structural (path : Path) : Keeps view (structural path) :=
  Keeps.of_get.bind fun _ => Keeps.of_pure

theorem keeps_allowListed (user : Principal) (profile : UserProfile) (path : Path) :
    Keeps view (allowListed user profile path) := Keeps.of_get.bind fun _ => Keeps.of_pure

/-! ## Pieces whose traces do not show -/

section Discreet
variable [Discreet view]

theorem keeps_call {action : LinkM StoreError α} (h : Keeps Link.store action) :
    Keeps view (call action) := fun f =>
  Discreet.link f _ (h f.link)

theorem keeps_resolve (uid : UInt32) : Keeps view (resolve uid) := fun f =>
  (Discreet.link { f with resolver := (f.resolver.resolve f.identities uid f.link).2.1 } _
    (f.resolver.store_resolve f.identities uid f.link)).trans (Discreet.resolver f _)

theorem keeps_remember {change : Cache → Cache} (hl : ∀ c, (change c).listingFor = c.listingFor)
    (ha : ∀ c, (change c).attributesFor = c.attributesFor) : Keeps view (changeCache change) :=
  Keeps.of_modify fun f => Discreet.cache f _ (hl f.cache) (ha f.cache)

theorem view_close (f : Facade) (session : Session) :
    view { f with link := f.link.close session } = view f :=
  Discreet.link f _ (Link.store_close session f.link)

theorem keeps_during {account : Account} {body : Session → FacadeM α}
    (h : ∀ session, Keeps view (body session)) :
    Keeps view (during account body) :=
  (keeps_call (Link.keeps_connect account)).bind fun session f =>
    (view_close _ session).trans (h session f)

theorem keeps_stat (session : Session) (path : Path) : Keeps view (call (Link.stat session path)) :=
  keeps_call (Link.keeps_stat session path)

theorem keeps_userProfile (session : Session) (name : String) :
    Keeps view (userProfile session name) := by
  unfold userProfile
  refine Keeps.bind Keeps.of_get fun f => ?_
  split
  · exact Keeps.of_pure
  · have hput : ∀ profile : UserProfile, Keeps view (do
        changeCache (·.putUserProfile name profile)
        return profile) := fun profile =>
      Keeps.bind (keeps_remember (fun _ => rfl) fun _ => rfl) fun _ => Keeps.of_pure
    refine (keeps_call (Link.keeps_findUser session name)).bind fun found => ?_
    cases found with
    | none => exact Keeps.of_pure.bind hput
    | some user =>
      exact (keeps_call (Link.keeps_ask session _ _)).bind fun groups => Keeps.of_pure.bind hput

theorem keeps_permissions (session : Session) (path : Path) :
    Keeps view (permissions session path) := by
  unfold permissions
  refine Keeps.bind Keeps.of_get fun f => ?_
  split
  · exact Keeps.of_pure
  · exact (keeps_call (Link.keeps_ask session _ _)).bind fun _ =>
      Keeps.bind (keeps_remember (fun _ => rfl) fun _ => rfl) fun _ => Keeps.of_pure

theorem keeps_objectKind (session : Session) (path : Path) :
    Keeps view (objectKind session path) := by
  unfold objectKind
  refine Keeps.bind Keeps.of_get fun f => ?_
  split
  · exact Keeps.of_pure
  · exact (keeps_stat session path).bind fun _ =>
      Keeps.bind (keeps_remember (fun _ => rfl) fun _ => rfl) fun _ => Keeps.of_pure

theorem keeps_userLevel (session : Session) (user : Principal) (path : Path) :
    Keeps view (userLevel session user path) :=
  (keeps_userProfile session user.name).bind fun _ =>
    (keeps_permissions session path).bind fun _ => Keeps.of_pure

theorem keeps_mayEditAttributes (session : Session) (user : Principal) (path : Path) :
    Keeps view (mayEditAttributes session user path) := by
  refine (keeps_userProfile session user.name).bind fun profile => ?_
  split
  · exact Keeps.of_pure
  · exact keeps_allowListed user profile path

theorem keeps_decideAccess (user : Principal) (path : Path) (mask : Mask) :
    Keeps view (decideAccess user path mask) := by
  have hlevel : ∀ session, Keeps view (do
      let level ← userLevel session user path
      return Level.decision level mask) :=
        fun session => (keeps_userLevel session user path).bind fun _ => Keeps.of_pure
  refine (keeps_structural path).bind fun isOpen => ?_
  split
  · exact Keeps.of_pure
  · refine keeps_during fun session => (keeps_objectKind session path).bind fun kind => ?_
    split
    · exact Keeps.of_pure
    · split
      · refine (keeps_mayEditAttributes session user path).bind fun allowed => ?_
        split
        · exact Keeps.of_pure
        · exact hlevel session
      · exact hlevel session

end Discreet

variable [Quiet view]

theorem keeps_changeCache {change : Cache → Cache} (h : ∀ c, (change c).listingFor = c.listingFor) :
    Keeps view (changeCache change) :=
  Keeps.of_modify fun f => Quiet.cache f _ (h f.cache)

theorem keeps_fetchAttributes (session : Session) (user : Principal) (handle : Handle)
    (path : Path) :
    Keeps view (fetchAttributes session user handle path) := by
  unfold fetchAttributes
  have hrest : ∀ status isOpen level,
      Keeps view (rememberAttributes user handle path status isOpen level) :=
    fun status isOpen level =>
      Keeps.bind Keeps.of_get fun f =>
        Keeps.bind (keeps_changeCache fun _ => rfl) fun _ => Keeps.of_pure
  refine (keeps_stat session path).bind fun status =>
    Keeps.bind (keeps_changeCache fun _ => rfl) fun _ => ?_
  refine (keeps_structural path).bind fun isOpen => ?_
  split
  · exact Keeps.of_pure.bind fun level => hrest status isOpen level
  · exact (keeps_userLevel session user path).bind fun level => hrest status isOpen level

end Facade
end StoreMount
