import StoreMount.Proofs.Facade.Atomicity

/-!
# The handles that attributes carry

Attributes are remembered under a user and a place, and carry a handle. All that are remembered
under a place carry the handle that the registry has for it, whoever they were remembered for and
however long ago: a handle that is handed out is a new one for a place that has nothing remembered,
and before a place loses its handle or takes another one over, whatever is remembered at or below it
is forgotten. So attributes that are asked for by a handle carry that handle, and the lines of a
listing carry the handles under which the registry has the children.
-/
namespace StoreMount

/-! ## What a registry leads to -/

namespace Registry

variable {r r' r'' : Registry} {h : Handle} {path : Path}

def Extends (r r' : Registry) : Prop := ∀ h p, r.pathOf? h = some p → r'.pathOf? h = some p

theorem Extends.refl (r : Registry) : r.Extends r := fun _ _ h => h

theorem Extends.trans (h : r.Extends r') (h' : r'.Extends r'') : r.Extends r'' :=
  fun i p hp => h' i p (h i p hp)

theorem extends_handleFor (r : Registry) (path : Path) : r.Extends (r.handleFor path).2 :=
    fun h p hp => by
  rcases pathOf?_handleFor r path h with he | hnew
  · exact he.trans hp
  · cases hnew.free.symm.trans hp

def LeadsTo (r : Registry) (h : Handle) (place : Place) : Prop :=
  ∃ p, r.pathOf? h = some p ∧ p.place = place

theorem LeadsTo.extended {place : Place} (hl : r.LeadsTo h place) (he : r.Extends r') :
    r'.LeadsTo h place := by
  obtain ⟨p, hp, hplace⟩ := hl
  exact ⟨p, he h p hp, hplace⟩

theorem leadsTo_handleFor (hr : r.Inverse) (path : Path) :
    (r.handleFor path).2.LeadsTo (r.handleFor path).1 path.place := by
  unfold handleFor assign
  cases hp : r.handleOf? path with
  | some owner => exact (hr.handle_iff owner path).1 hp
  | none => exact ⟨path, Table.get?_insert_self .., rfl⟩

end Registry

/-- The registry, and the attributes that are remembered. -/
structure Labels where
  registry : Registry
  attributes : Table (String × Place) (Stamped Attributes)

namespace Labels

variable {l : Labels} {r : Registry} {path source target : Path}

structure Right (l : Labels) : Prop where
  inverse : l.registry.Inverse
  leads : ∀ user place a, l.attributes.get? (user, place) = some a →
    l.registry.LeadsTo a.value.handle place

def without (l : Labels) (top : Path) : Labels :=
  { l with attributes := l.attributes.filter fun k _ => !top.place.isPrefixOf k.2 }

theorem get?_without {user : String} {place : Place} {a : Stamped Attributes}
    (h : (l.without path).attributes.get? (user, place) = some a) :
    l.attributes.get? (user, place) = some a ∧ ¬path.place <+: place := by
  rw [without, Table.get?_filter, Option.filter_eq_some_iff] at h
  exact ⟨h.1, fun hp => by simp [List.isPrefixOf_iff_prefix.2 hp] at h⟩

theorem Right.handle_eq (hl : l.Right) {h : Handle} (hh : l.registry.LeadsTo h path.place)
    {user : String} {a : Stamped Attributes} (ha : l.attributes.get? (user, path.place) = some a) :
    a.value.handle = h := by
  obtain ⟨p, hp, hplace⟩ := hh
  obtain ⟨q, hq, hplace'⟩ := hl.leads user path.place a ha
  exact hl.inverse.handle_unique hq hp (hplace'.trans hplace.symm)

theorem Right.handleFor (hl : l.Right) (path : Path) :
    Right { l with registry := (l.registry.handleFor path).2 } where
  inverse := hl.inverse.handleFor path
  leads user place a ha := (hl.leads user place a ha).extended (Registry.extends_handleFor _ path)

theorem Right.insert (hl : l.Right) {a : Stamped Attributes}
    (ha : l.registry.LeadsTo a.value.handle path.place) (user : String) :
    Right { l with attributes := l.attributes.insert (user, path.place) a } where
  inverse := hl.inverse
  leads user' place a' ha' := by
    rw [Table.get?_insert] at ha'
    split at ha'
    · next hk =>
      obtain ⟨-, rfl⟩ := Prod.mk.inj hk
      exact Option.some.inj ha' ▸ ha
    · exact hl.leads user' place a' ha'

theorem Right.forget (hl : l.Right) {attributes : Table (String × Place) (Stamped Attributes)}
    (h : ∀ user place a, attributes.get? (user, place) = some a →
      l.attributes.get? (user, place) = some a) :
    Right { l with attributes } :=
  ⟨hl.inverse, fun user place a ha => hl.leads user place a (h user place a ha)⟩

theorem Right.without (hl : l.Right) (path : Path) : (l.without path).Right :=
  hl.forget fun _ _ _ ha => (get?_without ha).1

theorem Right.gaveUp (hl : l.Right) (hr : (match l.registry.handleOf? path with
      | some h => l.registry.unmap h path
      | none => .ok l.registry) = .ok r) : Right { l.without path with registry := r } := by
  obtain ⟨r', hr', hinverse, -, hpaths⟩ := hl.inverse.giveUp path
  obtain rfl : r' = r := Except.ok.inj (hr'.symm.trans hr)
  refine ⟨hinverse, fun user place a ha => ?_⟩
  obtain ⟨ha, hout⟩ := get?_without ha
  obtain ⟨p, hp, rfl⟩ := hl.leads user place a ha
  exact ⟨p, (hpaths _ p).2 ⟨hp, fun he => hout (he ▸ List.prefix_refl _)⟩, rfl⟩

theorem Right.moved (hl : l.Right) {answer : Option Handle × Registry}
    (hr : l.registry.moveTree source target = .ok answer) :
    Right { (l.without source).without target with registry := answer.2 } := by
  refine ⟨hl.inverse.moveTree_eq_ok hr, fun user place a ha => ?_⟩
  obtain ⟨ha, htarget⟩ := get?_without ha
  obtain ⟨ha, hsource⟩ := get?_without ha
  obtain ⟨p, hp, rfl⟩ := hl.leads user place a ha
  cases ht : target.strictlyWithin source with
  | true =>
    rw [Registry.moveTree_of_strictlyWithin ht] at hr
    cases hr
  | false =>
    rw [Registry.moveTree_eq ht] at hr
    obtain rfl := Except.ok.inj hr
    exact ⟨p, hl.inverse.pathOf?_moveTree ht hp hsource htarget, rfl⟩

end Labels

namespace Facade

variable {f : Facade} {α β : Type} {l : Labels} {uid : UInt32} {handle : Handle} {path : Path}

def labels (f : Facade) : Labels := ⟨f.registry, f.cache.attributesFor⟩

instance : Discreet labels where
  link _ _ _ := rfl
  resolver _ _ := rfl
  cache _ _ _ h := congrArg (Labels.mk _) h

/-! ## Pieces of operations -/

/-- However the action ends, what is remembered carries the right handles again. -/
def Minds (m : FacadeM α) : Prop := Sustains (fun f => f.labels.Right) m

namespace Minds

theorem of_keeps {m : FacadeM α} (h : Keeps labels m) : Minds m := Sustains.of_keeps h

theorem bind {m : FacadeM α} {rest : α → FacadeM β} (hm : Minds m) (hr : ∀ a, Minds (rest a)) :
    Minds (m >>= rest) :=
  Sustains.bind hm hr

theorem of_triple {m : FacadeM α} (h : ∀ l : Labels, l.Right →
    Triple (labels · = l) m (fun _ f => f.labels.Right) fun _ f => f.labels.Right) : Minds m :=
    fun f hf => by
  have := h f.labels hf f rfl
  rcases hm : (m f : Except FacadeError α × Facade) with ⟨e | a, f'⟩ <;> rwa [hm] at this

theorem call (action : LinkM StoreError α) : Minds (call action) := .of_keeps fun _ => rfl

theorem during {account : Account} {body : Session → FacadeM α}
    (h : ∀ session, Minds (body session)) :
    Minds (during account body) := .bind (.call _) fun session f hf => h session f hf

theorem handleFor (path : Path) : Minds (handleFor path) := fun _ hf => hf.handleFor path

theorem forgetAttributes (path : Path) :
    Minds (changeCache (·.forgetAttributes path)) := fun _ hf =>
  hf.forget fun _ _ _ ha => (Cache.get?_forgetAttributes ha).1

end Minds

theorem then_forgetTree {rest : FacadeM α} {Q : α → Facade → Prop} {E : FacadeError → Facade → Prop}
    (path : Path) (h : Triple (labels · = l.without path) rest Q E) :
    Triple (labels · = l) (do changeCache (·.forgetTree path); rest) Q E :=
  Triple.bind (Q := fun _ f => f.labels = l.without path) (fun _ hf => hf ▸ rfl) fun _ => h

theorem changeRegistry_labels {change : Registry → Except Registry.Error Registry} (hl : l.Right)
    (h : ∀ r, change l.registry = .ok r → Labels.Right { l with registry := r }) :
    Triple (labels · = l) (changeRegistry change) (fun _ f => f.labels.Right) fun _ f =>
      f.labels.Right := by
  rintro f rfl
  simp only [changeRegistry]
  cases hr : change f.registry with
  | error e => exact hl
  | ok r => exact h r hr

theorem fetchAttributes_labels (session : Session) (user : Principal) (handle : Handle)
    (path : Path) :
    Triple (labels · = l) (fetchAttributes session user handle path)
      (fun a f => a.handle = handle ∧
        ∃ since, f.labels = { l with
          attributes := l.attributes.insert (user.name, path.place) ⟨a, since⟩ })
      fun _ f => f.labels = l := by
  have hrest : ∀ status isOpen level,
      Triple (labels · = l) (rememberAttributes user handle path status isOpen level)
      (fun a f => a.handle = handle ∧
        ∃ since, f.labels =
          { l with attributes := l.attributes.insert (user.name, path.place) ⟨a, since⟩ })
      fun _ f => f.labels = l := by
    rintro status isOpen level f rfl
    exact ⟨rfl, f.cache.now, rfl⟩
  refine (keeps_stat session path).then_triple (fun _ _ h => h) fun status => ?_
  refine Keeps.then_triple (keeps_remember (fun _ => rfl) fun _ => rfl) (fun _ _ h => h) fun _ => ?_
  refine (keeps_structural path).then_triple (fun _ _ h => h) fun isOpen => ?_
  split
  · exact Keeps.of_pure.then_triple (fun _ _ h => h) fun level => hrest status isOpen level
  · exact (keeps_userLevel session user path).then_triple (fun _ _ h => h) fun level =>
      hrest status isOpen level

theorem fetchAttributes_right (hl : l.Right) (hh : l.registry.LeadsTo handle path.place)
    (session : Session) (user : Principal) :
    Triple (labels · = l) (fetchAttributes session user handle path)
      (fun a f => a.handle = handle ∧ f.labels.Right ∧ f.registry = l.registry) fun _ f =>
        f.labels = l := by
  refine (fetchAttributes_labels session user handle path).weaken (fun _ h => h) ?_ fun _ _ h => h
  rintro a f ⟨ha, since, hf⟩
  exact ⟨ha, hf ▸ hl.insert (ha.symm ▸ hh) user.name, congrArg Labels.registry hf⟩

theorem handle_of_recalled (hf : f.labels.Right) (hh : f.registry.LeadsTo handle path.place)
    {user : String} {a : Attributes} (ha : f.cache.attributes? user path = some a) :
    a.handle = handle := by
  obtain ⟨since, ha⟩ := Cache.fresh_eq_some ha
  exact hf.handle_eq hh ha

/-! ## Operations that show attributes -/

theorem getattr_labels (hl : l.Right) (uid : UInt32) (handle : Handle) :
    Triple (labels · = l) (getattr uid handle) (fun a f => a.handle = handle ∧ f.labels.Right)
      fun _ f => f.labels.Right := by
  have hfailed : ∀ (e : FacadeError) f, labels f = l → f.labels.Right := fun _ f h => h ▸ hl
  refine (keeps_resolve uid).then_triple hfailed fun user => ?_
  refine Triple.bind ((pathOf_triple handle fun _ => congrArg Labels.registry).weaken (fun _ h => h)
    (fun _ _ h => h) hfailed)
    fun path => Triple.of_known fun hpath => Triple.bind Triple.of_get fun f => ?_
  have hleads : l.registry.LeadsTo handle path.place := ⟨path, hpath, rfl⟩
  split
  · next a ha =>
    refine Triple.of_pure ?_
    rintro _ ⟨rfl, rfl⟩
    exact ⟨handle_of_recalled hl hleads ha, hl⟩
  · refine Triple.weaken
      (during_triple user.account (Q := fun a l => a.handle = handle ∧ l.Right) (E := Labels.Right)
      (fun session => ?_) hl) (fun _ h => h.2) (fun _ _ h => h) fun _ _ h => h
    exact (fetchAttributes_right hl hleads session user).weaken (fun _ h => h)
      (fun _ _ h => ⟨h.1, h.2.1⟩) hfailed

/-- The line carries the handle under which the registry has the child of the path. -/
structure Named (r : Registry) (path : Path) (line : DirEntry) : Prop where
  handle : line.attributes.handle = line.handle
  leads : r.LeadsTo line.handle (path.child line.name).place

theorem listAttributes_labels (hl : l.Right) (session : Session) (user : Principal) {name : String}
    (hh : l.registry.LeadsTo handle (path.child name).place) (cookie : Nat) :
    Triple (labels · = l) (listAttributes session user (path.child name) cookie name handle)
      (fun line f => (∀ shown ∈ line, Named l.registry path shown) ∧ f.labels.Right ∧
        f.registry = l.registry)
      fun _ f => f.labels.Right := by
  refine Triple.bind Triple.of_get fun f => ?_
  split
  · next a ha =>
    refine Triple.of_pure ?_
    rintro _ ⟨rfl, rfl⟩
    refine ⟨?_, hl, rfl⟩
    rintro _ ⟨⟩
    exact ⟨handle_of_recalled hl hh ha, hh⟩
  · have hfetch : Triple (labels · = l) (do
        let attributes ← fetchAttributes session user handle (path.child name)
        return some ⟨name, handle, cookie, attributes⟩)
        (fun line f => (∀ shown ∈ line, Named l.registry path shown) ∧ f.labels.Right ∧
            f.registry = l.registry)
        fun _ f => f.labels = l := by
      refine Triple.bind (fetchAttributes_right hl hh session user) fun a => Triple.of_pure ?_
      rintro f ⟨ha, hf⟩
      refine ⟨?_, hf⟩
      rintro _ ⟨⟩
      exact ⟨ha, hh⟩
    refine Triple.weaken (hfetch.of_catch fun e => ?_) (fun _ h => h.2)
      (fun _ _ h => h) fun _ _ h => h
    split
    · refine Triple.of_pure ?_
      rintro f rfl
      exact ⟨fun _ hs => absurd hs (Option.not_mem_none _), hl, rfl⟩
    · exact Triple.of_throw fun f h => h ▸ hl

theorem Named.extended {r r' : Registry} {line : DirEntry} (h : Named r path line)
    (he : r.Extends r') : Named r' path line :=
  ⟨h.handle, h.leads.extended he⟩

def LinesRight (r : Registry) (path : Path) (lines : List DirEntry) (f : Facade) : Prop :=
  f.labels.Right ∧ r.Extends f.registry ∧ ∀ line ∈ lines, Named f.registry path line

theorem listEntry_labels (hl : l.Right) (session : Session) (user : Principal) (path : Path)
    (cookie : Nat) (entry : ListingEntry) :
    Triple (labels · = l) (listEntry session user path cookie entry)
      (fun line => LinesRight l.registry path line.toList) fun _ f => f.labels.Right := by
  let child := path.child entry.name
  have hcalled : Triple (labels · = l) (handleFor child)
      (fun handle f => f.labels = { l with registry := (l.registry.handleFor child).2 } ∧
          handle = (l.registry.handleFor child).1)
      fun _ f => f.labels.Right := by
    rintro f rfl
    exact ⟨rfl, rfl⟩
  refine Triple.bind hcalled fun handle => Triple.of_known ?_
  rintro rfl
  refine Keeps.then_triple (keeps_remember (fun _ => rfl) fun _ => rfl)
    (fun _ _ h => h ▸ hl.handleFor child) fun _ => ?_
  refine (listAttributes_labels (hl.handleFor child) session user
    (Registry.leadsTo_handleFor hl.inverse child) cookie).weaken
    (fun _ h => h) ?_ fun _ _ h => h
  rintro line f ⟨hnamed, hf, hr⟩
  refine ⟨hf, hr ▸ Registry.extends_handleFor l.registry child,
    fun shown hs => hr ▸ hnamed shown ?_⟩
  exact Option.mem_toList.1 hs

theorem listEntries_labels (session : Session) (user : Principal) (path : Path) (after : Nat)
    (entries : List ListingEntry) (cookie : Nat) {l : Labels} (hl : l.Right) :
    Triple (labels · = l) (listEntries session user path after cookie entries)
      (fun lines => LinesRight l.registry path lines) fun _ f => f.labels.Right := by
  -- each line is named when it is made, and the lines after it only add to the registry
  induction entries generalizing cookie l with
  | nil =>
    refine Triple.of_pure ?_
    rintro f rfl
    exact ⟨hl, .refl _, fun _ hs => absurd hs List.not_mem_nil⟩
  | cons entry rest ih =>
    have hlines : ∀ line : Option DirEntry, Triple (LinesRight l.registry path line.toList) (do
        let lines ← listEntries session user path after (cookie + 1) rest
        return line.toList ++ lines) (fun lines => LinesRight l.registry path lines) fun _ f =>
          f.labels.Right := by
      rintro line f ⟨hf, he, hnamed⟩
      refine Triple.bind (ih (cookie + 1) hf) (fun lines => Triple.of_pure ?_) f rfl
      rintro f' ⟨hf', he', hnamed'⟩
      refine ⟨hf', he.trans he', fun shown hs => ?_⟩
      rcases List.mem_append.1 hs with hs | hs
      · exact (hnamed shown hs).extended he'
      · exact hnamed' shown hs
    unfold listEntries
    split
    · refine Triple.bind (Q := fun line => LinesRight l.registry path line.toList)
        (Triple.of_pure ?_) hlines
      rintro f rfl
      exact ⟨hl, .refl _, fun _ hs => absurd hs List.not_mem_nil⟩
    · exact Triple.bind (listEntry_labels hl session user path cookie entry) hlines

theorem labels_currentListing (session : Session) (user : Principal) (path : Path)
    (status : Status) :
    Keeps labels (currentListing session user path status) := by
  refine Keeps.bind Keeps.of_get fun f => ?_
  split
  · exact Keeps.of_pure
  · exact (keeps_call (Link.keeps_ask session _ _)).bind fun _ =>
      Keeps.bind (fun _ => rfl) fun _ => Keeps.of_pure

theorem list_labels (hl : l.Right) (uid : UInt32) (directory : Handle) (cookie : Nat) :
    Triple (labels · = l) (list uid directory cookie)
      (fun lines f => f.labels.Right ∧ ∃ path, l.registry.pathOf? directory = some path ∧
        ∀ line ∈ lines, Named f.registry path line)
      fun _ f => f.labels.Right := by
  have hfailed : ∀ (e : FacadeError) f, labels f = l → f.labels.Right := fun _ f h => h ▸ hl
  refine (keeps_resolve uid).then_triple hfailed fun user => ?_
  refine Triple.bind ((pathOf_triple directory fun _ => congrArg Labels.registry).weaken
    (fun _ h => h) (fun _ _ h => h) hfailed)
    fun path => Triple.of_known fun hpath => ?_
  refine during_triple user.account
    (Q := fun lines (l' : Labels) => l'.Right ∧ ∃ path, l.registry.pathOf? directory = some path ∧
    ∀ line ∈ lines, Named l'.registry path line) (E := Labels.Right) (fun session => ?_) hl
  refine (keeps_stat session path).then_triple hfailed fun status => ?_
  split
  · rintro f rfl
    exact hl
  · refine (labels_currentListing session user path status).then_triple hfailed fun listing => ?_
    exact (listEntries_labels session user path cookie listing.entries firstCookie hl).weaken
      (fun _ h => h)
      (fun lines _ h => ⟨h.1, path, hpath, h.2.2⟩) fun _ _ h => h

/-! ## All operations -/

namespace Minds

theorem resolve (uid : UInt32) : Minds (resolve uid) := .of_keeps (keeps_resolve uid)

theorem remember {change : Cache → Cache} (h : ∀ c, (change c).attributesFor = c.attributesFor) :
    Minds (changeCache change) :=
  .of_keeps fun f => congrArg (Labels.mk _) (h f.cache)

theorem getattr (uid : UInt32) (handle : Handle) : Minds (getattr uid handle) :=
  .of_triple fun _ hl =>
    (getattr_labels hl uid handle).weaken (fun _ h => h) (fun _ _ h => h.2) fun _ _ h => h

theorem list (uid : UInt32) (directory : Handle) (cookie : Nat) :
    Minds (list uid directory cookie) :=
  .of_triple fun _ hl =>
    (list_labels hl uid directory cookie).weaken (fun _ h => h) (fun _ _ h => h.1) fun _ _ h => h

theorem parentOf (handle : Handle) : Minds (parentOf handle) := by
  refine .bind (.of_keeps (keeps_pathOf handle)) fun path =>
    .bind (.of_keeps Keeps.of_get) fun f => ?_
  split
  · exact .of_keeps Keeps.of_pure
  · split
    · exact .handleFor _
    · exact .of_keeps Keeps.of_pure

theorem lookup (uid : UInt32) (parent : Handle) (name : String) :
    Minds (lookup uid parent name) := by
  unfold Facade.lookup
  split
  · exact .of_keeps (Keeps.bind (keeps_pathOf parent) fun _ => Keeps.of_pure)
  · split
    · exact .parentOf parent
    · refine .bind (.resolve uid) fun user =>
        .bind (.of_keeps (keeps_childPath parent name)) fun path => ?_
      exact .during fun session =>
        .bind (.call _) fun status => .bind (.remember fun _ => rfl) fun _ => .handleFor path

theorem made (account : Account) (action : Session → LinkM StoreError Unit) (path : Path)
    (kind : ObjectKind) : Minds (do
    Facade.during account fun session => Facade.call (action session)
    changeCache (·.putObjectType path kind)
    changeCache (·.forgetAttributes path)
    Facade.handleFor path) :=
  .bind (.during fun _ => .call _) fun _ => .bind (.remember fun _ => rfl) fun _ =>
    .bind (.forgetAttributes path) fun _ => .handleFor path

theorem create (uid : UInt32) (parent : Handle) (name : String) (type : FileType) :
    Minds (create uid parent name type) := by
  unfold Facade.create
  split
  · exact .of_keeps Keeps.of_throw_bind
  · exact .bind (.resolve uid) fun user =>
        .bind (.of_keeps (keeps_childPath parent name)) fun path =>
      .bind (.of_keeps Keeps.of_get) fun f => .made user.account _ path .dataObject

theorem mkdir (uid : UInt32) (parent : Handle) (name : String) : Minds (mkdir uid parent name) :=
  .bind (.resolve uid) fun user => .bind (.of_keeps (keeps_childPath parent name)) fun path =>
    .made user.account _ path .collection

theorem remove (uid : UInt32) (parent : Handle) (name : String) :
    Minds (remove uid parent name) := by
  refine .bind (.resolve uid) fun user =>
    .bind (.of_keeps (keeps_childPath parent name)) fun path => ?_
  refine .bind (.during fun _ => .call _) fun _ => .of_triple fun l hl => then_forgetTree path ?_
  exact changeRegistry_labels (hl.without path) fun r hr => hl.gaveUp hr

theorem rename (uid : UInt32) (parent : Handle) (name : String) (toParent : Handle)
    (toName : String) :
    Minds (rename uid parent name toParent toName) := by
  refine .bind (.resolve uid) fun user =>
    .bind (.of_keeps (keeps_childPath parent name)) fun source => ?_
  refine .bind (.of_keeps (keeps_childPath toParent toName)) fun target => ?_
  split
  · exact .of_keeps Keeps.of_pure
  · have hcheck : Minds (changeRegistry fun r => (r.checkMove source target).map fun _ => r) :=
        .of_triple fun l hl =>
      changeRegistry_labels hl fun r hr => by
        obtain ⟨-, -, rfl⟩ := eq_ok_of_map hr
        exact hl
    refine .bind hcheck fun _ => .bind (.during fun _ => .call _) fun _ => .of_triple fun l hl => ?_
    refine then_forgetTree source (then_forgetTree target ?_)
    refine changeRegistry_labels ((hl.without source).without target) fun r hr => ?_
    obtain ⟨answer, hanswer, rfl⟩ := eq_ok_of_map hr
    exact hl.moved hanswer

theorem write (uid : UInt32) (handle : Handle) (offset : Nat) (bytes : List UInt8) :
    Minds (write uid handle offset bytes) :=
  .bind (.resolve uid) fun _ =>
      .bind (.of_keeps (keeps_pathOf handle)) fun path => .bind (.during fun _ => .call _) fun _ =>
    .bind (.forgetAttributes path) fun _ => .of_keeps Keeps.of_pure

theorem replaceAcl (session : Session) (path : Path) (aces : List Ace) :
    Minds (replaceAcl session path aces) := by
  have hcalls (entries : List PermissionEntry) (action : PermissionEntry → LinkM StoreError Unit) :
      Minds (entries.forM fun entry => Facade.call (action entry)) := by
    induction entries with
    | nil => exact .of_keeps Keeps.of_pure
    | cons entry entries ih => exact .bind (.call _) fun _ => ih
  refine .bind (.call _) fun status =>
    .bind (.call _) fun current => .bind (.of_keeps Keeps.of_get) fun f => ?_
  refine .bind (.call _) fun incoming => .bind (.bind (hcalls _ _) fun _ => hcalls _ _) fun _ => ?_
  exact .bind (.remember fun _ => rfl) fun _ => .forgetAttributes path

theorem setAcl (uid : UInt32) (handle : Handle) (aces : List Ace) :
    Minds (setAcl uid handle aces) := by
  unfold Facade.setAcl
  split
  · exact .of_keeps Keeps.of_pure
  · refine .bind (.resolve uid) fun user =>
      .bind (.of_keeps (keeps_pathOf handle)) fun path => .during fun session => ?_
    refine .bind (.of_keeps (keeps_userProfile session user.name)) fun profile => ?_
    refine .bind (.of_keeps (keeps_allowListed user profile path)) fun listed =>
      .bind (.of_keeps Keeps.of_get) fun f => ?_
    dsimp only
    split
    · exact .during fun adminSession => .replaceAcl adminSession path aces
    · exact .replaceAcl session path aces

theorem checkAccess (uid : UInt32) (handle : Handle) (mask : Mask) :
    Minds (checkAccess uid handle mask) := by
  refine .bind (.resolve uid) fun user => .bind (.of_keeps (keeps_pathOf handle)) fun path => ?_
  refine .bind (.of_keeps Keeps.of_get) fun f => ?_
  split
  · exact .of_keeps Keeps.of_pure
  · exact .bind (.of_keeps (keeps_decideAccess user path mask)) fun decision =>
      .bind (.remember fun _ => rfl) fun _ => .of_keeps Keeps.of_pure

theorem looked (handle : Handle) {rest : Path → FacadeM α} (h : ∀ path, Minds (rest path)) :
    Minds (pathOf handle >>= rest) :=
  .bind (.of_keeps (keeps_pathOf handle)) h

theorem perform (operation : Operation) : Minds (perform operation) := by
  have answers : ∀ {α : Type} {m : FacadeM α} {answer : α → Answer}, Minds m →
      Minds (do return answer (← m)) :=
    fun h => .bind h fun _ => .of_keeps Keeps.of_pure
  cases operation with
  | lookup uid parent name => exact answers (.lookup uid parent name)
  | getattr uid handle => exact answers (.getattr uid handle)
  | setattr uid handle => exact answers (.looked handle fun _ => .getattr uid handle)
  | list uid directory cookie => exact answers (.list uid directory cookie)
  | directoryVerifier uid directory =>
    exact answers (.bind (.resolve uid) fun _ => .looked directory fun _ => .during fun _ =>
      .bind (.call _) fun _ => .of_keeps Keeps.of_pure)
  | create uid parent name type => exact answers (.create uid parent name type)
  | mkdir uid parent name => exact answers (.mkdir uid parent name)
  | remove uid parent name => exact answers (.remove uid parent name)
  | rename uid parent name toParent toName =>
    exact answers (.rename uid parent name toParent toName)
  | read uid handle offset count =>
    exact answers (.bind (.resolve uid) fun _ => .looked handle fun _ => .during fun _ => .call _)
  | write uid handle offset bytes => exact answers (.write uid handle offset bytes)
  | getAcl uid handle =>
    exact answers (.bind (.resolve uid) fun _ => .looked handle fun path => .during fun session =>
      .bind (.of_keeps (keeps_permissions session path)) fun _ =>
        .of_keeps (Keeps.of_get.bind fun _ => Keeps.of_pure))
  | setAcl uid handle aces => exact answers (.setAcl uid handle aces)
  | checkAccess uid handle mask => exact answers (.checkAccess uid handle mask)
  | parentOf handle => exact answers (.parentOf handle)
  | commit handle => exact answers (.looked handle fun _ => .of_keeps Keeps.of_pure)
  | fsStat handle => exact answers (.looked handle fun _ => .of_keeps Keeps.of_pure)
  | hardLink => exact .of_keeps Keeps.of_throw_bind
  | symlink => exact .of_keeps Keeps.of_throw_bind
  | readlink => exact .of_keeps Keeps.of_throw_bind

end Minds

theorem Reachable.labelled (h : f.Reachable) : f.labels.Right := by
  induction h with
  | mounted h =>
    have hmounted := Facade.mounted h
    refine ⟨hmounted.inverse, fun user place a ha => ?_⟩
    rw [labels, hmounted.cache] at ha
    cases ha
  | moved move _ ih =>
    cases move with
    | ask operation => exact Minds.perform operation _ ih
    | pause milliseconds => exact ih
  | beset _ _ _ _ _ ih => exact ih

theorem Reachable.handle_of_getattr (hf : f.Reachable) {a : Attributes}
    (ha : (getattr uid handle f).1 = .ok a) :
    a.handle = handle :=
  Triple.of_ok ((getattr_labels hf.labelled uid handle).weaken (fun _ h => h)
    (fun _ _ h => h.1) fun _ _ _ => trivial) rfl ha

/-- Whatever was asked before, by anybody and however others have used the store meanwhile, and
however long attributes are remembered: the attributes that are told for a handle carry that handle,
and every line of a listing carries, as its attributes do, the handle that the registry has for the
child of that name. -/
theorem attributes_carry_handle (hf : f.Reachable) :
    (∀ uid handle a, (getattr uid handle f).1 = .ok a → a.handle = handle) ∧
    (∀ uid handle a, (setattr uid handle f).1 = .ok a → a.handle = handle) ∧
    ∀ uid directory cookie lines, (list uid directory cookie f).1 = .ok lines →
      ∃ path, f.registry.pathOf? directory = some path ∧ ∀ line ∈ lines,
        line.attributes.handle = line.handle ∧
        ∃ p, (list uid directory cookie f).2.registry.pathOf? line.handle = some p ∧
        p.place = (path.child line.name).place := by
  refine ⟨fun uid handle a ha => hf.handle_of_getattr ha,
    fun uid handle a ha => ?_, fun uid directory cookie lines hlines => ?_⟩
  · rw [setattr, bind_apply, pathOf_apply] at ha
    cases hp : f.registry.pathOf? handle with
    | none =>
      rw [hp] at ha
      cases ha
    | some path =>
      rw [hp] at ha
      exact hf.handle_of_getattr ha
  · have hlisted := list_labels hf.labelled uid directory cookie f rfl
    rcases hl : (list uid directory cookie f : Except FacadeError (List DirEntry) ×
      Facade) with ⟨e | lines', f'⟩ <;>
      rw [hl] at hlines hlisted
    · cases hlines
    · obtain rfl := Except.ok.inj hlines
      obtain ⟨-, path, hpath, hnamed⟩ := hlisted
      exact ⟨path, hpath, fun line hline => ⟨(hnamed line hline).handle, (hnamed line hline).leads⟩⟩

def replacedFile : List Move :=
  [.ask (.mkdir 0 1 "d"), .ask (.create 0 2 "a" .regular), .ask (.create 0 2 "b" .regular),
    .ask (.getattr 0 3),
    .ask (.getattr 0 4), .ask (.remove 0 2 "a"), .ask (.rename 0 2 "b" 2 "a")]

theorem replacing_file_carries_own_handle :
    ∃ f a lines, f.Reachable ∧ (getattr 0 4 f).1 = .ok a ∧ a.handle = 4 ∧
    (list 0 2 0 f).1 = .ok lines ∧ ∃ line ∈ lines, line.name = "a" ∧
      line.attributes.handle = line.handle := by
  have hrun : (sampleMount .default).toOption.any (fun f =>
      (getattr 0 4 (f.run replacedFile)).1.toOption.isSome &&
          (list 0 2 0 (f.run replacedFile)).1.toOption.any fun lines =>
        lines.any fun line => decide (line.name = "a")) = true := by
    decide +kernel
  obtain ⟨f, hm, hrun⟩ := exists_of_any hrun
  obtain ⟨hattributes, hlist⟩ := Bool.and_eq_true_iff.1 hrun
  have hreachable : (f.run replacedFile).Reachable :=
    .moved _ (.moved _ (.moved _ (.moved _ (.moved _ (.moved _ (.moved _ (.mounted hm)))))))
  obtain ⟨hget, -, hlines⟩ := attributes_carry_handle hreachable
  obtain ⟨a, ha⟩ := Option.isSome_iff_exists.1 hattributes
  obtain ⟨lines, hl, hline⟩ := exists_of_any hlist
  obtain ⟨line, hmem, hname⟩ := List.any_eq_true.1 hline
  obtain ⟨path, -, hnamed⟩ := hlines 0 2 0 lines hl
  exact ⟨_, a, lines, hreachable, eq_ok_of_toOption ha, hget 0 4 a (eq_ok_of_toOption ha), hl, line,
    hmem, of_decide_eq_true hname,
    (hnamed line hmem).1⟩

end Facade
end StoreMount
