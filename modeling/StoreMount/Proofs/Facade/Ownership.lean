import StoreMount.Proofs.Facade.Handles
import StoreMount.Proofs.Facade.Truthful
import StoreMount.Proofs.Store.Bookkeeping

/-!
# Whether the owner keeps level own

Whoever changes the access list of an object, with whatever entries, and wherever the change stops:
the list that is then there came of the old one by revoking some of what the new one lacks and
granting some of what it adds. So the owner's level own can only be taken by an entry that was asked
for with the group flag and that names the owner all the same.
-/
namespace StoreMount

namespace AclExchange

variable {r : Resolver} {ids : Identities} {s : Store}

/-- The entry is what the protocol's entry asks for, in a zone. -/
structure Means (r : Resolver) (ids : Identities) (zone : String) (ace : Ace)
    (e : PermissionEntry) : Prop where
  request : request? r ids ace = some (e.name, e.level)
  kind : e.kind = ace.subjectKind
  zone : e.zone = zone

theorem request?_of_isGroup {ace : Ace} (h : ace.isGroup = true) (r r' : Resolver) :
    request? r ids ace = request? r' ids ace := by
  simp only [request?, subjectName?, h, if_true]

theorem isGroup_of_subjectKind {ace : Ace} (h : ace.subjectKind = .group) : ace.isGroup = true := by
  unfold Ace.subjectKind at h
  split at h
  · assumption
  · cases h

theorem findUser_triple (session : Session) (name : String) (s : Store) :
    Triple (Link.store · = s) (Link.findUser session name)
      (fun found l => l.store = s ∧ ∀ user,
        found = some user → user.name = name ∧ user.zone = s.zone)
      (fun _ l => l.store = s) := by
  refine (Link.ask_triple session _ _ s).bind fun found =>
    Triple.of_get.bind fun l => Triple.of_pure ?_
  rintro l' ⟨-, hl', hfound⟩
  refine ⟨hl', fun user huser => ?_⟩
  split at huser
  · cases huser
  · obtain rfl := Except.ok.inj hfound
    obtain ⟨record, -, rfl⟩ := Option.map_eq_some_iff.1 huser
    exact ⟨rfl, rfl⟩

theorem toEntry_triple (r : Resolver) (ids : Identities) (session : Session)
    (ace : Ace) (s : Store) :
    Triple (Link.store · = s) (toEntry r ids session ace)
      (fun entry l => l.store = s ∧ ∀ e, entry = some e → Means r ids s.zone ace e)
      (fun _ l => l.store = s) := by
  unfold toEntry
  split
  · exact Triple.of_pure fun l hl => ⟨hl, fun e he => by cases he⟩
  · next name level hrequest =>
    refine (findUser_triple session name s).bind fun found => ?_
    split
    · exact Triple.of_pure fun l hl => ⟨hl.1, fun e he => by cases he⟩
    · next user =>
      refine Triple.of_pure fun l hl => ⟨hl.1, fun e he => ?_⟩
      obtain ⟨hname, hzone⟩ := hl.2 user rfl
      obtain rfl := Option.some.inj he
      exact ⟨hname ▸ hrequest, rfl, hzone⟩

theorem toEntries_triple (r : Resolver) (ids : Identities) (session : Session)
    (aces : List Ace) (s : Store) :
    Triple (Link.store · = s) (toEntries r ids session aces)
      (fun entries l => l.store = s ∧ ∀ e ∈ entries, ∃ ace ∈ aces, Means r ids s.zone ace e)
      (fun _ l => l.store = s) := by
  induction aces with
  | nil => exact Triple.of_pure fun l hl => ⟨hl, fun e he => by cases he⟩
  | cons ace aces ih =>
    refine (toEntry_triple r ids session ace s).bind fun entry => Triple.of_known fun hentry => ?_
    refine ih.bind fun entries => Triple.of_pure fun l hl => ⟨hl.1, fun e he => ?_⟩
    rcases List.mem_append.1 he with he | he
    · exact ⟨ace, List.mem_cons_self, hentry e (Option.mem_toList.1 he)⟩
    · obtain ⟨ace', hace', hmeans⟩ := hl.2 e he
      exact ⟨ace', List.mem_cons_of_mem _ hace', hmeans⟩

end AclExchange

namespace Facade

variable {α : Type} {path : Path} {o : StoredObject} {acl : AccessList}

/-! ## Making the change -/

def Edited (path : Path) (o : StoredObject) (acl : AccessList) (s : Store) : Prop :=
  s.object? path = some { o with acl }

theorem edit_triple {session : Session} {c : Call} {action : Store → Except StoreError Store}
    {step : AccessList → AccessList}
    (h : ∀ s s', action s = .ok s' → s' = s.changeAcl path.place step) :
    Triple (fun f => Edited path o acl f.ground.store) (call (Link.tell session c action))
      (fun _ f => Edited path o (step acl) f.ground.store)
      (fun _ f => Edited path o acl f.ground.store) := by
  refine Triple.of_view (C := fun g : Ground => Edited path o acl g.store) fun g hg => ?_
  refine (tell_triple session c action g).weaken (fun _ h => h)
    (fun _ f hf => ?_) fun _ f hf => hf ▸ hg
  obtain ⟨s', hs', hf⟩ := hf
  have hg : g.store.objects.get? path.place = some { o with acl } := hg
  rw [hf, Edited, Store.object?, h _ _ hs', Store.get?_changeAcl, hg]
  simp

theorem forM_triple (step : AccessList → PermissionEntry → AccessList)
    (body : PermissionEntry → FacadeM PUnit)
    (h : ∀ entry acl, Triple (fun f => Edited path o acl f.ground.store) (body entry)
      (fun _ f => Edited path o (step acl entry) f.ground.store) (fun _ f =>
        Edited path o acl f.ground.store)) (entries : List PermissionEntry) (acl : AccessList) :
    Triple (fun f => Edited path o acl f.ground.store) (entries.forM body)
      (fun _ f => Edited path o (entries.foldl step acl) f.ground.store)
      (fun _ f => ∃ done : List PermissionEntry,
        (∀ e ∈ done, e ∈ entries) ∧ Edited path o (done.foldl step acl) f.ground.store) := by
  induction entries generalizing acl with
  | nil => exact Triple.of_pure fun _ h => h
  | cons entry entries ih =>
    refine Triple.bind ((h entry acl).weaken (fun _ h => h) (fun _ _ h => h) fun _ f hf =>
        ⟨[], by simp, hf⟩) fun _ => ?_
    refine (ih (step acl entry)).weaken (fun _ h => h)
      (fun _ _ h => h) fun _ f ⟨done, hdone, hf⟩ => ?_
    refine ⟨entry :: done, fun e he => ?_, hf⟩
    rcases List.mem_cons.1 he with rfl | he
    · exact List.mem_cons_self
    · exact List.mem_cons_of_mem _ (hdone e he)

def Changed (path : Path) (o : StoredObject) (change : AclChange) (s : Store) : Prop :=
  ∃ revoked granted, change.Partial revoked granted ∧ Edited path o (o.acl.edit revoked granted) s

theorem applyChange_triple (session : Session) (path : Path) (o : StoredObject)
    (change : AclChange) :
    Triple (fun f => Edited path o o.acl f.ground.store) (applyChange session path change)
      (fun _ f => Changed path o change f.ground.store)
      (fun _ f => Changed path o change f.ground.store) := by
  have hrevoke := forM_triple .revoke (fun entry => call (Link.revoke session path entry))
      (fun entry acl =>
    edit_triple (o := o) fun s s' h => (Store.revoke_eq_ok h).2) change.removed o.acl
  refine Triple.bind (hrevoke.weaken (fun _ h => h) (fun _ _ h => h) fun _ f ⟨done, hdone, hf⟩ =>
      ?_) fun _ => ?_
  · exact ⟨done, [], ⟨hdone, by simp⟩, hf⟩
  have hgrant := forM_triple .grant (fun entry => call (Link.grant session path entry))
      (fun entry acl =>
    edit_triple (o := o) fun s s' h =>
      (Store.grant_eq_ok h).2.2) change.added (change.removed.foldl .revoke o.acl)
  refine hgrant.weaken (fun _ h => h) (fun _ f hf => ?_) fun _ f ⟨done, hdone, hf⟩ => ?_
  · exact ⟨change.removed, change.added, ⟨fun _ h => h, fun _ h => h⟩, hf⟩
  · exact ⟨change.removed, done, ⟨fun _ h => h, hdone⟩, hf⟩

/-! ## Finding out what to change -/

/-- What a change of an access list goes by: the store, where handles lead, and whom numbers stand
for. -/
def site (f : Facade) : Ground × Identities := (f.ground, f.identities)

instance : Quiet site where
  link f l h := by
    have hground : ground { f with link := l } = ground f := Quiet.link f l h
    exact Prod.ext hground rfl
  resolver _ _ := rfl
  cache f c h := by
    have hground : ground { f with cache := c } = ground f := Quiet.cache f c h
    exact Prod.ext hground rfl

variable {g : Ground} {ids : Identities} {handle : Handle} {aces : List Ace}

theorem asked_triple {action : LinkM StoreError α} {C : α → Prop} (hk : Keeps Link.store action)
    (h : Triple (Link.store · = g.store) action (fun a _ => C a) fun _ _ => True) :
    Triple (site · = (g, ids)) (call action) (fun a f => site f = (g, ids) ∧ C a)
      (fun _ f => site f = (g, ids)) := by
  intro f hf
  have hkept := (keeps_call hk f).trans hf
  have := h f.link (congrArg (·.1.store) hf)
  simp only [call] at hkept ⊢
  rcases ha : (action f.link : Except StoreError α × Link) with ⟨e | a, l⟩ <;> rw [ha] at this hkept
  · exact hkept
  · exact ⟨hkept, this⟩

/-- A group entry was asked for with the group flag and by whatever names it. -/
structure Asked (r : Resolver) (ids : Identities) (aces : List Ace) (zone : String)
    (e : PermissionEntry) : Prop where
  zone : e.zone = zone
  group : e.kind = .group → ∃ ace ∈ aces, ace.isGroup = true ∧
    AclExchange.request? r ids ace = some (e.name, e.level)

/-- As far as the change came, the list was turned into one that was asked for. -/
def Replaced (r : Resolver) (ids : Identities) (aces : List Ace) (zone : String) (path : Path)
    (o : StoredObject) (s : Store) : Prop :=
  ∃ incoming, (∀ e ∈ incoming, Asked r ids aces zone e) ∧
    Changed path o (.between o.acl incoming o.owner) s

theorem replaced_unchanged {r : Resolver} {zone : String} {s : Store}
    (ho : s.object? path = some o) :
    Replaced r ids aces zone path o s :=
  ⟨[], fun _ he => absurd he List.not_mem_nil, [], [], ⟨fun _ he => absurd he List.not_mem_nil,
    fun _ he => absurd he List.not_mem_nil⟩, ho⟩

theorem asked_of_means {r r' : Resolver} {zone : String} {e : PermissionEntry} {ace : Ace}
    (hace : ace ∈ aces) (h : AclExchange.Means r' ids zone ace e) : Asked r ids aces zone e where
  zone := h.zone
  group hk := by
    have hgroup := AclExchange.isGroup_of_subjectKind (h.kind.symm.trans hk)
    exact ⟨ace, hace, hgroup, (AclExchange.request?_of_isGroup hgroup r r').trans h.request⟩

theorem exchange_triple (r r' : Resolver) (session : Session) (ho : g.store.object? path = some o)
    (aces : List Ace) :
    Triple (site · = (g, ids)) (do
        let incoming ← call (AclExchange.toEntries r' ids session aces)
        applyChange session path (.between o.acl incoming o.owner)
        changeCache (·.forgetPermissions path)
        changeCache (·.forgetAttributes path))
      (fun _ f => Replaced r ids aces g.store.zone path o (site f).1.store)
      (fun _ f => Replaced r ids aces g.store.zone path o (site f).1.store) := by
  have hentries : Triple (Link.store · = g.store) (AclExchange.toEntries r' ids session aces)
      (fun incoming _ => ∀ e ∈ incoming, Asked r ids aces g.store.zone e) fun _ _ => True := by
    refine (AclExchange.toEntries_triple r' ids session aces g.store).weaken
      (fun _ h => h) ?_ fun _ _ _ => trivial
    rintro incoming l ⟨-, h⟩ e he
    obtain ⟨ace, hace, hmeans⟩ := h e he
    exact asked_of_means hace hmeans
  refine Triple.bind ((asked_triple (keeps_toEntries r' ids session aces) hentries).weaken
    (fun _ h => h) (fun _ _ h => h)
    fun _ f hf => replaced_unchanged (hf ▸ ho)) fun incoming => Triple.of_known fun hincoming => ?_
  have happly : Triple (site · = (g, ids))
      (applyChange session path (.between o.acl incoming o.owner))
      (fun _ f => Replaced r ids aces g.store.zone path o f.ground.store)
      (fun _ f => Replaced r ids aces g.store.zone path o f.ground.store) := by
    refine (applyChange_triple session path o _).weaken (fun f hf => ?_)
      (fun _ f hf => ⟨incoming, hincoming, hf⟩)
      fun _ f hf => ⟨incoming, hincoming, hf⟩
    rw [show f.ground = g from congrArg Prod.fst hf]
    exact ho
  refine Triple.bind happly fun _ =>
    Triple.of_view (C := fun g' : Ground => Replaced r ids aces g.store.zone path o g'.store)
    fun g' hg' => ?_
  have hforget : Keeps ground (do
      changeCache (·.forgetPermissions path)
      changeCache (·.forgetAttributes path)) := Keeps.bind (keeps_changeCache fun _ => rfl) fun _ =>
        keeps_changeCache fun _ => rfl
  have hkept : ∀ f, ground f = g' → Replaced r ids aces g.store.zone path o (site f).1.store :=
      fun f hf => by
    rw [show (site f).1 = g' from hf]
    exact hg'
  exact (hforget.triple g').weaken (fun _ h => h) (fun _ => hkept) fun _ => hkept

theorem replaceAcl_triple (r : Resolver) (session : Session) (ho : g.store.object? path = some o)
    (aces : List Ace) :
    Triple (site · = (g, ids)) (replaceAcl session path aces)
      (fun _ f => Replaced r ids aces g.store.zone path o (site f).1.store)
      (fun _ f => Replaced r ids aces g.store.zone path o (site f).1.store) := by
  have hunchanged : ∀ f, site f = (g, ids) →
      Replaced r ids aces g.store.zone path o (site f).1.store := fun f hf =>
    replaced_unchanged (hf ▸ ho)
  have hstat : Triple (Link.store · = g.store) (Link.stat session path)
      (fun status _ => status.ownerName = o.owner)
      fun _ _ => True := by
    refine (Link.stat_triple session path g.store).weaken (fun _ h => h) ?_ fun _ _ _ => trivial
    rintro _ l ⟨-, kind, base, hbase, rfl⟩
    rw [Store.stat_eq, ho] at hbase
    exact congrArg Status.ownerName (Except.ok.inj hbase).symm
  have hpermissions : Triple (Link.store · = g.store) (Link.permissions session path)
      (fun current _ => current = o.acl)
      fun _ _ => True := by
    refine (Link.ask_triple session _ _ g.store).weaken (fun _ h => h) ?_ fun _ _ _ => trivial
    rintro current l ⟨-, hcurrent⟩
    rw [Store.permissions_eq, ho] at hcurrent
    exact (Except.ok.inj hcurrent).symm
  refine Triple.bind
    ((asked_triple (Link.keeps_stat session path) hstat).weaken (fun _ h => h) (fun _ _ h => h)
    fun _ => hunchanged) fun status => Triple.of_known fun hstatus => ?_
  refine Triple.bind
    ((asked_triple (Link.keeps_ask session _ _) hpermissions).weaken (fun _ h => h) (fun _ _ h => h)
    fun _ => hunchanged) fun current => Triple.of_known fun hcurrent => ?_
  rw [hstatus, hcurrent]
  intro f hf
  obtain rfl : f.identities = ids := congrArg Prod.snd hf
  exact exchange_triple r f.resolver session ho aces f hf

theorem setAcl_triple (r : Resolver) (uid : UInt32) (hp : g.registry.pathOf? handle = some path)
    (ho : g.store.object? path = some o) (aces : List Ace) :
    Triple (site · = (g, ids)) (setAcl uid handle aces)
      (fun _ f => Replaced r ids aces g.store.zone path o (site f).1.store)
      (fun _ f => Replaced r ids aces g.store.zone path o (site f).1.store) := by
  have hunchanged : ∀ f, site f = (g, ids) →
      Replaced r ids aces g.store.zone path o (site f).1.store := fun f hf =>
    replaced_unchanged (hf ▸ ho)
  have hreplace : ∀ session, Triple (site · = (g, ids)) (replaceAcl session path aces)
      (fun _ f => Replaced r ids aces g.store.zone path o (site f).1.store)
      (fun _ f => Replaced r ids aces g.store.zone path o (site f).1.store) := fun session =>
    replaceAcl_triple r session ho aces
  unfold setAcl
  split
  · exact Triple.of_pure hunchanged
  · refine (keeps_resolve uid).then_triple (fun _ => hunchanged) fun user => ?_
    have hpath : Triple (site · = (g, ids)) (pathOf handle)
        (fun p f => site f = (g, ids) ∧ g.registry.pathOf? handle = some p)
        (fun _ f => site f = (g, ids)) :=
      pathOf_triple handle fun f hf => congrArg (·.1.registry) hf
    refine Triple.bind (hpath.weaken (fun _ h => h) (fun _ _ h => h) fun _ => hunchanged) fun p =>
      Triple.of_known fun h => ?_
    obtain rfl : path = p := Option.some.inj (hp.symm.trans h)
    refine during_triple (v := (g, ids))
      (Q := fun _ v => Replaced r ids aces g.store.zone path o v.1.store)
      (E := fun v => Replaced r ids aces g.store.zone path o v.1.store) user.account
      (fun session => ?_) (replaced_unchanged ho)
    refine (keeps_userProfile session user.name).then_triple (fun _ => hunchanged) fun profile => ?_
    refine (keeps_allowListed user profile path).then_triple (fun _ => hunchanged) fun listed => ?_
    refine Keeps.of_get.then_triple (fun _ => hunchanged) fun f => ?_
    dsimp only
    split
    · exact during_triple (v := (g, ids))
        (Q := fun _ v => Replaced r ids aces g.store.zone path o v.1.store)
        (E := fun v => Replaced r ids aces g.store.zone path o v.1.store) _ hreplace
        (replaced_unchanged ho)
    · exact hreplace session

/-! ## The owner -/

/-- Whoever asks, with whatever entries, and whether the call succeeds or fails: the object keeps
its owner, and an owner who had level own has lost it exactly when all the owner's own entries were
of the store's zone and in their place is an entry that was asked for with the group flag and below
own by something that names the owner. -/
theorem owner_keeps_own {f : Facade} {handle : Handle} {path : Path} {o : StoredObject}
    (hs : f.link.store.Reachable) (hp : f.registry.pathOf? handle = some path)
    (ho : f.link.store.object? path = some o) (hown : o.acl.levelOf? o.owner [] = some .own)
    (uid : UInt32) (aces : List Ace) :
    ∃ o', (setAcl uid handle aces f).2.link.store.object? path = some o' ∧ o'.owner = o.owner ∧
      (o'.acl.levelOf? o.owner [] ≠ some .own ↔
        (∀ e ∈ o.acl, e.name = o.owner → e.level = .own → e.zone = f.link.store.zone) ∧
        ∃ ace ∈ aces, ∃ level, ace.isGroup = true ∧ level < .own ∧
          AclExchange.request? f.resolver f.identities ace = some (o.owner, level) ∧
          ⟨o.owner, .group, f.link.store.zone, level⟩ ∈ o'.acl) := by
  have hreplaced : Replaced f.resolver f.identities aces f.link.store.zone path o
      (setAcl uid handle aces f).2.link.store := by
    have := setAcl_triple (g := f.ground) f.resolver uid hp ho aces f rfl
    rcases hf : (setAcl uid handle aces f : Except FacadeError Unit × Facade) with ⟨e | a, f'⟩
      <;> rw [hf] at this <;>
      exact this
  obtain ⟨incoming, hincoming, revoked, granted, hpartial, ho'⟩ := hreplaced
  have hseparate : o.acl.Separate := hs.separate path.place o ho
  have hzone : ∀ e ∈ incoming, e.zone = f.link.store.zone := fun e he => (hincoming e he).zone
  refine ⟨_, ho', rfl, fun hlost => ?_, ?_⟩
  · obtain ⟨hall, g, hin, hg, hname, hkind, hbelow⟩ :=
      AclChange.replaced_of_lost hseparate hpartial hzone hown hlost
    obtain ⟨ace, hace, hgroup, hrequest⟩ := (hincoming g hg).group hkind
    rw [hname] at hrequest
    refine ⟨hall, ace, hace, g.level, hgroup, hbelow, hrequest, ?_⟩
    rw [← hname, ← hkind, ← hzone g hg]
    exact hin
  · rintro ⟨hall, ace, -, level, -, hbelow, -, hin⟩
    exact AclChange.lost_of_replaced hseparate hpartial hzone hall hin rfl rfl hbelow

/-! The owner of the mounted collection is asked to have level read, once alone and once as a group.
-/

def readOnly (flags : AceFlags) : List Ace := [⟨"rods", .allow, flags, .readData⟩]

theorem sampleMount_owned {f : Facade} (hm : sampleMount .default = .ok f) :
    f.link.store.Reachable ∧
    ∃ o, f.link.store.object? ⟨"/z"⟩ = some o ∧ o.owner = "rods" ∧
      o.acl.levelOf? o.owner [] = some .own := by
  have hstore : f.link.store = Store.new "z" "rods" := (mounted hm).store
  have howned : ((Store.new "z" "rods").object? ⟨"/z"⟩).any (fun o =>
      decide (o.owner = "rods" ∧ o.acl.levelOf? o.owner [] = some .own)) = true := by decide +kernel
  obtain ⟨o, ho, h⟩ := (Option.any_eq_true _ _).1 howned
  rw [hstore]
  exact ⟨.new "z" "rods", o, ho, of_decide_eq_true h⟩

theorem owner_named_alone_keeps_own : ∃ f o', sampleMount .default = .ok f ∧
    (setAcl 0 1 (readOnly .none) f).2.link.store.object? ⟨"/z"⟩ = some o' ∧
      o'.acl.levelOf? "rods" [] = some .own := by
  have hroot : (sampleMount .default).toOption.any
      (fun f => decide (f.registry.pathOf? 1 = some ⟨"/z"⟩)) = true := by
    decide +kernel
  cases hm : sampleMount .default with
  | error e => rw [hm] at hroot; cases hroot
  | ok f =>
    rw [hm] at hroot
    obtain ⟨hs, o, ho, howner, hown⟩ := sampleMount_owned hm
    obtain ⟨o', ho', -, hiff⟩ :=
      owner_keeps_own hs (of_decide_eq_true hroot) ho hown 0 (readOnly .none)
    refine ⟨f, o', rfl, ho', ?_⟩
    by_contra hlost
    rw [← howner] at hlost
    obtain ⟨-, ace, hace, level, hgroup, -⟩ := hiff.1 hlost
    rw [readOnly, List.mem_singleton] at hace
    rw [hace] at hgroup
    cases hgroup

theorem group_entry_takes_own :
    ¬∀ (f : Facade) (handle : Handle) (path : Path) (o : StoredObject) (uid : UInt32)
    (aces : List Ace), f.link.store.Reachable → f.registry.pathOf? handle = some path →
      f.link.store.object? path = some o → o.acl.levelOf? o.owner [] = some .own →
        ∃ o', (setAcl uid handle aces f).2.link.store.object? path = some o' ∧
        o'.acl.levelOf? o.owner [] = some .own := by
  intro hclaim
  have hchecks : (sampleMount .default).toOption.any
      (fun f => decide (f.registry.pathOf? 1 = some ⟨"/z"⟩ ∧
      ((setAcl 0 1 (readOnly .identifierGroup) f).2.link.store.object? ⟨"/z"⟩).map
      (·.acl.levelOf? "rods" []) =
        some (some .read))) = true := by decide +kernel
  cases hm : sampleMount .default with
  | error e => rw [hm] at hchecks; cases hchecks
  | ok f =>
    rw [hm] at hchecks
    obtain ⟨hp, hread⟩ := of_decide_eq_true hchecks
    obtain ⟨hs, o, ho, howner, hown⟩ := sampleMount_owned hm
    obtain ⟨o', ho', hkept⟩ := hclaim f 1 _ o 0 (readOnly .identifierGroup) hs hp ho hown
    rw [ho', Option.map_some, ← howner, hkept] at hread
    cases hread

end Facade
end StoreMount
