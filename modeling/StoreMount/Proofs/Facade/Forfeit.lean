import StoreMount.Proofs.Facade.Atomicity
import StoreMount.Proofs.Facade.Enforcement
import StoreMount.Proofs.Facade.Ownership

/-!
# A change of an access list that stops half way

An access list is changed entry by entry, first what is to be revoked and then what is to be
granted, and every step takes level own on the list that the steps before it have left. Everybody
who is granted something has been looked up, so with nobody interfering one thing only can stop the
change: whoever makes it does not have level own, or not any more. An administrator is never
stopped, and neither is anybody who goes through the administrator's session. Those who act in their
own right are stopped at once, and then nothing has changed, or after a step that took level own
from themselves.
-/
namespace StoreMount

variable {s : Store} {user : String} {path : Path} {o : StoredObject} {acl : AccessList}
    {entry : PermissionEntry}

namespace Store

def withAcl (s : Store) (path : Path) (acl : AccessList) : Store :=
  s.changeAcl path.place fun _ => acl

theorem withAcl_self (ho : s.object? path = some o) : s.withAcl path o.acl = s := by
  rw [withAcl, changeAcl, Table.adjust_of_get? ho rfl]

theorem changeAcl_withAcl (s : Store) (path : Path) (acl : AccessList)
    (f : AccessList → AccessList) :
    (s.withAcl path acl).changeAcl path.place f = s.withAcl path (f acl) := by
  simp only [withAcl, changeAcl, Table.adjust_adjust]
  rfl

theorem object?_withAcl (ho : s.object? path = some o) (acl : AccessList) :
    (s.withAcl path acl).object? path = some { o with acl } := by
  rw [object?, withAcl, get?_changeAcl, show s.objects.get? path.place = some o from ho]
  simp

/-- Whether the user may go on changing an object's access list when it is this one. -/
def MayEdit (s : Store) (user : String) (acl : AccessList) : Prop :=
  s.isAdmin user = true ∨ acl.levelOf? user (s.groupsOf user) = some .own

theorem permits_own_iff (user : String) (o : StoredObject) :
    s.permits user o .own = true ↔ s.MayEdit user o.acl := by
  have hown : ∀ held : Option Level, held.any (fun l => decide (.own ≤ l)) = true ↔
      held = some .own := by
    rintro (_ | _ | _ | _) <;> decide
  rw [permits, Bool.or_eq_true, levelOf?, hown, MayEdit]

structure Edits (s : Store) (user : String) (path : Path) (action : Store → Except StoreError Store)
    (step : AccessList → AccessList) : Prop where
  done : ∀ {acl}, s.MayEdit user acl → action (s.withAcl path acl) = .ok (s.withAcl path (step acl))
  denied : ∀ {acl}, ¬s.MayEdit user acl →
    action (s.withAcl path acl) = .error (.permissionDenied path)

theorem require_withAcl (ho : s.object? path = some o) (user : String) (acl : AccessList) :
    (s.MayEdit user acl → (s.withAcl path acl).require user path .own = .ok ()) ∧
      (¬s.MayEdit user acl → (s.withAcl path acl).require user path .own =
        .error (.permissionDenied path)) := by
  have hpermits : (s.withAcl path acl).permits user { o with acl } .own = true ↔
      s.MayEdit user acl :=
    permits_own_iff (s := s.withAcl path acl) user { o with acl }
  rw [require_eq (object?_withAcl ho acl)]
  exact ⟨fun h => if_pos (hpermits.2 h), fun h => if_neg (mt hpermits.1 h)⟩

theorem edits_revoke (ho : s.object? path = some o) (user : String) (entry : PermissionEntry) :
    s.Edits user path (·.revoke user path entry) (·.revoke entry) where
  done h := by
    rw [revoke, (require_withAcl ho user _).1 h]
    exact congrArg Except.ok (changeAcl_withAcl ..)
  denied h := by
    rw [revoke, (require_withAcl ho user _).2 h]
    rfl

theorem edits_grant (ho : s.object? path = some o) (user : String)
    (hknown : s.users.contains entry.name = true) :
    s.Edits user path (·.grant user path entry) (·.grant entry) where
  done {acl} h := by
    have hknown : (s.withAcl path acl).users.contains entry.name = true := hknown
    rw [grant, (require_withAcl ho user _).1 h]
    simp only [hknown]
    exact congrArg Except.ok (changeAcl_withAcl ..)
  denied h := by
    rw [grant, (require_withAcl ho user _).2 h]
    rfl

/-- A failed change of an access list that has changed it, and by doing so has shut out the one who
made it. -/
structure Forfeits (s : Store) (user : String) (path : Path) (o : StoredObject) (acl : AccessList)
    (e : FacadeError) (s' : Store) : Prop where
  denied : e = .permissionDenied path.text
  there : s.object? path = some o
  changed : s' = s.withAcl path acl
  regular : s.isAdmin user = false
  held : o.acl.levelOf? user (s.groupsOf user) = some .own
  lost : acl.levelOf? user (s.groupsOf user) ≠ some .own

end Store

def World.withAcl (w : World) (path : Path) (acl : AccessList) : World :=
  { w with store := w.store.withAcl path acl }

namespace Facade

variable {α β : Type} {w : World} {session : Session}

/-- The facade shows a world over a link that nobody interferes with, whatever it remembers. -/
def Reads (w : World) (f : Facade) : Prop := Holds w (fun _ => True) f

/-! ## Step by step -/

structure Reached (w : World) (user : String) (path : Path) (acl acl' : AccessList)
    (f : Facade) : Prop where
  reads : Reads (w.withAcl path acl') f
  could : acl' = acl ∨ w.store.MayEdit user acl

def Stopped (w : World) (user : String) (path : Path) (acl : AccessList) (e : FacadeError)
    (f : Facade) : Prop :=
  ∃ acl', Reached w user path acl acl' f ∧ ¬w.store.MayEdit user acl' ∧
    e = .permissionDenied path.text

def Turns (w : World) (user : String) (path : Path) (acl acl' : AccessList)
    (m : FacadeM α) : Prop :=
  Triple (Reads (w.withAcl path acl)) m (fun _ f => Reached w user path acl acl' f)
    (Stopped w user path acl)

variable {acl' acl'' : AccessList}

theorem Reached.trans {f : Facade} (h : acl' = acl ∨ w.store.MayEdit user acl)
    (h' : Reached w user path acl' acl'' f) :
    Reached w user path acl acl'' f where
  reads := h'.reads
  could := by
    obtain rfl | h := h
    · exact h'.could
    · exact .inr h

theorem Turns.bind {m : FacadeM α} {rest : α → FacadeM β} (hm : Turns w user path acl acl' m)
    (hrest : ∀ a, Turns w user path acl' acl'' (rest a)) :
    Turns w user path acl acl'' (m >>= rest) := by
  refine Triple.bind hm fun a f hf => ?_
  refine (hrest a).weaken (fun _ h => h) (fun _ _ h => h.trans hf.could)
    (fun e g hg => ?_) f hf.reads
  obtain ⟨acl', hg, hstuck, he⟩ := hg
  exact ⟨acl', hg.trans hf.could, hstuck, he⟩

theorem turns_edit {c : Call} {action : Store → Except StoreError Store}
    {step : AccessList → AccessList} (h : w.store.Edits user path action step) (acl : AccessList) :
    Turns w user path acl (step acl) (call (Link.tell session c action)) := by
  by_cases hmay : w.store.MayEdit user acl
  · refine (call_gives (Link.tell_gives_ok (h.done hmay))).triple.weaken (fun _ h => h)
      (fun _ _ hf => ?_)
      fun _ _ hf => by cases hf.1
    exact ⟨hf.2, .inr hmay⟩
  · refine (call_gives (Link.tell_gives_error (h.denied hmay))).triple.weaken (fun _ h => h)
      (fun _ _ hf => by cases hf.1) fun e f hf => ?_
    exact ⟨acl, ⟨hf.2, .inl rfl⟩, hmay, (Except.error.inj hf.1).symm⟩

theorem turns_forM (step : AccessList → PermissionEntry → AccessList)
    (body : PermissionEntry → FacadeM PUnit) {entries : List PermissionEntry}
    (h : ∀ entry ∈ entries, ∀ acl, Turns w user path acl (step acl entry) (body entry))
    (acl : AccessList) : Turns w user path acl (entries.foldl step acl) (entries.forM body) := by
  induction entries generalizing acl with
  | nil => exact Triple.of_pure fun f hf => ⟨hf, .inl rfl⟩
  | cons entry entries ih =>
    obtain ⟨hfirst, hrest⟩ := List.forall_mem_cons.1 h
    exact (hfirst acl).bind fun _ => ih hrest (step acl entry)

theorem turns_applyChange (session : Session) (ho : w.store.object? path = some o)
    {change : AclChange} (hknown : ∀ e ∈ change.added, w.store.users.contains e.name = true)
    (acl : AccessList) :
    Turns w session.user path acl (acl.edit change.removed change.added)
      (applyChange session path change) := by
  have hrevoke : ∀ entry ∈ change.removed, ∀ acl,
      Turns w session.user path acl (acl.revoke entry) (call (Link.revoke session path entry)) :=
    fun entry _ => turns_edit (Store.edits_revoke ho session.user entry)
  have hgrant : ∀ entry ∈ change.added, ∀ acl,
      Turns w session.user path acl (acl.grant entry) (call (Link.grant session path entry)) :=
    fun entry he => turns_edit (Store.edits_grant ho session.user (hknown entry he))
  exact (turns_forM _ _ hrevoke acl).bind fun _ => turns_forM _ _ hgrant _

/-! ## What a failure leaves -/

/-- If the action fails, the store is as it was, or as a condition on it and the error says. -/
def Spoils (w : World) (K : Cache → Prop) (C : FacadeError → Store → Prop) (m : FacadeM α) : Prop :=
  Triple (Holds w K) m (fun _ _ => True) (fun e f => f.link.store = w.store ∨ C e f.link.store)

variable {K : Cache → Prop} {C : FacadeError → Store → Prop}

theorem Holds.store {f : Facade} (h : Holds w K f) : f.link.store = w.store :=
  congrArg World.store h.world

namespace Spoils

theorem weaken {C' : FacadeError → Store → Prop} {m : FacadeM α} (h : Spoils w K C m)
    (hC : ∀ e s, C e s → C' e s) :
    Spoils w K C' m := Triple.weaken h (fun _ h => h) (fun _ _ h => h) fun _ _ hf =>
    hf.imp_right (hC _ _)

theorem of_error {m : FacadeM α} {e : FacadeError}
    (h : Gives (Holds w K) m (.error e) (Holds w K)) : Spoils w K C m :=
  h.triple.weaken (fun _ h => h) (fun _ _ _ => trivial) fun _ _ hf => .inl hf.2.store

theorem bind_ok {K' : Cache → Prop} {m : FacadeM α} {a : α} {rest : α → FacadeM β}
    (hm : Gives (Holds w K) m (.ok a) (Holds w K')) (h : Spoils w K' C (rest a)) :
    Spoils w K C (m >>= rest) :=
  hm.then_triple h

theorem bind_get {rest : Facade → FacadeM α} (h : ∀ f, f.world = w → Spoils w K C (rest f)) :
    Spoils w K C (get >>= rest) := fun f hf => h f hf.world f hf

theorem during {account : Account} {body : Session → FacadeM α}
    (h : w.store.admits account = .ok () → ∀ session,
      session.user = account.clientUser → Spoils w K C (body session)) :
    Spoils w K C (Facade.during account body) := by
  cases hadmits : w.store.admits account with
  | error e => exact of_error (during_gives_error hadmits)
  | ok _ =>
    intro f hf
    obtain ⟨session, f', huser, hf', happly⟩ := during_apply hadmits body hf
    have hbody := h hadmits session huser f' hf'
    rw [happly]
    rcases hb : (body session f' : Except FacadeError α × Facade) with ⟨e | a, t⟩
      <;> rw [hb] at hbody
    · exact hbody.imp (Link.store_close session _).trans (Link.store_close session t.link ▸ ·)
    · trivial

theorem of_pathOf {handle : Handle} {rest : Path → FacadeM α}
    (h : ∀ path, w.registry.pathOf? handle = some path → Spoils w K C (rest path)) :
    Spoils w K C (pathOf handle >>= rest) := by
  have hpath := pathOf_gives (w := w) (K := K) handle
  cases hp : w.registry.pathOf? handle with
  | none => rw [hp] at hpath; exact of_error hpath.bind_error
  | some path => rw [hp] at hpath; exact bind_ok hpath (h path hp)

end Spoils

theorem replaceAcl_spoils (session : Session) (path : Path) (aces : List Ace) :
    Spoils w (fun _ => True) (fun e s' => ∃ o acl, w.store.Forfeits session.user path o acl e s')
      (replaceAcl session path aces) := by
  have hstat := stat_gives (w := w) (K := fun _ => True) session path
  have hpermissions := storedPermissions_gives (w := w) (K := fun _ => True) session path
  rw [Store.stat_eq] at hstat
  rw [Store.permissions_eq] at hpermissions
  cases ho : w.store.object? path with
  | none =>
    rw [ho] at hstat
    exact .of_error hstat.bind_error
  | some o =>
    rw [ho] at hstat hpermissions
    refine .bind_ok hstat (.bind_ok hpermissions (.bind_get fun f _ => ?_))
    obtain ⟨incoming, hknown, hincoming⟩ := toEntries_gives f.resolver f.identities w.store aces
    refine .bind_ok (call_gives (hincoming session)) ?_
    have hadded : ∀ e ∈ (AclChange.between o.acl incoming o.owner).added,
        w.store.users.contains e.name = true :=
      fun e he => hknown e (AclChange.mem_added.1 he).1
    have hsame : w.withAcl path o.acl = w := by rw [World.withAcl, Store.withAcl_self ho]
    have hturns := turns_applyChange session ho hadded o.acl
    refine Triple.bind (hturns.weaken (fun f hf => ?_) (fun _ _ _ => trivial) ?_)
      fun _ _ _ => trivial
    · exact hsame.symm ▸ hf
    · rintro e f ⟨acl, hf, hstuck, rfl⟩
      obtain rfl | hcould := hf.could
      · exact .inl (hf.reads.store.trans (congrArg World.store hsame))
      · refine .inr ⟨o, acl, rfl, ho, hf.reads.store, ?_, ?_, fun hown => hstuck (.inr hown)⟩
        · exact Bool.eq_false_iff.2 fun hadmin => hstuck (.inl hadmin)
        · exact hcould.resolve_left fun hadmin => hstuck (.inl hadmin)

/-! ## Who makes the change -/

def profileFor (f : Facade) (name : String) : UserProfile :=
  (f.cache.userProfile? name).getD (f.link.store.profile name)

structure OwnRight (f : Facade) (user : Principal) (path : Path) : Prop where
  type : (f.profileFor user.name).type ≠ .admin
  unlisted : f.allowList.allows user.name (f.profileFor user.name).groups path = false

variable {f : Facade} {uid : UInt32} {handle : Handle}

theorem resolve_spoils (hl : f.link.Serves f.link.store) (uid : UInt32) :
    Triple (· = f) (resolve uid)
      (fun user g => Holds (f.resolved uid) (· = f.cache) g ∧ (resolve uid f).1 = .ok user)
      (fun _ g => g.link.store = f.link.store) := by
  rintro g rfl
  rcases hresolved : (resolve uid g : Except FacadeError Principal × Facade) with ⟨e | user, t⟩
  · have hkept : ground (resolve uid g).2 = ground g := keeps_resolve uid g
    rw [hresolved] at hkept
    exact congrArg Ground.store hkept
  · have hreached :=
      (resolve_reaches (K := (· = g.cache)) hl rfl (congrArg Prod.fst hresolved) g rfl).2
    rw [hresolved] at hreached
    exact ⟨hreached, rfl⟩

theorem not_forfeits_of_admits {s s' : Store} {account : Account} {e : FacadeError}
    (h : s.admits account = .ok ()) :
    ¬s.Forfeits account.proxyUser path o acl e s' := fun hf => by
  unfold Store.admits at h
  rw [hf.regular] at h
  cases h

theorem replaceAcl_by_admin {account : Account} (hadmits : w.store.admits account = .ok ())
    (hsession : session.user = account.proxyUser) (path : Path) (aces : List Ace) :
    Spoils w (fun _ => True) C (replaceAcl session path aces) :=
  (replaceAcl_spoils session path aces).weaken fun _ _ ⟨_, _, hf⟩ =>
    absurd (hsession ▸ hf) (not_forfeits_of_admits hadmits)

/-- The caller acts in their own right, and has been denied level own half way by the change itself.
-/
def ShutOut (f : Facade) (uid : UInt32) (handle : Handle) (e : FacadeError) (s' : Store) : Prop :=
  ∃ user path o acl, (resolve uid f).1 = .ok user ∧ f.registry.pathOf? handle = some path ∧
    f.OwnRight user path ∧
    f.link.store.Forfeits user.name path o acl e s'

theorem setAcl_spoils (hl : f.link.Serves f.link.store) (hr : f.resolver.Arisen) (uid : UInt32)
    (handle : Handle) (aces : List Ace) :
    Triple (· = f) (setAcl uid handle aces) (fun _ _ => True)
      (fun e g => g.link.store = f.link.store ∨ f.ShutOut uid handle e g.link.store) := by
  unfold setAcl
  split
  · exact Triple.of_pure fun _ _ => trivial
  · refine ((resolve_spoils hl uid).weaken (fun _ h => h) (fun _ _ h => h) fun _ _ =>
          .inl).bind fun user =>
      Triple.of_known fun huser => ?_
    have haccount : user.account = f.resolver.admin.actingAs user.name :=
      hr.coherent.account_of_resolve huser
    change Spoils (f.resolved uid) (· = f.cache) (f.ShutOut uid handle) _
    refine .of_pathOf fun path hp => .during fun hadmits session hsession => ?_
    refine .bind_ok (remembered_profile_gives session (K := fun _ => True) trivial trivial) ?_
    refine .bind_ok (allowListed_gives user _ path) (.bind_get fun g hg => ?_)
    have hadmin : g.resolver.admin = f.resolver.admin :=
      (congrArg (·.resolver.admin) hg).trans (Resolver.admin_resolve ..)
    rw [hadmin]
    dsimp only
    split
    · exact .during fun hadmits session hsession =>
        replaceAcl_by_admin hadmits (hsession.trans hr.coherent.admin) path aces
    · next hown =>
      rw [Bool.and_eq_true, Bool.or_eq_true, decide_eq_true_eq, decide_eq_true_eq] at hown
      by_cases hclient : user.account.clientUser = f.resolver.admin.clientUser
      · -- the caller is the proxy administrator, whose own session will do
        have hproxy : session.user = user.account.proxyUser := by
          rw [hsession, hclient, hr.coherent.admin, haccount]
          rfl
        exact replaceAcl_by_admin hadmits hproxy path aces
      · refine (replaceAcl_spoils session path aces).weaken fun e s' ⟨o, acl, hf⟩ => ?_
        have hunprivileged := fun h => hown ⟨h, hclient⟩
        have hname : session.user = user.name :=
          hsession.trans (congrArg Account.clientUser haccount)
        refine ⟨user, path, o, acl, huser, hp, ⟨fun h => hunprivileged (.inl h), ?_⟩, hname ▸ hf⟩
        exact Bool.eq_false_iff.2 fun h => hunprivileged (.inr h)

/-- Over a link that nobody interferes with and whatever the resolver has gone through, a change of
an access list that ends in an error leaves the store as it was, unless somebody who acts in their
own right is shut out half way. -/
theorem failed_change_leaves_acl (hl : f.link.Serves f.link.store) (hr : f.resolver.Arisen)
    {aces : List Ace} {e : FacadeError} (he : (setAcl uid handle aces f).1 = .error e) :
    (setAcl uid handle aces f).2.link.store = f.link.store ∨
      f.ShutOut uid handle e (setAcl uid handle aces f).2.link.store := by
  have hspoils := setAcl_spoils hl hr uid handle aces f rfl
  rcases hs : (setAcl uid handle aces f : Except FacadeError Unit × Facade) with ⟨e' | _, t⟩
    <;> rw [hs] at hspoils he
  · obtain rfl := Except.error.inj he
    exact hspoils
  · cases he

/-! Somebody with whom a home is shared asks for a list that names neither them nor the home's
owner. -/

def jointStore : Store :=
  (sharedStore.addUser "bob" .regular).changeAcl (Store.homeOf "z" "alice").place
    (·.grant ⟨"bob", .individual, "z", .own⟩)

def jointMount : Except FacadeError Facade :=
  let people := (Identities.empty.addUser "alice" 1000 1000).addUser "bob" 1001 1001
  (mount (.ofServer (.ofStore jointStore)) people (.new people sampleAccount .asKept)
    (.new sampleAccount "k")
    ⟨Store.homeOf "z" "alice", "z", true, .default⟩).1

theorem jointMount_settled (hm : jointMount = .ok f) :
    f.link.Serves f.link.store ∧ f.link.store = jointStore ∧ f.resolver.Arisen := by
  have hl : f.link.Serves jointStore := serves_of_mount ⟨rfl, rfl, rfl, rfl⟩ hm
  obtain ⟨rootObjectId, link, registry, -, -, rfl⟩ := mount_eq_ok hm
  exact ⟨hl.store.symm ▸ hl, hl.store, .new _ _ _⟩

theorem jointStore_reachable : jointStore.Reachable := by
  refine .step (.grantPermission (Store.homeOf "z" "alice") ⟨"bob", .individual, "z", .own⟩)
    (.step (.addUser "bob" .regular)
      (.step (.addUser "alice" .regular) (.new "z" "rods") rfl) rfl) ?_
  have hthere : ((sharedStore.addUser "bob" .regular).object? (Store.homeOf "z" "alice")).isSome =
    true := by decide +kernel
  obtain ⟨o, ho⟩ := Option.isSome_iff_exists.1 hthere
  exact congrArg (· >>= fun _ => .ok jointStore) (Store.find_eq ho)

theorem jointMount_shuts_out :
    ∃ f e, jointMount = .ok f ∧ f.registry.pathOf? 1 = some (Store.homeOf "z" "alice") ∧
    (setAcl 1001 1 (readOnly .none) f).1 = .error e ∧
    ((setAcl 1001 1 (readOnly .none) f).2.link.store.object? (Store.homeOf "z" "alice")).map
      StoredObject.acl ≠
      (jointStore.object? (Store.homeOf "z" "alice")).map StoredObject.acl := by
  have hchecks : jointMount.toOption.any
      (fun f => decide (f.registry.pathOf? 1 = some (Store.homeOf "z" "alice") ∧
      (setAcl 1001 1 (readOnly .none) f).1.toOption = none ∧
      ((setAcl 1001 1 (readOnly .none) f).2.link.store.object? (Store.homeOf "z" "alice")).map
        StoredObject.acl ≠
        (jointStore.object? (Store.homeOf "z" "alice")).map StoredObject.acl)) = true := by
    decide +kernel
  obtain ⟨f, hm, hchecks⟩ := exists_of_any hchecks
  obtain ⟨hp, hnone, hacl⟩ := of_decide_eq_true hchecks
  cases he : (setAcl 1001 1 (readOnly .none) f).1 with
  | error e => exact ⟨f, e, hm, hp, he, hacl⟩
  | ok _ => rw [he] at hnone; cases hnone

theorem shut_out_half_way : ∃ f e, jointMount = .ok f ∧
      (setAcl 1001 1 (readOnly .none) f).1 = .error e ∧
    f.ShutOut 1001 1 e (setAcl 1001 1 (readOnly .none) f).2.link.store := by
  obtain ⟨f, e, hm, -, he, hacl⟩ := jointMount_shuts_out
  obtain ⟨hl, hstore, hr⟩ := jointMount_settled hm
  refine ⟨f, e, hm, he, (failed_change_leaves_acl hl hr he).resolve_left fun hsame => hacl ?_⟩
  rw [hsame, hstore]

theorem failed_change_changes_acl :
    ¬∀ (f : Facade) (uid : UInt32) (handle : Handle) (path : Path) (aces : List Ace)
    (e : FacadeError), f.Reachable → f.resolver.Arisen → f.link.store.Reachable →
      f.link.Serves f.link.store →
      f.registry.pathOf? handle = some path → (setAcl uid handle aces f).1 = .error e →
        ((setAcl uid handle aces f).2.link.store.object? path).map StoredObject.acl =
          (f.link.store.object? path).map StoredObject.acl := by
  intro hkeeps
  obtain ⟨f, e, hm, hp, he, hacl⟩ := jointMount_shuts_out
  obtain ⟨hl, hstore, hr⟩ := jointMount_settled hm
  have hkept :=
    hkeeps f 1001 1 _ (readOnly .none) e (.mounted hm) hr (hstore ▸ jointStore_reachable) hl hp he
  rw [hstore] at hkept
  exact hacl hkept

end Facade
end StoreMount
