import StoreMount.Proofs.Facade.Enforcement

/-!
# Asking for less

A decision goes through short cuts before it comes to the caller's level, and a mask that is part of
another one may take a short cut that the other one does not take. Still it is not refused where the
other one is allowed: each short cut that is open to a mask is open to its parts, and the weakest
level that allows a part is at most the weakest one that allows the whole.
-/
namespace StoreMount

namespace Mask

variable {m part : Mask}

theorem traversalOnly_of_contains (hne : part.isEmpty = false) (hpart : m.contains part = true)
    (h : m.traversalOnly = true) : part.traversalOnly = true := by
  simp only [traversalOnly, Bool.and_eq_true, Bool.not_eq_true'] at h ⊢
  exact ⟨hne, contains_trans h.2 hpart⟩

theorem attributeOnly_of_contains (hne : part.isEmpty = false) (hpart : m.contains part = true)
    (h : m.attributeOnly = true) : part.attributeOnly = true := by
  simp only [attributeOnly, Bool.and_eq_true, Bool.not_eq_true'] at h ⊢
  exact ⟨hne, contains_trans h.2 hpart⟩

theorem least_le_of_contains (hpart : m.contains part = true) : part.least ≤ m.least := by
  have hread : readClass.contains m = true → readClass.contains part = true :=
    fun h => contains_trans h hpart
  have hwrite : writeClass.contains m = true → writeClass.contains part = true :=
    fun h => contains_trans h hpart
  unfold least
  split
  · exact Nat.zero_le _
  · next hr =>
    rw [if_neg fun h => hr (hread h)]
    split
    · split
      · decide
      · exact Level.le_own _
    · next hw =>
      rw [if_neg fun h => hw (hwrite h)]
      exact Level.le_own _

end Mask

theorem Level.decision_narrow (level : Option Level) {m part : Mask}
    (hpart : m.contains part = true) (h : Level.decision level m = .allow) :
    Level.decision level part = .allow := by
  rw [Level.decision_eq_allow_iff] at *
  obtain ⟨held, rfl, hheld⟩ := (Option.any_eq_true _ _).1 h
  exact decide_eq_true (Level.le_trans (Mask.least_le_of_contains hpart) (of_decide_eq_true hheld))

namespace Facade

variable {w : World} {user : Principal} {path : Path}

theorem verdict_narrow {o : StoredObject} {m part : Mask} (hne : part.isEmpty = false)
    (hpart : m.contains part = true) (h : verdict w user path o m = .allow) :
    verdict w user path o part = .allow := by
  have htraversal := Mask.traversalOnly_of_contains hne hpart
  have hattribute := Mask.attributeOnly_of_contains hne hpart
  have hlevel :=
    Level.decision_narrow (o.acl.levelOf? user.name (w.store.profile user.name).groups) hpart
  simp only [verdict] at h ⊢
  -- a part either takes one of the short cuts or, like the whole then, none of them
  split
  · rfl
  · next ht =>
    rw [Bool.and_eq_true, not_and] at ht
    rw [if_neg (by rw [Bool.and_eq_true, not_and]; exact fun hk hm => ht hk (htraversal hm))] at h
    split
    · rfl
    · next ha =>
      rw [Bool.and_eq_true, not_and] at ha
      rw [if_neg (by rw [Bool.and_eq_true, not_and]; exact fun hm => ha (hattribute hm))] at h
      exact hlevel h

/-! ## All that can be answered -/

def answered (w : World) (user : Principal) (path : Path) (mask : Mask) :
    Except FacadeError Decision :=
  if path.structural w.zone then .ok .allow
  else match w.store.admits user.account, w.store.object? path with
    | .error e, _ => .error (.ofStore e)
    | .ok _, none => .error (.ofStore (.notFound path))
    | .ok _, some o => .ok (verdict w user path o mask)

theorem answered_narrow {m part : Mask} (hne : part.isEmpty = false)
    (hpart : m.contains part = true) (h : answered w user path m = .ok .allow) :
    answered w user path part = .ok .allow := by
  unfold answered at h ⊢
  split
  · rfl
  · next hs =>
    rw [if_neg hs] at h
    split at h
    · cases h
    · cases h
    · exact congrArg _ (verdict_narrow hne hpart (Except.ok.inj h))

theorem objectKind_gives_error (session : Session) (ho : w.store.object? path = none) :
    Gives (Holds w (Cache.Correct · w.store)) (objectKind session path)
      (.error (.ofStore (.notFound path)))
      (Holds w (Cache.Correct · w.store)) := by
  refine Gives.bind_get fun f hf => ?_
  split
  · next kind hfound =>
    obtain ⟨o, ho', -⟩ := hf.cache.kinds path kind hfound
    cases ho.symm.trans ho'
  · have hstat := stat_gives (w := w) (K := (Cache.Correct · w.store)) session path
    rw [Store.stat_eq, ho] at hstat
    exact hstat.bind_error

theorem decideAccess_answered (w : World) (user : Principal) (path : Path) (mask : Mask) :
    Gives (Holds w (Cache.Correct · w.store)) (decideAccess user path mask)
      (answered w user path mask)
      (Holds w (Cache.Correct · w.store)) := by
  unfold answered
  cases hpath : path.structural w.zone with
  | true =>
    refine (structural_gives path).bind_ok ?_
    rw [hpath]
    exact Gives.of_pure
  | false =>
    cases hadmits : w.store.admits user.account with
    | error e =>
      refine (structural_gives path).bind_ok ?_
      rw [hpath]
      exact during_gives_error hadmits
    | ok _ =>
      cases ho : w.store.object? path with
      | none =>
        refine (structural_gives path).bind_ok ?_
        rw [hpath]
        exact during_gives hadmits fun session _ => (objectKind_gives_error session ho).bind_error
      | some o => exact decideAccess_gives hadmits ho hpath mask

variable {f : Facade} {uid : UInt32} {handle : Handle}

theorem Allows.known (hl : f.link.Serves f.link.store) (hc : f.cache.Cold) {mask : Mask}
    (h : f.Allows uid handle mask) :
    ∃ user path, (resolve uid f).1 = .ok user ∧ f.registry.pathOf? handle = some path := by
  cases huser : (resolve uid f).1 with
  | error e =>
    have hresolve : Gives (· = f) (resolve uid) (.error e) fun _ => True :=
      fun g hg => ⟨hg ▸ huser, trivial⟩
    have hfails : (checkAccess uid handle mask f).1 = .error e := (hresolve.bind_error f rfl).1
    cases hfails.symm.trans h
  | ok user =>
    cases hp : f.registry.pathOf? handle with
    | none =>
      have hpath := pathOf_gives (w := f.resolved uid) (K := Cache.Cold) handle
      rw [show (f.resolved uid).registry.pathOf? handle = none from hp] at hpath
      have hfails : (checkAccess uid handle mask f).1 = .error (.handleNotFound handle) :=
        ((resolve_reaches hl hc huser).bind_ok hpath.bind_error f rfl).1
      cases hfails.symm.trans h
    | some path => exact ⟨user, path, rfl, rfl⟩

theorem allows_iff (hl : f.link.Serves f.link.store) (hc : f.cache.Cold) {mask : Mask} :
    f.Allows uid handle mask ↔ ∃ user path, (resolve uid f).1 = .ok user ∧
      f.registry.pathOf? handle = some path ∧
      answered (f.resolved uid) user path mask = .ok .allow := by
  have hcheck : ∀ {user path}, (resolve uid f).1 = .ok user →
      f.registry.pathOf? handle = some path →
      (checkAccess uid handle mask f).1 = answered (f.resolved uid) user path mask :=
        fun huser hp =>
    checkAccess_cold hl hc huser hp (decideAccess_answered _ _ _ mask)
  constructor
  · intro h
    obtain ⟨user, path, huser, hp⟩ := h.known hl hc
    exact ⟨user, path, huser, hp, (hcheck huser hp).symm.trans h⟩
  · rintro ⟨user, path, huser, hp, h⟩
    exact (hcheck huser hp).trans h

/-- With cold caches over a link that nobody interferes with, whoever is allowed a mask is allowed
each part of it that asks for anything at all, whatever is in the store, who is known and who is on
the allow-list. -/
theorem less_allowed {m part : Mask} (hl : f.link.Serves f.link.store) (hc : f.cache.Cold)
    (hne : part.isEmpty = false) (hpart : m.contains part = true) (h : f.Allows uid handle m) :
    f.Allows uid handle part := by
  rw [allows_iff hl hc] at *
  obtain ⟨user, path, huser, hp, h⟩ := h
  exact ⟨user, path, huser, hp, answered_narrow hne hpart h⟩

theorem home_open_for_less : ∃ f, homeMount = .ok f ∧ f.Allows 1000 1 Mask.writeClass ∧
      f.Allows 1000 1 .execute := by
  have hallowed : homeMount.toOption.any (fun f =>
      decide ((checkAccess 1000 1 Mask.writeClass f).1.toOption = some .allow)) = true := by
        decide +kernel
  obtain ⟨f, hm, hallowed⟩ := exists_of_any hallowed
  have hl : f.link.Serves sharedStore := serves_of_mount ⟨rfl, rfl, rfl, rfl⟩ hm
  have hc : f.cache.Cold := (mounted hm).cache ▸ Cache.cold_new _
  have hwrite : f.Allows 1000 1 Mask.writeClass := eq_ok_of_toOption (of_decide_eq_true hallowed)
  exact ⟨f, hm, hwrite, less_allowed (hl.store.symm ▸ hl) hc (by decide) (by decide) hwrite⟩

end Facade
end StoreMount
