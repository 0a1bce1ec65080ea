import StoreMount.Proofs.Facade.Conduct
import StoreMount.Proofs.Facade.Forfeit

/-!
# Decisions that are remembered

A decision is remembered under a user number, a mask and a place, for as long as decisions live.
Nothing but a check that finds no decision enters one, and nothing takes one away. So what a check
answers was decided in that call, or in the last check of the same number, mask and place that had
to decide. In between the number may have come to stand for somebody else, since the resolver
forgets whom it knows when the identity source has changed. Then what was decided for the one is
told the other.
-/
namespace StoreMount

/-- What can happen to a mounted facade. It is asked, or time passes; the link and the identity
source are not what they were; the resolver looks whether the identity source has changed. -/
inductive Happening
  | own (move : Move)
  | link (link : Link)
  | identities (identities : Identities)
  | purge

namespace Facade

variable {f g : Facade} {uid : UInt32} {handle : Handle} {mask : Mask} {user : Principal}
    {path : Path} {decision : Decision}

def happen (f : Facade) : Happening → Facade
  | .own move => (f.step move).2
  | .link link => { f with link }
  | .identities identities => { f with identities }
  | .purge => { f with resolver := (f.resolver.purgeIfChanged f.identities).2 }

def live (f : Facade) (happenings : List Happening) : Facade := happenings.foldl happen f

/-- The resolver would forget whom it knows if it looked. -/
def Purges (f : Facade) : Prop := (f.resolver.purgeIfChanged f.identities).1 = true

theorem live_append (f : Facade) (earlier later : List Happening) :
    f.live (earlier ++ later) = (f.live earlier).live later :=
  List.foldl_append

theorem live_concat (f : Facade) (happenings : List Happening) (happening : Happening) :
    f.live (happenings ++ [happening]) = (f.live happenings).happen happening := live_append ..

theorem live_invariant {C : Facade → Prop} (h : ∀ g happening, C g → C (g.happen happening))
    (hf : C f) (happenings : List Happening) : C (f.live happenings) := by
  induction happenings generalizing f with
  | nil => exact hf
  | cons happening happenings ih => exact ih (h f happening hf)

theorem exists_origin {P : List Happening → Prop} {B : List Happening → Happening → Prop}
    {happenings : List Happening} (h : P happenings) (hnil : ¬P [])
    (hconcat : ∀ before happening, P (before ++ [happening]) → P before ∨ B before happening) :
    ∃ before happening after, happenings = before ++ happening :: after ∧ B before happening := by
  induction happenings using List.reverseRecOn with
  | nil => exact absurd h hnil
  | append_singleton happenings happening ih =>
    rcases hconcat happenings happening h with hbefore | hnew
    · obtain ⟨before, first, after, rfl, hnew⟩ := ih hbefore
      exact ⟨before, first, after ++ [happening], by simp, hnew⟩
    · exact ⟨happenings, happening, [], rfl, hnew⟩

/-! ## One check -/

structure Decides (f : Facade) (uid : UInt32) (handle : Handle) (mask : Mask) (user : Principal)
    (path : Path) (decision : Decision) : Prop where
  caller : (resolve uid f).1 = .ok user
  mapped : f.registry.pathOf? handle = some path
  unknown : f.cache.access? user.uid mask path = none
  decided : (decideAccess user path mask (resolve uid f).2).1 = .ok decision

theorem Decides.unique {user' : Principal} {path' : Path} {decision' : Decision}
    (h : f.Decides uid handle mask user path decision)
    (h' : f.Decides uid handle mask user' path' decision') :
    user = user' ∧ path = path' ∧ decision = decision' := by
  obtain rfl := Except.ok.inj (h.caller.symm.trans h'.caller)
  obtain rfl := Option.some.inj (h.mapped.symm.trans h'.mapped)
  exact ⟨rfl, rfl, Except.ok.inj (h.decided.symm.trans h'.decided)⟩

def decisions (f : Facade) : Lifetimes × Nat × Table (UInt32 × UInt32 × Place) (Stamped Decision) :=
  (f.cache.lifetimes, f.cache.now, f.cache.accessFor)

inductive Checks (f : Facade) (uid : UInt32) (handle : Handle) (mask : Mask) :
    Except FacadeError Decision →
      Lifetimes × Nat × Table (UInt32 × UInt32 × Place) (Stamped Decision) → Prop
  | failed (e : FacadeError) (undecided : ∀ user path decision,
      ¬f.Decides uid handle mask user path decision) :
      Checks f uid handle mask (.error e) f.decisions
  | recalled {user : Principal} {path : Path} {decision : Decision}
      (caller : (resolve uid f).1 = .ok user)
      (mapped : f.registry.pathOf? handle = some path)
      (known : f.cache.access? user.uid mask path = some decision) :
      Checks f uid handle mask (.ok decision) f.decisions
  | decided {user : Principal} {path : Path} {decision : Decision}
      (h : f.Decides uid handle mask user path decision) :
      Checks f uid handle mask (.ok decision) (f.cache.lifetimes, f.cache.now,
        f.cache.accessFor.insert (user.uid, mask.bits, path.place) (f.cache.stamp decision))

theorem decisions_decideAccess (user : Principal) (path : Path) (mask : Mask) :
    Keeps decisions (decideAccess user path mask) := by
  have hacts : Acts (fun _ => True) Cache.Minor (fun _ _ => False) none
      (decideAccess user path mask) :=
    decideAccess_acts trivial (fun _ h => h) path mask
  exact hacts.keeps (fun _ _ => rfl) (fun _ _ => rfl) fun f _ h =>
    congrArg (fun c => (c.1, c.2.1, c.2.2.2)) (h f.cache)

theorem recallOrDecide_of_known (h : f.cache.access? user.uid mask path = some decision) :
    recallOrDecide user path mask f = (.ok decision, f) := by
  rw [recallOrDecide, bind_apply, get_apply]
  dsimp only
  rw [h]
  rfl

theorem recallOrDecide_of_unknown (h : f.cache.access? user.uid mask path = none) :
    (recallOrDecide user path mask f).1 = (decideAccess user path mask f).1 ∧
      (recallOrDecide user path mask f).2.decisions = match (decideAccess user path mask f).1 with
        | .ok decision => (f.cache.lifetimes, f.cache.now,
            f.cache.accessFor.insert (user.uid, mask.bits, path.place) (f.cache.stamp decision))
        | .error _ => f.decisions := by
  have hkept := decisions_decideAccess user path mask f
  rw [recallOrDecide, bind_apply, get_apply]
  dsimp only
  rw [h]
  dsimp only
  rw [bind_apply]
  rcases hd : (decideAccess user path mask f : Except FacadeError Decision ×
    Facade) with ⟨e | decision, g⟩ <;> rw [hd] at hkept
  · exact ⟨rfl, hkept⟩
  · simp only [decisions, Prod.mk.injEq] at hkept
    obtain ⟨hlifetimes, hnow, haccess⟩ := hkept
    refine ⟨rfl, ?_⟩
    change (g.cache.lifetimes, g.cache.now, g.cache.accessFor.insert _ (g.cache.stamp decision)) = _
    rw [Cache.stamp, hlifetimes, hnow, haccess]
    rfl

theorem recallOrDecide_checks (huser : (resolve uid f).1 = .ok user)
    (hp : f.registry.pathOf? handle = some path) (mask : Mask) :
    f.Checks uid handle mask (recallOrDecide user path mask (resolve uid f).2).1
      (recallOrDecide user path mask (resolve uid f).2).2.decisions := by
  have hdecisions : (resolve uid f).2.decisions = f.decisions := rfl
  cases ha : f.cache.access? user.uid mask path with
  | some decision =>
    rw [recallOrDecide_of_known
      (show (resolve uid f).2.cache.access? user.uid mask path = some decision from ha), hdecisions]
    exact .recalled huser hp ha
  | none =>
    obtain ⟨hanswer, hafter⟩ :=
      recallOrDecide_of_unknown
        (show (resolve uid f).2.cache.access? user.uid mask path = none from ha)
    rw [hanswer, hafter]
    cases hd : (decideAccess user path mask (resolve uid f).2).1 with
    | error e =>
      refine .failed e fun user' path' decision h => ?_
      obtain rfl := Except.ok.inj (huser.symm.trans h.caller)
      obtain rfl := Option.some.inj (hp.symm.trans h.mapped)
      cases hd.symm.trans h.decided
    | ok decision => exact .decided ⟨huser, hp, ha, hd⟩

theorem checkAccess_checks (f : Facade) (uid : UInt32) (handle : Handle) (mask : Mask) :
    f.Checks uid handle mask (checkAccess uid handle mask f).1
      (checkAccess uid handle mask f).2.decisions := by
  have hdecisions : (resolve uid f).2.decisions = f.decisions := rfl
  have hregistry : (resolve uid f).2.registry = f.registry := rfl
  rw [checkAccess_eq, bind_apply]
  rcases hu : (resolve uid f : Except FacadeError Principal × Facade) with ⟨e | user, g⟩
    <;> rw [hu] at hdecisions hregistry
  · rw [show g.decisions = f.decisions from hdecisions]
    exact .failed e fun _ _ _ h => by cases (congrArg Prod.fst hu).symm.trans h.caller
  · dsimp only
    rw [bind_apply, pathOf_apply, show g.registry = f.registry from hregistry]
    cases hp : f.registry.pathOf? handle with
    | none =>
      rw [show g.decisions = f.decisions from hdecisions]
      exact .failed _ fun _ _ _ h => by cases hp.symm.trans h.mapped
    | some path =>
      have hchecks := recallOrDecide_checks (congrArg Prod.fst hu) hp mask
      rwa [hu] at hchecks

/-! ## What happens -/

theorem perform_decisions (operation : Operation)
    (h : ∀ uid handle mask, operation ≠ .checkAccess uid handle mask) :
    Keeps decisions (perform operation) := by
  refine (perform_onBehalf operation).keeps (fun _ _ => rfl) (fun _ _ => rfl)
    (fun _ _ => rfl) fun f change hc => ?_
  cases hc with
  | minor hminor => exact congrArg (fun c => (c.1, c.2.1, c.2.2.2)) (hminor f.cache)
  | listing => rfl
  | decision => exact absurd rfl (h _ _ _)

theorem perform_checkAccess (f : Facade) (uid : UInt32) (handle : Handle) (mask : Mask) :
    (perform (.checkAccess uid handle mask) f).2 = (checkAccess uid handle mask f).2 :=
  state_of_answer ..

inductive Proceeds (f : Facade) :
    Happening → Table (UInt32 × UInt32 × Place) (Stamped Decision) → Prop
  | same {happening : Happening} (undecided : ∀ uid handle mask user path decision,
      happening = .own (.ask (.checkAccess uid handle mask)) →
        ¬f.Decides uid handle mask user path decision) :
      Proceeds f happening f.cache.accessFor
  | decided {uid : UInt32} {handle : Handle} {mask : Mask} {user : Principal} {path : Path}
      {decision : Decision}
      (h : f.Decides uid handle mask user path decision) :
        Proceeds f (.own (.ask (.checkAccess uid handle mask)))
        (f.cache.accessFor.insert (user.uid, mask.bits, path.place) (f.cache.stamp decision))

theorem checkAccess_proceeds (f : Facade) (uid : UInt32) (handle : Handle)
    (mask : Mask) {g : Facade} (hg : (checkAccess uid handle mask f).2 = g) :
    g.cache.lifetimes = f.cache.lifetimes ∧ f.cache.now ≤ g.cache.now ∧
      f.Proceeds (.own (.ask (.checkAccess uid handle mask))) g.cache.accessFor := by
  have hchecks := f.checkAccess_checks uid handle mask
  generalize (checkAccess uid handle mask f).1 = answer at hchecks
  rw [hg] at hchecks
  generalize hd : g.decisions = d at hchecks
  have hlifetimes : g.cache.lifetimes = d.1 := congrArg Prod.fst hd
  have hnow : g.cache.now = d.2.1 := congrArg (·.2.1) hd
  have haccess : g.cache.accessFor = d.2.2 := congrArg (·.2.2) hd
  rw [hlifetimes, hnow, haccess]
  cases hchecks with
  | failed e undecided =>
    exact ⟨rfl, Nat.le_refl _, .same fun _ _ _ _ _ _ he hn => by cases he; exact undecided _ _ _ hn⟩
  | recalled caller mapped known =>
    refine ⟨rfl, Nat.le_refl _, .same fun _ _ _ _ _ _ he hn => ?_⟩
    cases he
    obtain rfl := Except.ok.inj (caller.symm.trans hn.caller)
    obtain rfl := Option.some.inj (mapped.symm.trans hn.mapped)
    cases known.symm.trans hn.unknown
  | decided h => exact ⟨rfl, Nat.le_refl _, .decided h⟩

theorem happen_proceeds (f : Facade) (happening : Happening) :
    (f.happen happening).cache.lifetimes = f.cache.lifetimes ∧
      f.cache.now ≤ (f.happen happening).cache.now ∧
      f.Proceeds happening (f.happen happening).cache.accessFor := by
  cases happening with
  | own move =>
    cases move with
    | pause milliseconds =>
      exact ⟨rfl, Nat.le_add_right _ _, .same fun _ _ _ _ _ _ he => nomatch he⟩
    | ask operation =>
      change (perform operation f).2.cache.lifetimes = _ ∧ _ ≤ (perform operation f).2.cache.now ∧
        f.Proceeds _ (perform operation f).2.cache.accessFor
      by_cases hcheck : ∃ uid handle mask, operation = .checkAccess uid handle mask
      · obtain ⟨uid, handle, mask, rfl⟩ := hcheck
        exact f.checkAccess_proceeds uid handle mask (perform_checkAccess f uid handle mask).symm
      · have hkept :=
          perform_decisions operation (fun uid handle mask he => hcheck ⟨uid, handle, mask, he⟩) f
        simp only [decisions, Prod.mk.injEq] at hkept
        obtain ⟨hlifetimes, hnow, haccess⟩ := hkept
        rw [hlifetimes, hnow, haccess]
        refine ⟨rfl, Nat.le_refl _,
          .same fun uid handle mask _ _ _ he => absurd ⟨uid, handle, mask, ?_⟩ hcheck⟩
        cases he
        rfl
  | link | identities | purge => exact ⟨rfl, Nat.le_refl _, .same fun _ _ _ _ _ _ he => nomatch he⟩

theorem live_lifetimes (f : Facade) (happenings : List Happening) :
    (f.live happenings).cache.lifetimes = f.cache.lifetimes :=
  live_invariant (C := (·.cache.lifetimes = f.cache.lifetimes))
    (fun g happening hg => (g.happen_proceeds happening).1.trans hg) rfl
    happenings

theorem live_now (f : Facade) (happenings : List Happening) :
    f.cache.now ≤ (f.live happenings).cache.now :=
  live_invariant (C := (f.cache.now ≤ ·.cache.now))
    (fun g happening hg => Nat.le_trans hg (g.happen_proceeds happening).2.1)
    (Nat.le_refl _) happenings

/-! ## Whom the resolver knows meanwhile -/

theorem resolver_happen (f : Facade) (happening : Happening) :
    (f.happen happening).resolver = f.resolver ∨
    (∃ number l, (f.happen happening).resolver = (f.resolver.resolve f.identities number l).2.1) ∨
    happening = .purge ∧ (f.happen happening).resolver =
      (f.resolver.purgeIfChanged f.identities).2 := by
  cases happening with
  | own move =>
    cases move with
    | pause milliseconds => exact .inl rfl
    | ask operation =>
      rcases (perform_onBehalf operation).resolver f with h | ⟨number, -, h⟩
      · exact .inl h
      · exact .inr (.inl ⟨number, _, h⟩)
  | link link => exact .inl rfl
  | identities identities => exact .inl rfl
  | purge => exact .inr (.inr ⟨rfl, rfl⟩)

theorem numbered_live (h : f.resolver.Numbered) (happenings : List Happening) :
    (f.live happenings).resolver.Numbered := by
  refine live_invariant (C := (·.resolver.Numbered)) (fun g happening hg => ?_) h happenings
  rcases g.resolver_happen happening with hr | ⟨number, l, hr⟩ | ⟨-, hr⟩ <;> rw [hr]
  · exact hg
  · exact hg.resolve _ number l
  · exact hg.purge _

theorem purgeIfChanged_of_not_purges (h : ¬f.Purges) :
    (f.resolver.purgeIfChanged f.identities).2 = f.resolver := by
  unfold Purges at h
  unfold Resolver.purgeIfChanged at h ⊢
  split
  · rfl
  · next hm => simp [hm] at h

theorem known_live {p : Principal} (h : f.resolver.known.get? uid = some p)
    (happenings : List Happening)
    (hp : ∀ before after, happenings = before ++ .purge :: after → ¬(f.live before).Purges) :
    (f.live happenings).resolver.known.get? uid = some p := by
  induction happenings using List.reverseRecOn with
  | nil => exact h
  | append_singleton happenings happening ih =>
    have hknown := ih fun before after he =>
      hp before (after ++ [happening]) (by rw [he, List.append_assoc]; rfl)
    rw [live_concat]
    rcases (f.live happenings).resolver_happen happening with hr | ⟨number, l, hr⟩ | ⟨rfl, hr⟩
      <;> rw [hr]
    · exact hknown
    · exact Resolver.known_resolve hknown _ number l
    · rwa [purgeIfChanged_of_not_purges (hp happenings [] rfl)]

theorem Decides.known (h : f.Decides uid handle mask user path decision) :
    (f.happen (.own (.ask (.checkAccess uid handle mask)))).resolver.known.get? uid =
      some user := by
  have hacts : ∀ path, Acts (fun _ => True) (fun _ => True) (fun _ _ => False) none
      (recallOrDecide user path mask) :=
    fun path => recallOrDecide_acts trivial (fun _ _ => trivial) path mask fun _ => trivial
  have hkeeps : Keeps Facade.resolver
      (pathOf handle >>= fun path => recallOrDecide user path mask) :=
    (keeps_pathOf handle).bind fun path =>
      (hacts path).keeps (fun _ _ => rfl) (fun _ _ => rfl) fun _ _ _ => rfl
  have hafter : (f.happen (.own (.ask (.checkAccess uid handle mask)))).resolver =
      (resolve uid f).2.resolver := by
    change (perform (.checkAccess uid handle mask) f).2.resolver = _
    obtain ⟨g, hu⟩ : ∃ g, (resolve uid f : Except FacadeError Principal × Facade) = (.ok user, g) :=
      ⟨_, Prod.ext h.caller rfl⟩
    rw [perform_checkAccess, checkAccess_eq, bind_apply, hu]
    exact hkeeps g
  rw [hafter]
  exact Resolver.known_of_resolve h.caller

/-! ## What is remembered when -/

/-- The check that came after `before` had to decide. -/
def Checked (f : Facade) (happenings : List Happening) (uid : UInt32) (mask : Mask)
    (before : List Happening) (user : Principal) (path : Path) (decision : Decision) : Prop :=
  ∃ handle after, happenings = before ++ .own (.ask (.checkAccess uid handle mask)) :: after ∧
    (f.live before).Decides uid handle mask user path decision

/-- What it decided is not too old yet. -/
structure Remembered (f : Facade) (happenings : List Happening) (uid : UInt32) (mask : Mask)
    (before : List Happening) (user : Principal) (path : Path) (decision : Decision) : Prop where
  checked : f.Checked happenings uid mask before user path decision
  recent : (f.live happenings).cache.now < (f.live before).cache.now + f.cache.lifetimes.access

variable {happenings before : List Happening}

theorem checked_of_accessFor (hf : f.cache.accessFor = .empty) (hr : f.resolver.Numbered)
    {place : Place} {since : Nat} (h : (f.live happenings).cache.accessFor.get?
      (uid, mask.bits, place) = some ⟨decision, since⟩) :
    ∃ before user path, f.Checked happenings uid mask before user path decision ∧
      path.place = place ∧
      since = (f.live before).cache.now := by
  obtain ⟨before, happening, after, rfl, handle, user, path, rfl, hdecides, hplace, hsince⟩ :=
    exists_origin
    (P := fun before =>
        (f.live before).cache.accessFor.get? (uid, mask.bits, place) = some ⟨decision, since⟩)
    (B := fun before happening =>
        ∃ handle user path, happening = .own (.ask (.checkAccess uid handle mask)) ∧
      (f.live before).Decides uid handle mask user path decision ∧ path.place = place ∧
        since = (f.live before).cache.now)
    h (fun hnil => by rw [show f.live [] = f from rfl, hf] at hnil; simp at hnil)
        fun before happening hfound => by
      have hproceeds := ((f.live before).happen_proceeds happening).2.2
      rw [live_concat] at hfound
      generalize ((f.live before).happen happening).cache.accessFor = t at hfound hproceeds
      cases hproceeds with
      | same => exact .inl hfound
      | @decided number handle mask' user path decision' hdecides =>
        rw [Table.get?_insert] at hfound
        split at hfound
        · next hkey =>
          obtain ⟨rfl, hmask, rfl⟩ : uid = user.uid ∧ mask.bits = mask'.bits ∧
            place = path.place := by simpa using hkey
          obtain rfl : mask = mask' := congrArg Mask.mk hmask
          obtain rfl : user.uid = number := (numbered_live hr before).uid_of_resolve hdecides.caller
          cases hfound
          exact .inr ⟨handle, user, path, rfl, hdecides, rfl, rfl⟩
        · exact .inl hfound
  exact ⟨before, user, path, ⟨handle, after, rfl, hdecides⟩, hplace, hsince⟩

theorem Decides.enters (hr : f.resolver.Numbered)
    (h : f.Decides uid handle mask user path decision) :
    (f.happen (.own (.ask (.checkAccess uid handle mask)))).cache.accessFor.get?
      (uid, mask.bits, path.place) =
      some ⟨decision, f.cache.now⟩ := by
  have hnumber : user.uid = uid := hr.uid_of_resolve h.caller
  have hproceeds := (f.happen_proceeds (.own (.ask (.checkAccess uid handle mask)))).2.2
  generalize (f.happen (.own (.ask (.checkAccess uid handle mask)))).cache.accessFor =
    t at hproceeds ⊢
  cases hproceeds with
  | same undecided => exact absurd h (undecided _ _ _ _ _ _ rfl)
  | decided h' =>
    obtain ⟨rfl, rfl, rfl⟩ := h.unique h'
    rw [hnumber, Table.get?_insert, if_pos rfl]
    rfl

theorem happen_accessFor {happening : Happening} {place : Place} {since : Nat}
    (h : f.cache.accessFor.get? (uid, mask.bits, place) = some ⟨decision, since⟩)
    (hrecent : f.cache.now < since + f.cache.lifetimes.access) :
    (f.happen happening).cache.accessFor.get? (uid, mask.bits, place) = some ⟨decision, since⟩ := by
  have hproceeds := (f.happen_proceeds happening).2.2
  generalize (f.happen happening).cache.accessFor = t at hproceeds ⊢
  cases hproceeds with
  | same => exact h
  | @decided number handle' mask' user' path' decision' hdecides =>
    rw [Table.get?_insert, if_neg]
    · exact h
    · intro hkey
      obtain ⟨hu, hm, hp⟩ : uid = user'.uid ∧ mask.bits = mask'.bits ∧ place = path'.place := by
        simpa using hkey
      have hknown : f.cache.access? user'.uid mask' path' = some decision := by
        rw [Cache.access?, ← hu, ← hm, ← hp]
        exact Cache.fresh_eq_some_iff.2 ⟨since, h, hrecent⟩
      cases hknown.symm.trans hdecides.unknown

theorem accessFor_of_checked (hr : f.resolver.Numbered) {after : List Happening}
    (h : (f.live before).Decides uid handle mask user path decision)
    (hrecent : (f.live (before ++ .own (.ask (.checkAccess uid handle mask)) :: after)).cache.now <
      (f.live before).cache.now + f.cache.lifetimes.access) :
    (f.live (before ++ .own (.ask (.checkAccess uid handle mask)) :: after)).cache.accessFor.get?
      (uid, mask.bits, path.place) =
      some ⟨decision, (f.live before).cache.now⟩ := by
  induction after using List.reverseRecOn with
  | nil => exact live_concat f before _ ▸ h.enters (numbered_live hr before)
  | append_singleton after happening ih =>
    rw [← List.cons_append, ← List.append_assoc, live_concat] at hrecent ⊢
    have hearlier := Nat.lt_of_le_of_lt ((f.live _).happen_proceeds happening).2.1 hrecent
    exact happen_accessFor (ih hearlier) (by rwa [live_lifetimes])

section Remembered
variable {user' : Principal} {path' : Path} {decision' : Decision} {before' : List Happening}

theorem Remembered.access? (h : f.Remembered happenings uid mask before user path decision)
    (hr : f.resolver.Numbered) (hp : path.place = path'.place) :
    (f.live happenings).cache.access? uid mask path' = some decision := by
  obtain ⟨⟨handle, after, rfl, hdecides⟩, hrecent⟩ := h
  rw [Cache.access?, ← hp, live_lifetimes]
  exact Cache.fresh_eq_some_iff.2 ⟨_, accessFor_of_checked hr hdecides hrecent, hrecent⟩

theorem remembered_of_access? (hf : f.cache.accessFor = .empty) (hr : f.resolver.Numbered)
    (h : (f.live happenings).cache.access? uid mask path' = some decision) :
    ∃ before user path, f.Remembered happenings uid mask before user path decision ∧
      path.place = path'.place := by
  obtain ⟨since, hfound, hrecent⟩ := Cache.fresh_eq_some_iff.1 h
  obtain ⟨before, user, path, hchecked, hplace, rfl⟩ := checked_of_accessFor hf hr hfound
  exact ⟨before, user, path, ⟨hchecked, live_lifetimes f happenings ▸ hrecent⟩, hplace⟩

theorem Decides.expired (hr : f.resolver.Numbered) {handle' : Handle} {between : List Happening}
    (h : (f.live before).Decides uid handle mask user path decision)
    (h' : (f.live (before ++ .own (.ask (.checkAccess uid handle mask)) :: between)).Decides
      uid handle' mask user' path' decision') (hp : path.place = path'.place) :
    (f.live before).cache.now + f.cache.lifetimes.access ≤
      (f.live (before ++ .own (.ask (.checkAccess uid handle mask)) :: between)).cache.now := by
  by_contra hrecent
  have hremembered : f.Remembered _ uid mask before user path decision :=
    ⟨⟨handle, between, rfl, h⟩, Nat.not_le.1 hrecent⟩
  have hunknown := h'.unknown
  rw [(numbered_live hr _).uid_of_resolve h'.caller, hremembered.access? hr hp] at hunknown
  cases hunknown

theorem Remembered.unique (hr : f.resolver.Numbered)
    (h : f.Remembered happenings uid mask before user path decision)
    (h' : f.Remembered happenings uid mask before' user' path' decision')
    (hp : path.place = path'.place) :
    user = user' ∧ decision = decision' := by
  have hnow : ∀ {before after : List Happening}, happenings = before ++ after →
      (f.live before).cache.now ≤ (f.live happenings).cache.now := by
    rintro before after rfl
    exact live_append f before after ▸ live_now _ after
  obtain ⟨⟨handle, after, heq, hdecides⟩, hrecent⟩ := h
  obtain ⟨⟨handle', after', heq', hdecides'⟩, hrecent'⟩ := h'
  rcases List.append_eq_append_iff.1
    (heq.symm.trans heq') with ⟨between, rfl, hrest⟩ | ⟨between, rfl, hrest⟩ <;>
    rcases List.cons_eq_append_iff.1 hrest with ⟨rfl, hcons⟩ | ⟨between, rfl, rfl⟩
  · cases hcons
    rw [List.append_nil] at hdecides'
    obtain ⟨rfl, -, rfl⟩ := hdecides.unique hdecides'
    exact ⟨rfl, rfl⟩
  · exact absurd (Nat.lt_of_le_of_lt (hnow heq') hrecent)
      (Nat.not_lt.2 (hdecides.expired hr hdecides' hp))
  · cases hcons
    rw [List.append_nil] at hdecides
    obtain ⟨rfl, -, rfl⟩ := hdecides.unique hdecides'
    exact ⟨rfl, rfl⟩
  · exact absurd (Nat.lt_of_le_of_lt (hnow heq) hrecent')
      (Nat.not_lt.2 (hdecides'.expired hr hdecides hp.symm))

theorem Checked.purged (h : f.Checked happenings uid mask before user path decision)
    (hu : (resolve uid (f.live happenings)).1 = .ok user') (hne : user.name ≠ user'.name) :
    ∃ upTo rest, happenings = upTo ++ .purge :: rest ∧ before.length < upTo.length ∧
      (f.live upTo).Purges := by
  obtain ⟨handle, after, rfl, hdecides⟩ := h
  by_contra hnever
  rw [List.append_cons, live_append, live_concat] at hu
  have hknown := known_live hdecides.known after fun meanwhile rest he hpurges => by
    refine hnever ⟨before ++ .own (.ask (.checkAccess uid handle mask)) :: meanwhile,
      rest, by rw [he]; simp, by simp, ?_⟩
    rwa [List.append_cons, live_append, live_concat]
  have hsame : (resolve uid _).1 = .ok user := congrArg Prod.fst (Resolver.resolve_of_known hknown)
  exact hne (congrArg Principal.name (Except.ok.inj (hsame.symm.trans hu)))

/-! ## For whom a decision was made -/

/-- The decision that a check answers was made for the account of that name, in this call or in an
earlier one. -/
def DecidedFor (f : Facade) (happenings : List Happening) (uid : UInt32) (handle : Handle)
    (mask : Mask) (decision : Decision) (name : String) : Prop :=
  ∃ user path, user.name = name ∧ ((f.live happenings).Decides uid handle mask user path decision ∨
    ∃ before path', f.Remembered happenings uid mask before user path' decision ∧
      (f.live happenings).registry.pathOf? handle = some path ∧ path'.place = path.place)

theorem Remembered.answered (hr : f.resolver.Numbered)
    (h : f.Remembered happenings uid mask before user path decision)
    (hp : (f.live happenings).registry.pathOf? handle = some path')
    (hplace : path.place = path'.place) {name : String}
    (hd : f.DecidedFor happenings uid handle mask decision' name) :
    user.name = name ∧ decision = decision' := by
  obtain ⟨caller, reached, rfl, hdecides | ⟨before', path₀, h', hreached, hplace'⟩⟩ := hd
  · obtain rfl := Option.some.inj (hp.symm.trans hdecides.mapped)
    have hunknown := hdecides.unknown
    rw [(numbered_live hr _).uid_of_resolve hdecides.caller, h.access? hr hplace] at hunknown
    cases hunknown
  · obtain rfl := Option.some.inj (hp.symm.trans hreached)
    obtain ⟨rfl, rfl⟩ := h.unique hr h' (hplace.trans hplace'.symm)
    exact ⟨rfl, rfl⟩

theorem DecidedFor.unique (hr : f.resolver.Numbered) {name name' : String}
    (h : f.DecidedFor happenings uid handle mask decision name)
    (h' : f.DecidedFor happenings uid handle mask decision' name') :
    name = name' := by
  obtain ⟨user, path, rfl, hdecides | ⟨before, path₀, hremembered, hp, hplace⟩⟩ := id h
  · obtain ⟨user', path', rfl, hdecides' | ⟨before', path₀, hremembered, hp, hplace⟩⟩ := h'
    · rw [(hdecides.unique hdecides').1]
    · exact (hremembered.answered hr hp hplace h).1.symm
  · exact (hremembered.answered hr hp hplace h').1

theorem decidedFor_of_checkAccess (hf : f.cache.accessFor = .empty) (hr : f.resolver.Numbered)
    (h : (checkAccess uid handle mask (f.live happenings)).1 = .ok decision) :
    ∃ user path, (resolve uid (f.live happenings)).1 = .ok user ∧
      (f.live happenings).registry.pathOf? handle = some path ∧
      ∃ name, f.DecidedFor happenings uid handle mask decision name := by
  have hchecks := (f.live happenings).checkAccess_checks uid handle mask
  rw [h] at hchecks
  generalize (checkAccess uid handle mask (f.live happenings)).2.decisions = after at hchecks
  cases hchecks with
  | @recalled user path _ caller mapped known =>
    rw [(numbered_live hr happenings).uid_of_resolve caller] at known
    obtain ⟨before, user₀, path₀, hremembered, hplace⟩ := remembered_of_access? hf hr known
    exact ⟨user, path, caller, mapped, user₀.name, user₀, path, rfl,
      .inr ⟨before, path₀, hremembered, mapped, hplace⟩⟩
  | @decided user path _ hdecides =>
    exact ⟨user, path, hdecides.caller, hdecides.mapped, user.name, user, path, rfl, .inl hdecides⟩

end Remembered

variable {link : Link} {ids : Identities} {resolver : Resolver} {allowList : AllowList}
    {options : Options}

/-- Whatever happens to a mounted facade, the decision that a check answers was made for one
account. That is the caller's, unless the decision is remembered from a check in which the number
stood for somebody else and is not too old yet. Such a decision is answered all the same, although
everybody has been forgotten since. -/
theorem decision_is_callers_unless_remembered (hr : resolver.Numbered)
    (hm : (mount link ids resolver allowList options).1 = .ok f)
    (h : (checkAccess uid handle mask (f.live happenings)).1 = .ok decision) :
    ∃ user path, (resolve uid (f.live happenings)).1 = .ok user ∧
      (f.live happenings).registry.pathOf? handle = some path ∧
      (∃! name, f.DecidedFor happenings uid handle mask decision name) ∧
      (f.DecidedFor happenings uid handle mask decision user.name ↔ ∀ before user' path' decision',
        f.Remembered happenings uid mask before user' path' decision' → path'.place = path.place →
          user'.name = user.name) ∧
      ∀ before user' path' decision',
        f.Remembered happenings uid mask before user' path' decision' →
        path'.place = path.place → decision' = decision ∧ (user'.name ≠ user.name → ∃ upTo rest,
          happenings = upTo ++ .purge :: rest ∧ before.length < upTo.length ∧
            (f.live upTo).Purges) := by
  have hempty : f.cache.accessFor = .empty := by rw [(mounted hm).cache]; rfl
  have hnumbered : f.resolver.Numbered := by
    obtain ⟨rootObjectId, l, registry, -, -, rfl⟩ := mount_eq_ok hm
    exact hr
  obtain ⟨user, path, hcaller, hmapped, name, hname⟩ := decidedFor_of_checkAccess hempty hnumbered h
  have hanswered : ∀ before user' path' decision',
      f.Remembered happenings uid mask before user' path' decision' →
      path'.place = path.place → user'.name = name ∧ decision' = decision :=
        fun _ _ _ _ hremembered hplace =>
    hremembered.answered hnumbered hmapped hplace hname
  refine ⟨user, path, hcaller, hmapped, ⟨name, hname, fun _ h' => h'.unique hnumbered hname⟩,
    ⟨fun hown => ?_, fun hall => ?_⟩,
    fun before user' path' decision' hremembered hplace =>
        ⟨(hanswered _ _ _ _ hremembered hplace).2, fun hne =>
      hremembered.checked.purged hcaller hne⟩⟩
  · intro before user' path' decision' hremembered hplace
    exact (hanswered _ _ _ _ hremembered hplace).1.trans (hname.unique hnumbered hown)
  · obtain ⟨user₀, path₀, rfl, hdecides | ⟨before, path', hremembered, hp, hplace⟩⟩ := id hname
    · obtain rfl := Except.ok.inj (hcaller.symm.trans hdecides.caller)
      exact hname
    · obtain rfl := Option.some.inj (hmapped.symm.trans hp)
      exact hall _ _ _ _ hremembered hplace ▸ hname

/-! A number goes from one account to another, whom the home that is mounted is closed to. -/

def neighbourMount : Except FacadeError Facade :=
  let people := Identities.empty.addUser "alice" 1000 1000
  (mount (.ofServer (.ofStore (sharedStore.addUser "bob" .regular))) people
    (.new people sampleAccount .asKept)
    (.new sampleAccount "k") ⟨Store.homeOf "z" "alice", "z", true, .default⟩).1

def handedOver : List Happening :=
  [.own (.ask (.checkAccess 1000 1 .readData)),
    .identities ((Identities.empty.addUser "alice" 1000 1000).addUser "bob" 1000 1000), .purge]

theorem neighbourMount_fresh (hm : neighbourMount = .ok f) :
    f.cache.accessFor = .empty ∧ f.resolver.Numbered := by
  obtain ⟨rootObjectId, link, registry, -, -, rfl⟩ := mount_eq_ok hm
  exact ⟨rfl, Resolver.numbered_new _ _ _⟩

theorem decided_anew_for_successor : ∃ f, neighbourMount = .ok f ∧
    (checkAccess 1000 1 .readData (f.live (handedOver ++ [.own (.pause 1000)]))).1 = .ok .deny ∧
    f.DecidedFor (handedOver ++ [.own (.pause 1000)]) 1000 1 .readData .deny "bob" := by
  have hchecks : neighbourMount.toOption.any (fun f =>
      let g := f.live (handedOver ++ [.own (.pause 1000)])
      decide ((resolve 1000 g).1.toOption.map Principal.name = some "bob" ∧
        g.registry.pathOf? 1 = some (Store.homeOf "z" "alice") ∧
        g.cache.access? 1000 .readData (Store.homeOf "z" "alice") = none ∧
        (checkAccess 1000 1 .readData g).1.toOption = some .deny)) = true := by decide +kernel
  obtain ⟨f, hm, hchecks⟩ := exists_of_any hchecks
  obtain ⟨hbob, hpath, hunknown, hdeny⟩ := of_decide_eq_true hchecks
  obtain ⟨-, hr⟩ := neighbourMount_fresh hm
  obtain ⟨user, path, huser, hp, -, hiff, -⟩ :=
    decision_is_callers_unless_remembered (Resolver.numbered_new _ _ _) hm (eq_ok_of_toOption hdeny)
  have hname : user.name = "bob" := by rw [huser] at hbob; exact Option.some.inj hbob
  obtain rfl := Option.some.inj (hpath.symm.trans hp)
  refine ⟨f, hm, eq_ok_of_toOption hdeny,
    hname ▸ hiff.2 fun before user' path' decision' hremembered hplace => ?_⟩
  cases hunknown.symm.trans (hremembered.access? hr hplace)

theorem decision_outlives_caller :
    ¬∀ (link : Link) (ids : Identities) (resolver : Resolver) (allowList : AllowList)
    (options : Options) (f : Facade), resolver.Numbered →
      (mount link ids resolver allowList options).1 = .ok f →
      ∀ (happenings : List Happening) (uid : UInt32) (handle : Handle) (mask : Mask)
        (decision : Decision),
        (checkAccess uid handle mask (f.live happenings)).1 = .ok decision →
          ∃ user, (resolve uid (f.live happenings)).1 = .ok user ∧
            f.DecidedFor happenings uid handle mask decision user.name := by
  intro hcallers
  have hchecks : neighbourMount.toOption.any (fun f =>
      let g := f.live handedOver
      decide ((resolve 1000 f).1.toOption.map Principal.name = some "alice" ∧
        g.registry.pathOf? 1 = some (Store.homeOf "z" "alice") ∧
        (resolve 1000 g).1.toOption.map Principal.name = some "bob" ∧
        g.cache.access? 1000 .readData (Store.homeOf "z" "alice") = some .allow ∧
        (checkAccess 1000 1 .readData g).1.toOption = some .allow)) = true := by decide +kernel
  obtain ⟨f, hm, hchecks⟩ := exists_of_any hchecks
  obtain ⟨halice, hpath, hbob, hknown, hallow⟩ := of_decide_eq_true hchecks
  obtain ⟨hempty, hr⟩ := neighbourMount_fresh hm
  obtain ⟨user, huser, hmade⟩ :=
    hcallers _ _ _ _ _ f (Resolver.numbered_new _ _ _) hm handedOver 1000 1 .readData .allow
      (eq_ok_of_toOption hallow)
  rw [huser] at hbob
  obtain ⟨before, first, path, hremembered, hplace⟩ := remembered_of_access? hempty hr hknown
  obtain ⟨⟨handle, after, heq, hdecides⟩, -⟩ := id hremembered
  -- there was one check only, before the number was handed over
  obtain rfl : before = [] := by
    rcases List.append_eq_cons_iff.1 heq.symm with ⟨rfl, -⟩ | ⟨later, -, hrest⟩
    · rfl
    · have hmem := congrArg (Happening.own (.ask (.checkAccess 1000 handle .readData)) ∈ ·) hrest
      simp at hmem
  rw [show (resolve 1000 f).1 = .ok first from hdecides.caller] at halice
  have hsame := (hremembered.answered hr hpath hplace hmade).1
  rw [show first.name = "alice" from Option.some.inj halice,
    show user.name = "bob" from Option.some.inj hbob] at hsame
  exact absurd hsame (by decide)

end Facade
end StoreMount
