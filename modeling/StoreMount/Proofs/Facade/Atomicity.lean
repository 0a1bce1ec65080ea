import StoreMount.Proofs.Facade.Upholding

/-!
# All or nothing

Creating, removing, moving and writing go one way: find out who calls and which paths are meant,
then make one call in a session, then bring caches and registry in line. All that comes before the
call leaves store and registry alone, and the call itself, if it fails, be it by a fault, does so
too. What comes after it cannot fail: forgetting and handing out a handle never do, and the
registry, whose two tables are inverse, follows every removal and every move that the store has
agreed to. So an operation that returns an error has changed neither. And the registry is the reason
for an error only if it was asked first.
-/
namespace StoreMount

def Operation.alters : Operation → Bool
  | .create .. | .mkdir .. | .remove .. | .rename .. | .write .. => true
  | _ => false

namespace Facade

/-- The states of a facade from its mount on. Between its moves everything around it may be other
than it was left: the store and the faults that are planned for it, the identity source, who is
known, the allow-list. -/
inductive Reachable : Facade → Prop
  | mounted {link : Link} {ids : Identities} {resolver : Resolver} {allowList : AllowList}
      {options : Options} {f : Facade}
      (h : (mount link ids resolver allowList options).1 = .ok f) : Reachable f
  | moved {f : Facade} (move : Move) (h : Reachable f) : Reachable (f.step move).2
  | beset {f : Facade} (link : Link) (identities : Identities) (resolver : Resolver)
      (allowList : AllowList)
      (h : Reachable f) : Reachable { f with link, identities, resolver, allowList }

theorem invariant_inverse : Scene.Invariant (fun _ => True) (fun _ => True) (·.registry.Inverse) :=
    .of_step fun h hr => by
  cases h with
  | asked | changed | kept => exact hr
  | entered => exact hr.handleFor _
  | gaveUp _ _ unmapped => exact hr.unmap unmapped
  | moved _ _ done => exact hr.moveTree_eq_ok done

theorem Reachable.inverse {f : Facade} (h : f.Reachable) : f.registry.Inverse := by
  induction h with
  | mounted h => exact (Facade.mounted h).inverse
  | moved move _ ih => exact upheld_step invariant_inverse ih move
  | beset _ _ _ _ _ ih => exact ih

variable {α β : Type} {g : Ground} {l : Link}

/-! ## Before the call -/

/-- Store, registry and listings are these, and since the link was that one nothing has been asked
about any path. -/
def Untold (g : Ground) (l : Link) (f : Facade) : Prop :=
  f.ground = g ∧ Link.Asked (fun _ => False) l f.link

def Looks (m : FacadeM α) : Prop :=
  ∀ g l, Triple (Untold g l) m (fun _ f => Untold g l f) (fun _ f => Untold g l f)

theorem Looks.of_same {m : FacadeM α} (h : Keeps id m) : Looks m := fun g l f hf => by
  have hsame := h f
  rcases hm : (m f : Except FacadeError α × Facade) with ⟨e | a, f'⟩ <;> rw [hm] at hsame <;>
    obtain rfl : f' = f := hsame <;> exact hf

theorem looks_resolve (uid : UInt32) : Looks (resolve uid) := fun g l f ⟨hg, hl⟩ => by
  have hground : ground (resolve uid f).2 = ground f := keeps_resolve uid f
  have hasked : Link.Asked (fun _ => False) f.link (resolve uid f).2.link :=
    Link.asked_resolve f.resolver f.identities uid f.link
  rcases hm : (resolve uid f : Except FacadeError Principal × Facade) with ⟨e | a, f'⟩
    <;> rw [hm] at hground hasked <;>
    exact ⟨hground.trans hg, hl.trans hasked⟩

theorem looks_checkMove (source target : Path) :
    Looks (changeRegistry fun r => (r.checkMove source target).map fun _ => r) :=
    .of_same fun f => by
  simp only [changeRegistry]
  cases f.registry.checkMove source target <;> rfl

/-! ## The call and what follows -/

def Outside (e : FacadeError) : Prop := ∀ r, e ≠ .invariant r

/-- An error leaves store and registry as they were, and if it comes from the registry no path has
been asked about. -/
def AllOrNothing (m : FacadeM α) : Prop := ∀ g l, g.registry.Inverse →
  Triple (Untold g l) m (fun _ _ => True) (fun e f => f.ground = g ∧ (Outside e ∨ Untold g l f))

theorem Looks.then {m : FacadeM α} {f : α → FacadeM β} (hm : Looks m)
    (hf : ∀ a, AllOrNothing (f a)) :
    AllOrNothing (m >>= f) := fun g l hg =>
  Triple.bind ((hm g l).weaken (fun _ h => h) (fun _ _ h => h) fun _ _ h => ⟨h.1, .inr h⟩) fun a =>
    hf a g l hg

theorem AllOrNothing.of_looks {m : FacadeM α} (h : Looks m) : AllOrNothing m := fun g l _ =>
  (h g l).weaken (fun _ h => h) (fun _ _ _ => trivial) fun _ _ h => ⟨h.1, .inr h⟩

theorem AllOrNothing.map {m : FacadeM α} (h : AllOrNothing m) (answer : α → β) :
    AllOrNothing (do return answer (← m)) :=
  fun g l hg => Triple.bind (h g l hg) fun _ => Triple.of_pure fun _ _ => trivial

theorem outside_ofStore (e : StoreError) : Outside (.ofStore e) := by
  intro r
  cases e <;> simp [FacadeError.ofStore]

theorem call_outside (action : LinkM StoreError α) :
    Triple (fun _ => True) (call action) (fun _ _ => True) (fun e _ => Outside e) := by
  intro f _
  simp only [call]
  rcases action f.link with ⟨e | a, l⟩
  · exact outside_ofStore e
  · trivial

theorem during_outside (account : Account) (action : Session → LinkM StoreError α) :
    Triple (fun _ => True) (during account fun session => call (action session)) (fun _ _ => True)
      (fun e _ => Outside e) := by
  refine Triple.bind (call_outside _) fun session f _ => ?_
  have hcall := call_outside (action session) f trivial
  dsimp only
  rcases h : (call (action session) f : Except FacadeError α × Facade) with ⟨e | a, f'⟩
    <;> rw [h] at hcall <;> exact hcall

theorem AllOrNothing.of_session {account : Account} {action : Session → LinkM StoreError α}
    {rest : α → FacadeM β} {Q : Ground → α → Ground → Prop} (hsession : ∀ g, Triple (ground · = g)
      (during account fun session => call (action session)) (fun a f => Q g a f.ground)
      (fun _ f => f.ground = g))
    (hrest : ∀ g a g', g.registry.Inverse → Q g a g' →
      Triple (ground · = g') (rest a) (fun _ _ => True) (fun _ _ => False)) :
    AllOrNothing (during account (fun session => call (action session)) >>= rest) := by
  intro g l hg
  refine Triple.bind (Q := fun a f => Q g a f.ground) ?_ fun a => ?_
  · exact ((hsession g).and (during_outside account action)).weaken (fun _ h => ⟨h.1, trivial⟩)
      (fun _ _ h => h.1)
      fun _ _ h => ⟨h.1, .inl h.2⟩
  · exact Triple.of_view fun g' hg' =>
      (hrest g a g' hg hg').weaken (fun _ h => h) (fun _ _ h => h) fun _ _ h => h.elim

theorem AllOrNothing.of_told {account : Account} {c : Call}
    {action : Session → Store → Except StoreError Store} {rest : FacadeM β}
    (hrest : ∀ (g : Ground) session s', g.registry.Inverse → action session g.store = .ok s' →
      Triple (ground · = { g with store := s' }) rest (fun _ _ => True) (fun _ _ => False)) :
    AllOrNothing (do
      during account fun session => call (Link.tell session c (action session))
      rest) := by
  refine .of_session (Q := fun g _ g' =>
      ∃ session s', action session g.store = .ok s' ∧ g' = { g with store := s' }) told_triple ?_
  rintro g - - hg ⟨session, s', hs', rfl⟩
  exact hrest g session s' hg hs'

/-! ## The operations -/

theorem handleFor_never_fails (path : Path) (g : Ground) :
    Triple (ground · = g) (handleFor path) (fun _ _ => True) (fun _ _ => False) :=
  (handleFor_triple path g).weaken (fun _ h => h) (fun _ _ _ => trivial) fun _ _ h => h

theorem create_all_or_nothing (uid : UInt32) (parent : Handle) (name : String) (type : FileType) :
    AllOrNothing (create uid parent name type) := by
  unfold create
  split
  · exact .of_looks (.of_same Keeps.of_throw_bind)
  · refine (looks_resolve uid).then fun user =>
      (Looks.of_same (keeps_childPath parent name)).then fun path => ?_
    refine (Looks.of_same Keeps.of_get).then fun f => .of_told fun g session s' _ _ => ?_
    exact then_changeCache (by intro; rfl)
      (then_changeCache (by intro; rfl) (handleFor_never_fails path _))

theorem mkdir_all_or_nothing (uid : UInt32) (parent : Handle) (name : String) :
    AllOrNothing (mkdir uid parent name) := by
  refine (looks_resolve uid).then fun user =>
    (Looks.of_same (keeps_childPath parent name)).then fun path => ?_
  refine .of_told fun g session s' _ _ => ?_
  exact then_changeCache (by intro; rfl)
    (then_changeCache (by intro; rfl) (handleFor_never_fails path _))

theorem remove_all_or_nothing (uid : UInt32) (parent : Handle) (name : String) :
    AllOrNothing (remove uid parent name) := by
  refine (looks_resolve uid).then fun user =>
    (Looks.of_same (keeps_childPath parent name)).then fun path => ?_
  refine .of_told fun g session s' hg _ => then_changeCache (by intro; rfl) ?_
  obtain ⟨r', hr', -⟩ := hg.giveUp path
  exact (changeRegistry_triple (g := { g with store := s' }) hr').weaken (fun _ h => h)
    (fun _ _ _ => trivial) fun _ _ h => h

theorem rename_all_or_nothing (uid : UInt32) (parent : Handle) (name : String) (toParent : Handle)
    (toName : String) :
    AllOrNothing (rename uid parent name toParent toName) := by
  refine (looks_resolve uid).then fun user =>
    (Looks.of_same (keeps_childPath parent name)).then fun source => ?_
  refine (Looks.of_same (keeps_childPath toParent toName)).then fun target => ?_
  split
  · exact .of_looks (.of_same Keeps.of_pure)
  · refine (looks_checkMove source target).then fun _ => .of_told fun g session s' hg hs' => ?_
    -- the store moves nothing into itself, so the registry has no reason to refuse
    have ht : target.strictlyWithin source = false := Bool.eq_false_iff.2 fun h =>
      (Store.movable_of_rename hs').outside (Path.strictlyWithin_iff.1 h).1
    refine then_changeCache (by intro; rfl) (then_changeCache (by intro; rfl) ?_)
    refine (changeRegistry_triple (g := { g with store := s' })
      (r := g.registry.relocated source target) ?_).weaken
      (fun _ h => h) (fun _ _ _ => trivial) fun _ _ h => h
    rw [Registry.moveTree_eq ht]
    rfl

theorem write_all_or_nothing (uid : UInt32) (handle : Handle) (offset : Nat) (bytes : List UInt8) :
    AllOrNothing (write uid handle offset bytes) := by
  refine (looks_resolve uid).then fun user =>
    (Looks.of_same (keeps_pathOf handle)).then fun path => ?_
  refine .of_session (Q := fun _ _ _ => True) (fun g => ?_) fun g written g' _ _ => ?_
  · refine during_triple user.account (Q := fun _ _ => True) (E := (· = g)) (fun session => ?_) rfl
    exact (call_triple (Q := fun _ _ => True)
      ((Link.perform_triple session _ _ g.store).weaken (fun _ h => h)
      (fun _ _ _ => trivial) fun _ _ h =>
        h)).weaken (fun _ h => h) (fun _ _ _ => trivial) fun _ _ h => h
  · exact then_changeCache (by intro; rfl) (Triple.of_pure fun _ _ => trivial)

theorem perform_all_or_nothing {operation : Operation} (h : operation.alters = true) :
    AllOrNothing (perform operation) := by
  cases operation with
  | create uid parent name type => exact (create_all_or_nothing uid parent name type).map _
  | mkdir uid parent name => exact (mkdir_all_or_nothing uid parent name).map _
  | remove uid parent name => exact (remove_all_or_nothing uid parent name).map _
  | rename uid parent name toParent toName =>
    exact (rename_all_or_nothing uid parent name toParent toName).map _
  | write uid handle offset bytes => exact (write_all_or_nothing uid handle offset bytes).map _
  | _ => cases h

/-- An operation that alters the tree and returns an error has left store and registry as they were;
if the error is the registry's, nothing had been asked of the store about any path by then. -/
theorem errors_leave_no_trace {f : Facade} (hf : f.Reachable) {operation : Operation}
    (ha : operation.alters = true) {e : FacadeError} (he : (perform operation f).1 = .error e) :
    let f' := (perform operation f).2
    f'.link.server.store = f.link.server.store ∧ f'.registry = f.registry ∧
      ∀ r, e = .invariant r → ∃ made, f'.link.calls = f.link.calls ++ made ∧ ∀ c ∈ made,
        c.paths = [] := by
  intro f'
  have hnothing := perform_all_or_nothing ha f.ground f.link hf.inverse f ⟨rfl, .refl f.link⟩
  rcases hp : (perform operation f : Except FacadeError Answer × Facade) with ⟨e' | a, t⟩
    <;> rw [hp] at hnothing he
  · obtain rfl : e' = e := Except.error.inj he
    obtain rfl : f' = t := congrArg Prod.snd hp
    obtain ⟨hground, hreason⟩ := hnothing
    refine ⟨congrArg Ground.store hground, congrArg Ground.registry hground, fun r hr => ?_⟩
    obtain houtside | ⟨-, hasked⟩ := hreason
    · exact absurd hr (houtside r)
    · obtain ⟨made, hmade, hnone⟩ := hasked.calls
      exact ⟨made, hmade, fun c hc => List.eq_nil_iff_forall_not_mem.2 (hnone c hc)⟩
  · cases he

def unmovable (f : Facade) : Facade :=
  { f with link := { f.link with faults := [⟨"rename", none, none, .connection "down"⟩] } }

theorem failed_rename_leaves_no_trace :
    ∃ f e, f.Reachable ∧ (perform (.rename 0 1 "a" 1 "b") f).1 = .error e ∧
      (perform (.rename 0 1 "a" 1 "b") f).2.link.server.store = f.link.server.store ∧
      (perform (.rename 0 1 "a" 1 "b") f).2.registry = f.registry := by
  have hfails : (sampleMount .default).toOption.any (fun f =>
      (perform (.rename 0 1 "a" 1 "b")
        (unmovable (f.step (.ask (.create 0 1 "a" .regular))).2)).1.toOption.isNone) = true := by
    decide +kernel
  obtain ⟨f, hm, hfails⟩ := exists_of_any hfails
  have hreachable : (f.step (.ask (.create 0 1 "a" .regular))).2.Reachable := .moved _ (.mounted hm)
  have hreachable : (unmovable (f.step (.ask (.create 0 1 "a" .regular))).2).Reachable :=
    .beset _ _ _ _ hreachable
  cases he : (perform (.rename 0 1 "a" 1 "b")
    (unmovable (f.step (.ask (.create 0 1 "a" .regular))).2)).1 with
  | error e =>
    obtain ⟨hstore, hregistry, -⟩ := errors_leave_no_trace hreachable rfl he
    exact ⟨_, e, hreachable, he, hstore, hregistry⟩
  | ok a => simp [he, Except.toOption] at hfails

end Facade
end StoreMount
