import StoreMount.Proofs.Facade.Grants

/-!
# Caches do not show

Two facades show the same world when they differ at most in their links' records and in what their
caches hold, if that is true. Asked the same they answer the same and go on to show the same world,
so long as no access list is left half changed. A mount with one set of lifetimes and a mount with
another start out like this. Listings are left out; of attributes the times of a collection may
differ, and decisions on access may be outdated.
-/
namespace StoreMount

inductive Answer.Agrees : Answer → Answer → Prop
  | same (a : Answer) : Agrees a a
  | attributes {a b : Attributes} (h : a.Agrees b) : Agrees (.attributes a) (.attributes b)

/-- All but listings, decisions and changes of access lists have their answers settled. -/
def Operation.Plain : Operation → Prop
  | .list .. | .setAcl .. | .checkAccess .. => False
  | _ => True

/-- Outcomes of an operation that differ at most as the caches may have it. -/
def Operation.Agree : Operation → Except FacadeError Answer → Except FacadeError Answer → Prop
  | .checkAccess .. => fun _ _ => True
  | _ => SameOutcome Answer.Agrees

theorem Answer.Agrees.join {a b c : Answer} (h : a.Agrees c) (h' : b.Agrees c) : a.Agrees b := by
  cases h with
  | same _ => cases h' with
    | same _ => exact .same _
    | attributes h' => exact .attributes h'.symm
  | attributes h => cases h' with
    | same _ => exact .attributes h
    | attributes h' => exact .attributes (h.trans h'.symm)

theorem Operation.agree_of_same {operation : Operation} {x y : Except FacadeError Answer}
    (h : SameOutcome Answer.Agrees x y) : operation.Agree x y := by
  cases operation <;> first | exact h | exact trivial

namespace Facade

variable {α β : Type} {w w' : World} {f g : Facade}

/-! ## One operation -/

theorem Settled.answers {m : FacadeM α} {C : α → Answer} (hm : Settled (Shows w) m) :
    SettledUpTo Answer.Agrees (Shows w) (do return C (← m)) := by
  obtain ⟨r, w', hw', h⟩ := Settled.bind_settled (f := fun a => pure (C a)) hm fun a w hw =>
    .of_gives hw Gives.of_pure
  exact ⟨r, w', hw', h.yields .same⟩

theorem SettledUpTo.attributes {m : FacadeM Attributes}
    (hm : SettledUpTo Attributes.Agrees (Shows w) m) :
    SettledUpTo Answer.Agrees (Shows w) (do return .attributes (← m)) := by
  obtain ⟨r, w', hw', h⟩ := hm
  exact ⟨r.map .attributes, w', hw', h.map fun _ _ => .attributes⟩

theorem setattr_settled (hw : w.Sound) (uid : UInt32) (handle : Handle) :
    SettledUpTo Attributes.Agrees (Shows w) (setattr uid handle) := by
  have hpath := pathOf_gives (w := w) (K := (Cache.Truthful · w)) handle
  cases hp : w.registry.pathOf? handle with
  | none =>
    rw [hp] at hpath
    exact ⟨_, w, hw, hpath.bind_error.yields .refl⟩
  | some path =>
    rw [hp] at hpath
    obtain ⟨r, w', hw', h⟩ := getattr_settled hw uid handle
    exact ⟨r, w', hw', hpath.then_yields h⟩

theorem perform_plain_settled (hw : w.Sound) {operation : Operation} (hp : operation.Plain) :
    SettledUpTo Answer.Agrees (Shows w) (perform operation) := by
  cases operation with
  | lookup uid parent name => exact (lookup_settled hw uid parent name).answers
  | getattr uid handle => exact (getattr_settled hw uid handle).attributes
  | setattr uid handle => exact (setattr_settled hw uid handle).attributes
  | list uid directory cookie => exact hp.elim
  | directoryVerifier uid directory => exact (directoryVerifier_settled hw uid directory).answers
  | create uid parent name type => exact (create_settled hw uid parent name type).answers
  | mkdir uid parent name => exact (mkdir_settled hw uid parent name).answers
  | remove uid parent name => exact (remove_settled hw uid parent name).answers
  | rename uid parent name toParent toName =>
    exact (rename_settled hw uid parent name toParent toName).answers
  | read uid handle offset count => exact (read_settled hw uid handle offset count).answers
  | write uid handle offset bytes =>
    exact (write_settled hw uid handle offset bytes).answers (C := fun w => .written w.1 w.2)
  | getAcl uid handle => exact (getAcl_settled hw uid handle).answers
  | setAcl uid handle aces => exact hp.elim
  | checkAccess uid handle mask => exact hp.elim
  | parentOf handle => exact (parentOf_settled hw handle).answers
  | commit handle => exact (Settled.of_pathOf hw fun _ _ => .of_gives hw Gives.of_pure).answers
  | fsStat handle => exact (Settled.of_pathOf hw fun _ _ => .of_gives hw Gives.of_pure).answers
  | hardLink => exact (Settled.of_gives hw Gives.of_throw).answers
  | symlink => exact (Settled.of_gives hw Gives.of_throw).answers
  | readlink => exact (Settled.of_gives hw Gives.of_throw).answers

theorem agree_of_settled {operation : Operation} (hf : Shows w f) (hg : Shows w g)
    (h : SettledUpTo Answer.Agrees (Shows w) (perform operation)) :
    operation.Agree (perform operation f).1 (perform operation g).1 ∧
      ∃ w', w'.Sound ∧ Shows w' (perform operation f).2 ∧ Shows w' (perform operation g).2 := by
  obtain ⟨r, w', hw', h⟩ := h
  obtain ⟨hr, hf'⟩ := h f hf
  obtain ⟨hr', hg'⟩ := h g hg
  exact ⟨Operation.agree_of_same (hr.join hr' fun _ _ _ => .join), w', hw', hf', hg'⟩

theorem perform_agrees (hw : w.Sound) (hf : Shows w f) (hg : Shows w g) {operation : Operation}
    (hlist : ∀ uid directory cookie, operation ≠ .list uid directory cookie)
    (hacl : ∀ uid handle aces,
      operation = .setAcl uid handle aces → (perform operation f).1 = .ok .done) :
    operation.Agree (perform operation f).1 (perform operation g).1 ∧
      ∃ w', w'.Sound ∧ Shows w' (perform operation f).2 ∧ Shows w' (perform operation g).2 := by
  by_cases hp : operation.Plain
  · exact agree_of_settled hf hg (perform_plain_settled hw hp)
  cases operation with
  | list uid directory cookie => exact absurd rfl (hlist uid directory cookie)
  | checkAccess uid handle mask =>
    obtain ⟨w', hw', hleads⟩ := checkAccess_leads hw uid handle mask
    have hleads : Leads w w' (perform (.checkAccess uid handle mask)) :=
      hleads.bind fun _ => .of_pure
    exact ⟨trivial, w', hw', hleads f hf, hleads g hg⟩
  | setAcl uid handle aces =>
    obtain ⟨r, w', K, hr, h⟩ := setAcl_settled hw uid handle aces
    cases r with
    | error e =>
      -- the outcome is settled, and it was no failure
      have hfailed : Gives (Shows w) (perform (.setAcl uid handle aces)) (.error e) (Holds w' K) :=
        (h ()).bind_error
      cases (hfailed f hf).1.symm.trans (hacl uid handle aces rfl)
    | ok _ =>
      obtain ⟨hw', htruthful⟩ := hr () rfl
      have hdone : Gives (Shows w) (perform (.setAcl uid handle aces)) (.ok .done) (Shows w') := by
        refine Gives.bind_ok (I := Shows w') (fun f hf => ⟨(h () f hf).1, ?_⟩) Gives.of_pure
        obtain ⟨hworld, hlink, hcache⟩ := (h () f hf).2
        exact ⟨hworld, hlink, htruthful _ hcache⟩
      exact agree_of_settled hf hg ⟨.ok .done, w', hw', hdone.yields .same⟩
  | _ => exact absurd trivial hp

/-! ## Runs -/

theorem run_agrees (hw : w.Sound) (hf : Shows w f) (hg : Shows w g) (moves : List Move)
    (hlist : ∀ uid directory cookie, .ask (.list uid directory cookie) ∉ moves)
    (hacl : ∀ before uid handle aces after,
      moves = before ++ .ask (.setAcl uid handle aces) :: after →
      (perform (.setAcl uid handle aces) (f.run before)).1 = .ok .done) :
    ∃ w', w'.Sound ∧ Shows w' (f.run moves) ∧ Shows w' (g.run moves) := by
  -- what both facades show changes from move to move, but together
  induction moves generalizing w f g with
  | nil => exact ⟨w, hw, hf, hg⟩
  | cons move moves ih =>
    have hstep : ∃ w', w'.Sound ∧ Shows w' (f.step move).2 ∧ Shows w' (g.step move).2 := by
      cases move with
      | pause milliseconds =>
        exact ⟨w, hw, ⟨hf.world, hf.link, hf.cache.sleep _⟩, ⟨hg.world, hg.link, hg.cache.sleep _⟩⟩
      | ask operation =>
        refine (perform_agrees hw hf hg (fun uid directory cookie he => ?_)
          fun uid handle aces he => ?_).2
        · exact hlist uid directory cookie (he ▸ List.mem_cons_self)
        · obtain rfl := he
          exact hacl [] uid handle aces moves rfl
    obtain ⟨w', hw', hf', hg'⟩ := hstep
    refine ih hw' hf' hg'
      (fun uid directory cookie hm => hlist _ _ _ (List.mem_cons_of_mem _ hm)) ?_
    intro before uid handle aces after he
    exact hacl (move :: before) uid handle aces after (congrArg (move :: ·) he)

/-! ## Mounting -/

theorem look_gives (admin : Account) (mountPoint : Path) (s : Store) :
    ∃ r, Gives (Link.Serves · s) (look admin mountPoint) r (Link.Serves · s) := by
  unfold look
  cases hadmits : s.admits admin with
  | error e => exact ⟨_, Link.during_gives_error hadmits⟩
  | ok _ =>
    have hstat : ∀ session, Gives (Link.Serves · s)
        (Link.failingAs .ofStore (Link.stat session mountPoint))
        ((s.stat mountPoint).mapError FacadeError.ofStore) (Link.Serves · s) := fun session =>
      Link.Gives.failingAs (Link.stat_gives mountPoint)
    cases hs : s.stat mountPoint with
    | error e =>
      exact ⟨_, Link.during_gives hadmits fun session _ => (hs ▸ hstat session).bind_error⟩
    | ok status =>
      cases hk : status.kind.isCollection with
      | true => exact ⟨.ok status.objectId, Link.during_gives hadmits fun session _ =>
            (hs ▸ hstat session).bind_ok (by
          simp only [hk]
          exact Gives.of_pure)⟩
      | false =>
        exact ⟨.error (.notADirectory mountPoint.text), Link.during_gives hadmits fun session _ =>
          (hs ▸ hstat session).bind_ok (by simp only [hk]; exact Gives.of_throw_bind)⟩

variable {link : Link} {ids : Identities} {resolver : Resolver} {allowList : AllowList}
    {options : Options} {s : Store}

theorem mount_lifetimes (hm : (mount link ids resolver allowList options).1 = .ok f)
    (lifetimes : Lifetimes) :
    (mount link ids resolver allowList { options with lifetimes }).1 =
      .ok { f with options := { options with lifetimes }, cache := Cache.new lifetimes } := by
  obtain ⟨rootObjectId, l, registry, hlook, hroot, rfl⟩ := mount_eq_ok hm
  simp only [mount, hlook, hroot]

theorem serves_of_mount (hl : link.Serves s)
    (hm : (mount link ids resolver allowList options).1 = .ok f) :
    f.link.Serves s := by
  obtain ⟨rootObjectId, l, registry, hlook, -, rfl⟩ := mount_eq_ok hm
  obtain ⟨r, hgives⟩ := look_gives resolver.admin options.mountPoint s
  have := (hgives link hl).2
  rwa [hlook] at this

theorem shows_of_mount (hl : link.Serves s) (hs : s.Rooted) (hids : ids.Made)
    (hgrown : resolver.Grown ids) (hm : (mount link ids resolver allowList options).1 = .ok f) :
    f.world.Sound ∧ Shows f.world f := by
  have hserves := serves_of_mount hl hm
  obtain ⟨rootObjectId, l, registry, -, hroot, rfl⟩ := mount_eq_ok hm
  obtain ⟨hinverse, -, -⟩ := Registry.establishRoot_empty hroot
  have hrooted : l.store.Rooted := hserves.store.symm ▸ hs
  refine ⟨⟨hrooted, hinverse, hids, hgrown.faithful⟩, rfl, ?_, Cache.truthful_new _ _⟩
  exact ⟨rfl, hserves.faults, hserves.kinds, hserves.hidden⟩

/-- From a mount over a link that nobody interferes with, on a store in which every parent is a
collection, and with one set of lifetimes: a mount with any other lifetimes succeeds as well, and
whatever is then asked of both in the same order, other than listings, is answered alike and leaves
the same store and the same registry, so long as no change of an access list fails. -/
theorem caches_transparent (hl : link.Serves s) (hs : s.Rooted) (hids : ids.Made)
    (hgrown : resolver.Grown ids) (hm : (mount link ids resolver allowList options).1 = .ok f)
    (lifetimes : Lifetimes) (moves : List Move) (hlist : ∀ uid directory cookie,
      .ask (.list uid directory cookie) ∉ moves) (hacl : ∀ before uid handle aces after,
      moves = before ++ .ask (.setAcl uid handle aces) :: after →
      (perform (.setAcl uid handle aces) (f.run before)).1 = .ok .done) :
    ∃ g, (mount link ids resolver allowList { options with lifetimes }).1 = .ok g ∧
      (∀ before operation after, moves = before ++ .ask operation :: after →
        operation.Agree (perform operation (f.run before)).1 (perform operation (g.run before)).1) ∧
      (f.run moves).link.server.store = (g.run moves).link.server.store ∧
      (f.run moves).registry = (g.run moves).registry := by
  obtain ⟨hw, hf⟩ := shows_of_mount hl hs hids hgrown hm
  have hm' := mount_lifetimes hm lifetimes
  have hg : Shows f.world { f with
      options := { options with lifetimes }, cache := Cache.new lifetimes } := by
    obtain ⟨rootObjectId, l, registry, -, -, rfl⟩ := mount_eq_ok hm
    exact ⟨rfl, hf.link, Cache.truthful_new _ _⟩
  refine ⟨_, hm', fun before operation after he => ?_, ?_⟩
  · obtain ⟨w', hw', hf', hg'⟩ := run_agrees hw hf hg before
      (fun _ _ _ hmem => hlist _ _ _ (he ▸ List.mem_append_left _ hmem))
        fun before' uid handle aces after' he' =>
      hacl before' uid handle aces (after' ++ .ask operation :: after) (by rw [he, he']; simp)
    refine (perform_agrees hw' hf' hg' (fun uid directory cookie ho => ?_)
      fun uid handle aces ho => ?_).1
    · exact hlist uid directory cookie (by rw [he, ho]; simp)
    · obtain rfl := ho
      exact hacl before uid handle aces after he
  · obtain ⟨w', -, hf', hg'⟩ := run_agrees hw hf hg moves hlist hacl
    exact ⟨congrArg World.store (hf'.world.trans hg'.world.symm),
      congrArg World.registry (hf'.world.trans hg'.world.symm)⟩

def isDone : Except FacadeError Answer → Bool
  | .ok .done => true
  | _ => false

theorem eq_of_isDone {answer : Except FacadeError Answer} (h : isDone answer = true) :
    answer = .ok .done := by
  rcases answer with e | a
  · cases h
  · cases a <;> first | rfl | cases h

def sampleMoves : List Move :=
  [.ask (.create 0 1 "a" .regular), .ask (.getattr 0 2),
    .ask (.setAcl 0 2 [⟨"0", .allow, .none, .ofLevel .own⟩])]

theorem attributes_agree_after_setAcl :
    ∃ f g, sampleMount .default = .ok f ∧ sampleMount ⟨0, 0, 0, 0, 0, 0⟩ = .ok g ∧
    (Operation.getattr 0 2).Agree (perform (.getattr 0 2) (f.run sampleMoves)).1
      (perform (.getattr 0 2) (g.run sampleMoves)).1 := by
  have hdone : (sampleMount .default).toOption.any (fun f =>
      isDone (perform (.setAcl 0 2 [⟨"0", .allow, .none, .ofLevel .own⟩])
        (f.run (sampleMoves.take 2))).1) = true := by
    decide +kernel
  have hrooted : (Store.new "z" "rods").Rooted := by decide +kernel
  cases hm : sampleMount .default with
  | error e =>
    rw [hm] at hdone
    cases hdone
  | ok f =>
    simp only [hm, Except.toOption, Option.any_some] at hdone
    have hacl : ∀ before uid handle aces after,
        sampleMoves ++ [.ask (.getattr 0 2)] = before ++ .ask (.setAcl uid handle aces) :: after →
          (perform (.setAcl uid handle aces) (f.run before)).1 = .ok .done := by
      intro before uid handle aces after he
      rcases before with _ | ⟨m₁, _ | ⟨m₂, _ | ⟨m₃, _ | ⟨m₄, rest⟩⟩⟩⟩ <;> simp [sampleMoves] at he
      obtain ⟨rfl, rfl, ⟨rfl, rfl, rfl⟩, -⟩ := he
      exact eq_of_isDone hdone
    have hlink : sampleLink.Serves (.new "z" "rods") := ⟨rfl, rfl, rfl, rfl⟩
    obtain ⟨g, hg, hagree, -⟩ :=
      caches_transparent hlink hrooted .empty (.new _ _) hm ⟨0, 0, 0, 0, 0, 0⟩ _
      (by simp [sampleMoves]) hacl
    exact ⟨f, g, rfl, hg, hagree sampleMoves _ [] rfl⟩

end Facade
end StoreMount
