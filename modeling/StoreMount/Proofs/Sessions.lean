import StoreMount.Proofs.Facade.Conduct
import StoreMount.Proofs.Link.Sittings
import StoreMount.Proofs.Resolver.Settling

/-!
# What operations do with sessions

Whatever a facade, a resolver or an allow-list is asked, and whichever calls fail on the way, it
closes the sessions that it opens and no others. Callers that take turns have several open at once.
-/
namespace StoreMount

open Link (Connected Tidies Tidy)

/-! ## Operations of a facade -/

namespace Facade

variable {For : Account → Prop} {Change : (Cache → Cache) → Prop} {Does : Store → Store → Prop}
    {session : Option Session}
  {α : Type}

theorem connect_connected (account : Account) {f : Facade} (hf : Link.Given session f.link) :
    Triple (· = f) (call (Link.connect account)) (fun s f' => Connected session f.link s f'.link)
      fun _ f' => Tidy session f.link f'.link := by
  rintro f rfl
  have := Link.connect_connected account hf f.link rfl
  simp only [call]
  rcases hc : (Link.connect account f.link : Except StoreError Session × Link) with ⟨e | s, l⟩
    <;> rw [hc] at this <;> exact this

theorem Acts.tidies {m : FacadeM α} (h : Acts For Change Does session m) :
    Tidies Facade.link session m := by
  induction h with
  | looks h => exact .of_keeps fun f => congrArg Facade.link (h f)
  | registers h =>
    refine .of_keeps fun f => ?_
    obtain ⟨registry, hr⟩ := h f
    rw [hr]
  | remembers => exact .of_keeps fun _ => rfl
  | calls h => exact fun f hf => h.tidies f.link hf
  | visits _ _ ih =>
    exact .visit (fun s f => { f with link := f.link.close s })
      (fun _ hf => connect_connected _ hf) ih fun _ _ => rfl
  | bind _ _ ih ih' => exact ih.bind ih'
  | catches _ _ ih ih' => exact ih.of_catch ih'

end Facade

/-! ## Resolvers -/

namespace Resolver

variable (r : Resolver) (ids : Identities)

theorem confirm_tidies (admin : Account) (uid : UInt32) (person : Person) (s : Session) :
    Tidies id (some s) (confirm admin uid person s) := by
  have hfind : Tidies id (some s) (Link.failingAs (loadError uid) (Link.findUser s person.name)) :=
    Link.Within.tidies (D := fun _ _ => False) (.findUser s person.name)
  refine hfind.bind fun found => ?_
  cases found with
  | none => exact .of_keeps Keeps.of_throw
  | some _ => exact .of_keeps Keeps.of_pure

theorem load_tidies (admin : Account) (uid : UInt32) : Tidies id none (load admin ids uid) :=
  Tidies.bind (.of_keeps Keeps.of_lift) fun person =>
    Link.during_tidies (confirm_tidies admin uid person)

theorem resolve_tidy (uid : UInt32) (l : Link) : Tidy none l (r.resolve ids uid l).2.2 := by
  have hload := load_tidies ids r.admin uid l (Link.given_none l)
  unfold resolve
  cases r.known.get? uid with
  | some p => exact .refl none l
  | none =>
    rcases hl : (load r.admin ids uid l : Except FacadeError Principal × Link) with ⟨e | p, l'⟩
      <;> rw [hl] at hload <;>
      exact hload

theorem resolveInTurn_tidy (uids : List UInt32) (l : Link) :
    Tidy none l (resolveInTurn ids uids r l).2.2 := by
  induction uids generalizing r l with
  | nil => exact .refl none l
  | cons uid uids ih => exact (r.resolve_tidy ids uid l).trans (Link.given_none l) (ih _ _)

namespace Batch

variable {ids} {b : Batch} (caller : Nat) (uid : UInt32) (slot : Nat)

@[simp] theorem link_fail (e : FacadeError) : (b.fail caller uid slot e).link = b.link := by
  rw [fail_eq, unlist]
  obtain ⟨-, hw⟩ | ⟨p, next, queue, -, -, hw⟩ :=
    wake_cases (b.setStage caller (.done (.error e))) slot <;>
    rw [hw] <;> split <;> rfl

@[simp] theorem link_succeed (p : Principal) : (b.succeed caller uid slot p).link = b.link := by
  unfold succeed
  dsimp only
  split <;> rfl

theorem beginLoad_tidy : Tidy none b.link (b.beginLoad ids caller uid slot).link := by
  unfold beginLoad
  cases identify ids uid with
  | error e => exact link_fail caller uid slot e ▸ .refl none b.link
  | ok person =>
    have hasked := Link.announce_tidy (b.resolver.admin.actingAs person.name) b.link
    dsimp only
    rcases ha : (Link.announce (b.resolver.admin.actingAs person.name)
      b.link : Except StoreError Unit × Link) with ⟨e | a, l⟩ <;>
      rw [ha] at hasked
    · rw [link_fail]
      exact hasked
    · exact hasked

theorem finishLoad_tidy (person : Person) :
    Tidy none b.link (b.finishLoad caller uid slot person).link := by
  have hentered := Link.enter_entered (b.resolver.admin.actingAs person.name) b.link b.link rfl
  unfold finishLoad
  rcases he : (Link.enter (b.resolver.admin.actingAs person.name)
    b.link : Except StoreError Session × Link) with ⟨e | s, l⟩ <;>
    rw [he] at hentered
  · dsimp only at hentered ⊢
    rw [link_fail, hentered]
    exact .refl none b.link
  · have hclosed : Tidy none b.link ((confirm b.resolver.admin uid person s l).2.close s) :=
      hentered.closed (confirm_tidies b.resolver.admin uid person s l hentered.given)
    dsimp only
    rcases hc : (confirm b.resolver.admin uid person s l : Except FacadeError Principal ×
      Link) with ⟨e | p, l'⟩ <;>
      rw [hc] at hclosed
    · rw [link_fail]
      exact hclosed
    · rw [link_succeed]
      exact hclosed

theorem turn_tidy : Tidy none b.link (b.turn ids caller).link := by
  unfold turn
  rcases b.callers[caller]? with _ | ⟨uid, stage⟩
  · exact .refl none b.link
  · cases stage with
    | done => exact .refl none b.link
    | queued slot =>
      dsimp only
      split <;> exact .refl none b.link
    | granted slot => exact beginLoad_tidy caller uid slot
    | connecting slot person => exact finishLoad_tidy caller uid slot person
    | starting =>
      dsimp only
      split
      · exact .refl none b.link
      · split
        · exact .refl none b.link
        · exact beginLoad_tidy (b := ⟨b.resolver, b.link, b.slots.insert b.slots.size ⟨none, []⟩,
            b.current.insert uid b.slots.size,
            b.callers⟩) caller uid b.slots.size

theorem takeTurns_tidy (turns : List Nat) : Tidy none b.link (b.takeTurns ids turns).link := by
  induction turns generalizing b with
  | nil => exact .refl none b.link
  | cons caller turns ih => exact (turn_tidy caller).trans (Link.given_none _) ih

end Batch

theorem resolveTogether_tidy (uids : List UInt32) (l : Link) :
    Tidy none l (r.resolveTogether ids uids l).2.2 := by
  have hturns : Tidy none l
      ((Batch.start r l uids).takeTurns ids ((Batch.start r l uids).settleTurns ids)).link :=
    Batch.takeTurns_tidy (b := Batch.start r l uids) _
  rwa [Batch.takeTurns_settleTurns] at hturns

end Resolver

namespace Facade

theorem OnBehalf.tidies {For : Principal → Account → Prop} {Change : (Cache → Cache) → Prop}
    {Does : Store → Store → Prop} {uid : Option UInt32} {α : Type} {m : FacadeM α}
    (h : OnBehalf For Change Does uid m) : Tidies Facade.link none m := by
  induction h with
  | nobody h => exact h.tidies
  | looks head _ ih => exact Tidies.bind (.of_keeps fun f => congrArg Facade.link (head f)) ih
  | caller h =>
    exact Tidies.bind (fun f _ => f.resolver.resolve_tidy f.identities _ f.link) fun user =>
      (h user).tidies
  | answers _ quiet ih => exact ih.bind fun a => .of_keeps fun f => congrArg Facade.link (quiet a f)

theorem perform_tidy (operation : Operation) (f : Facade) :
    Tidy none f.link (perform operation f).2.link :=
  (perform_onBehalf operation).tidies f (Link.given_none _)

theorem mount_tidy (l : Link) (ids : Identities) (r : Resolver) (a : AllowList)
    (options : Options) :
    Tidy none l (mount l ids r a options).2 := by
  have hlook : Tidies id none (look r.admin options.mountPoint) := Link.during_tidies fun s => by
    have hstat : Tidies id (some s)
        (Link.failingAs FacadeError.ofStore (Link.stat s options.mountPoint)) :=
      Link.Within.tidies (D := fun _ _ => False) (.stat s options.mountPoint)
    refine hstat.bind fun status => .of_keeps ?_
    split
    · exact Keeps.of_throw_bind
    · exact Keeps.of_pure
  have hlooked := hlook l (Link.given_none l)
  unfold mount
  rcases hl : (look r.admin options.mountPoint l : Except FacadeError Nat × Link) with ⟨e | n, l'⟩
    <;> rw [hl] at hlooked
  · exact hlooked
  · dsimp only
    split <;> exact hlooked

end Facade

/-! ## The allow-list -/

namespace AllowList

variable (a : AllowList) (l : Link)

theorem receive_tidy : Tidy none l (a.receive l).2.2 := by
  have hentered := Link.enter_entered a.account l l rfl
  unfold receive
  rcases he : (Link.enter a.account l : Except StoreError Session × Link) with ⟨e | s, l'⟩
    <;> rw [he] at hentered
  · exact hentered ▸ .refl none l
  · have hread : Tidies id (some s) (Link.usersWithMetadata s a.key) :=
      Link.Within.tidies (D := fun _ _ => False) (.asks _ _)
    have hclosed : Tidy none l ((Link.usersWithMetadata s a.key l').2.close s) :=
      hentered.closed (hread l' hentered.given)
    dsimp only
    rcases hu : (Link.usersWithMetadata s a.key l' : Except StoreError _ × Link) with ⟨e | pairs,
      l''⟩ <;> rw [hu] at hclosed <;>
      exact hclosed

theorem refresh_tidy : Tidy none l (a.refresh l).2.2 := by
  have hasked := Link.announce_tidy a.account l
  unfold refresh
  rcases ha : (Link.announce a.account l : Except StoreError Unit × Link) with ⟨e | x, l'⟩
    <;> rw [ha] at hasked
  · exact hasked
  · exact hasked.trans (Link.given_none l) (a.receive_tidy l')

end AllowList

end StoreMount
