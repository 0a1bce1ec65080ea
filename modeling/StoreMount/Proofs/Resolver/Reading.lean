import StoreMount.Proofs.Resolver
import StoreMount.Proofs.Resolver.Settling

/-!
# What many read off an identity source

Looking many numbers up at once changes no more than looking them up one by one: whoever is known
afterwards and was not before is known as the source has them. A caller that has looked somebody up
keeps what it has read while it waits for its connection.
-/
namespace StoreMount.Resolver

variable {r : Resolver} {ids : Identities}

namespace Batch

structure Reading (ids : Identities) (r : Resolver) (b : Batch) :
    Prop extends Reads ids r b.resolver where
  connecting : ∀ i u slot person, b.At i u (.connecting slot person) → identify ids u = .ok person

namespace Reading
variable {b : Batch} {caller slot : Nat} {uid : UInt32} {stage stage' : Stage}

theorem start (r : Resolver) (l : Link) (uids : List UInt32) :
    Reading ids r (Batch.start r l uids) where
  admin := rfl
  markers := rfl
  known _ _ hp := .inl hp
  connecting _ _ _ _ hi := by cases starting_of_at_start hi

theorem setStage (h : Reading ids r b) (hc : b.At caller uid stage)
    (hs : ∀ slot person, stage' = .connecting slot person → identify ids uid = .ok person) :
    Reading ids r (b.setStage caller stage') where
  admin := h.admin
  markers := h.markers
  known := h.known
  connecting i u slot person hi := by
    rcases (at_setStage hc).1 hi with ⟨-, rfl, hstage⟩ | ⟨-, hi⟩
    · exact hs slot person hstage.symm
    · exact h.connecting i u slot person hi

theorem fail (h : Reading ids r b) (e : FacadeError) :
    Reading ids r (b.fail caller uid slot e) where
  admin := by rw [resolver_fail, h.admin]
  markers := by rw [resolver_fail, h.markers]
  known := by rw [resolver_fail]; exact h.known
  connecting i u slot' person hi := by
    rw [At, callers_fail] at hi
    obtain ⟨⟨u', st⟩, hi, heq⟩ := Option.map_eq_some_iff.1 hi
    split at heq
    · cases heq
    · split at heq
      · cases heq
      · cases heq
        exact h.connecting i u slot' person hi

theorem succeed (h : Reading ids r b) (hc : b.At caller uid stage) {person : Person}
    (hp : identify ids uid = .ok person) :
    Reading ids r (b.succeed caller uid slot (principalOf b.resolver.admin person)) where
  admin := by
    rw [succeed_eq]
    split <;> exact h.admin
  markers := by
    rw [succeed_eq]
    split <;> exact h.markers
  known u p hk := by
    rw [known_succeed] at hk
    split at hk
    · next hu =>
      obtain ⟨rfl, -⟩ := hu
      exact .inr ⟨person, hp, h.admin ▸ (Option.some.inj hk).symm⟩
    · exact h.known u p hk
  connecting i u slot' person' hi := by
    rcases (at_setStage hc).1 ((at_succeed _).1 hi) with ⟨-, -, hstage⟩ | ⟨-, hi⟩
    · cases hstage
    · exact h.connecting i u slot' person' hi

theorem beginLoad (h : Reading ids r b) (hc : b.At caller uid stage) :
    Reading ids r (b.beginLoad ids caller uid slot) := by
  unfold Batch.beginLoad
  split
  · exact h.fail _
  · next person hperson =>
    split
    · next e link _ => exact fail (b := { b with link }) { h with } _
    · next link _ =>
      refine setStage (b := { b with link }) { h with } hc fun slot' person' he => ?_
      cases he
      exact hperson

theorem finishLoad (h : Reading ids r b) (hc : b.At caller uid stage) {person : Person}
    (hp : identify ids uid = .ok person) :
    Reading ids r (b.finishLoad caller uid slot person) := by
  unfold Batch.finishLoad
  split
  · next e link _ => exact fail (b := { b with link }) { h with } _
  · next session link _ =>
    have hconfirm := confirm_triple b.resolver.admin uid person session link trivial
    rcases hconf : (confirm b.resolver.admin uid person session link : Except FacadeError
      Principal × Link) with ⟨e | p, link'⟩
    · exact fail (b := { b with link := link'.close session }) { h with } e
    · rw [hconf] at hconfirm
      obtain rfl : p = principalOf b.resolver.admin person := hconfirm
      exact succeed (b := { b with link := link'.close session }) { h with } hc hp

theorem turn (h : Reading ids r b) (caller : Nat) : Reading ids r (b.turn ids caller) := by
  unfold Batch.turn
  split
  · exact h
  · next uid stage hc =>
    cases stage with
    | done answer => exact h
    | starting =>
      dsimp only
      split
      · exact h.setStage hc nofun
      · split
        · exact setStage (b := { b with slots := _ }) { h with } hc nofun
        · exact beginLoad (b := { b with slots := _, current := _ }) { h with } hc
    | queued slot =>
      dsimp only
      split
      · exact h.setStage hc nofun
      · exact h
    | granted slot => exact h.beginLoad hc
    | connecting slot person => exact h.finishLoad hc (h.connecting caller uid slot person hc)

theorem takeTurns (h : Reading ids r b) (turns : List Nat) :
    Reading ids r (b.takeTurns ids turns) := by
  induction turns generalizing b with
  | nil => exact h
  | cons caller turns ih => exact ih (h.turn caller)

end Reading
end Batch

theorem reads_together (r : Resolver) (ids : Identities) (uids : List UInt32) (l : Link) :
    Reads ids r (r.resolveTogether ids uids l).2.1 := by
  have hstart : Batch.Reading ids r (Batch.start r l uids) := .start r l uids
  have hsettled := hstart.takeTurns ((Batch.start r l uids).settleTurns ids)
  rw [Batch.takeTurns_settleTurns] at hsettled
  exact hsettled.toReads

end StoreMount.Resolver
