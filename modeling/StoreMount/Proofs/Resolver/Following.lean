import StoreMount.Proofs.Resolver.Calls
import StoreMount.Proofs.Resolver.Generations
import StoreMount.Proofs.Resolver.Reading

/-!
# A resolver and the source that it reads

The bindings of an identity source change and the source goes down and comes back, while the
resolver that reads it looks numbers up, one by one or many at once, and looks for changes. Whoever
is learned is learned as the source has them at the time. So as long as the marks agree, everybody
known under a number other than 0 is known as the source has them, whether or not it answers; and
number 0 is the administrator at any time.
-/
namespace StoreMount.Resolver

variable {r : Resolver} {ids : Identities}

/-- What a source and the resolver that reads it come to together. On the links anything may happen.
-/
inductive Follows : Resolver → Identities → Prop
  | new {ids : Identities} (made : ids.Made) (account : Account) (visiting : Visiting) :
      Follows (.new ids account visiting) ids
  | changed {r : Resolver} {ids : Identities} (h : Follows r ids) (c : Identities.Change) :
      Follows r (ids.change c)
  | turned {r : Resolver} {ids : Identities} (h : Follows r ids) (down : Bool) :
      Follows r { ids with down }
  | resolved {r : Resolver} {ids : Identities} (h : Follows r ids) (uid : UInt32) (l : Link) :
      Follows (r.resolve ids uid l).2.1 ids
  | together {r : Resolver} {ids : Identities} (h : Follows r ids) (uids : List UInt32) (l : Link) :
      Follows (r.resolveTogether ids uids l).2.1 ids
  | purged {r : Resolver} {ids : Identities} (h : Follows r ids) :
      Follows (r.purgeIfChanged ids).2 ids

/-! ## What a resolver knows of the source that it reads -/

structure Abreast (r : Resolver) (ids : Identities) : Prop where
  made : ids.Made
  zero : r.known.get? 0 = some (administrator r.admin)
  numbered : r.Numbered
  marked : ∃ mark, r.markers = [mark] ∧ mark ≤ ids.changes
  known : r.markers = ids.markers → ∀ uid p, uid ≠ 0 → r.known.get? uid = some p →
    ∃ person ∈ ids.people, person.uid = uid ∧ p = principalOf r.admin person

namespace Abreast

theorem seeded (hm : ids.Made) (admin : Account) (visiting : Visiting) :
    Abreast ⟨admin, seed admin, ids.markers, visiting⟩ ids where
  made := hm
  zero := get?_seed admin 0
  numbered := numbered_seed _ _ _
  marked := ⟨ids.changes, rfl, Nat.le_refl _⟩
  known _ _ _ hne hp := absurd hp (Watch.known_seed hne)

theorem changed (h : Abreast r ids) (c : Identities.Change) : Abreast r (ids.change c) := by
  obtain ⟨mark, hmark, hle⟩ := h.marked
  have hlater : mark < (ids.change c).changes := by
    rw [Identities.changes_change]
    exact Nat.lt_succ_of_le hle
  refine ⟨h.made.change c, h.zero, h.numbered, ⟨mark, hmark, Nat.le_of_lt hlater⟩, fun he => ?_⟩
  have : mark = (ids.change c).changes := List.singleton_inj.1 (hmark.symm.trans he)
  exact absurd this (Nat.ne_of_lt hlater)

theorem reads (h : Abreast r ids) {r' : Resolver} (hr : Reads ids r r')
    (hzero : r'.known.get? 0 = some (administrator r.admin)) : Abreast r' ids where
  made := h.made
  zero := hr.admin ▸ hzero
  numbered := h.numbered.reads hr
  marked := hr.markers ▸ h.marked
  known he u p hne hp := by
    rcases hr.known u p hp with hp | ⟨person, hperson, rfl⟩
    · exact hr.admin ▸ h.known (hr.markers ▸ he) u p hne hp
    · exact ⟨person, (identify_eq_ok hperson).2, uid_of_identify hperson, hr.admin ▸ rfl⟩

end Abreast

theorem Follows.abreast (h : Follows r ids) : Abreast r ids := by
  induction h with
  | new made account visiting => exact .seeded made _ _
  | changed _ c ih => exact ih.changed c
  | turned _ down ih => exact { ih with made := ih.made.turned down }
  | @resolved r ids _ uid l ih =>
    exact ih.reads (reads_resolve r ids uid l) (known_resolve ih.zero ids uid l)
  | @together r ids _ uids l ih =>
    exact ih.reads (reads_together r ids uids l)
      ((known_after r [⟨ids, l, uids⟩] 0 _).2 (.inl ih.zero))
  | @purged r ids _ ih =>
    unfold purgeIfChanged
    split
    · exact ih
    · exact .seeded ih.made _ _

end StoreMount.Resolver
