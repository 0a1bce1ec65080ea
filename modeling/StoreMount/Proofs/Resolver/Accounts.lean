import StoreMount.Proofs.Resolver.Reading

/-!
# Whose account a principal has

A resolver may be asked for numbers one by one or for many at once, against identity sources that
change and over any link, and it may forget everybody in between. The account of a principal is the
proxy administrator's, acting for the user whom the principal is named after, all the same.
-/
namespace StoreMount.Resolver

inductive Arisen : Resolver → Prop
  | new (ids : Identities) (account : Account) (visiting : Visiting) :
      Arisen (.new ids account visiting)
  | resolve {r : Resolver} (h : Arisen r) (ids : Identities) (uid : UInt32) (l : Link) :
      Arisen (r.resolve ids uid l).2.1
  | together {r : Resolver} (h : Arisen r) (ids : Identities) (uids : List UInt32) (l : Link) :
      Arisen (r.resolveTogether ids uids l).2.1
  | purged {r : Resolver} (h : Arisen r) (ids : Identities) : Arisen (r.purgeIfChanged ids).2

/-- Everybody acts in their own name. -/
structure Coherent (r : Resolver) : Prop where
  admin : r.admin.clientUser = r.admin.proxyUser
  known : ∀ uid p, r.known.get? uid = some p → p.account = r.admin.actingAs p.name

variable {r : Resolver} {ids : Identities}

namespace Coherent

theorem actingAs (h : r.Coherent) : r.admin.actingAs r.admin.proxyUser = r.admin := by
  rw [← h.admin]
  rfl

theorem seeded (h : r.Coherent) (markers : List Nat) :
    Coherent { r with known := seed r.admin, markers } where
  admin := h.admin
  known uid p hp := by
    change (Table.empty.insert 0 _).get? uid = some p at hp
    rw [Table.get?_insert] at hp
    split at hp
    · exact Option.some.inj hp ▸ h.actingAs.symm
    · cases hp

theorem reads (h : r.Coherent) {r' : Resolver} (hr : Reads ids r r') : r'.Coherent where
  admin := by rw [hr.admin, h.admin]
  known uid p hp := by
    rw [hr.admin]
    rcases hr.known uid p hp with hp | ⟨person, -, rfl⟩
    · exact h.known uid p hp
    · rfl

theorem account_of_resolve (h : r.Coherent) {uid : UInt32} {l : Link} {p : Principal}
    (hp : (r.resolve ids uid l).1 = .ok p) : p.account = r.admin.actingAs p.name := by
  rcases resolve_cases r ids uid l with ⟨-, hknown⟩ | ⟨person, -, hr, -⟩
  · exact h.known uid p (hknown p hp)
  · rw [hr] at hp
    exact Except.ok.inj hp ▸ rfl

theorem clientUser_of_resolve (h : r.Coherent) {uid : UInt32} {l : Link} {p : Principal}
    (hp : (r.resolve ids uid l).1 = .ok p) : p.account.clientUser = p.name := by
  rw [h.account_of_resolve hp]
  rfl

end Coherent

theorem Arisen.coherent (h : r.Arisen) : r.Coherent := by
  induction h with
  | new ids account visiting =>
    exact Coherent.seeded (r := ⟨account.actingAs account.proxyUser, .empty, [], visiting⟩)
      ⟨rfl, by simp⟩ _
  | @resolve r _ ids uid l ih => exact ih.reads (reads_resolve r ids uid l)
  | @together r _ ids uids l ih => exact ih.reads (reads_together r ids uids l)
  | purged _ ids ih =>
    unfold purgeIfChanged
    split
    · exact ih
    · exact ih.seeded _

end StoreMount.Resolver
