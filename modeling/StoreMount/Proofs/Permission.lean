import StoreMount.Ace
import Mathlib.Data.List.Nodup

/-!
# Who holds level own after a list was edited

A list that has one entry for each subject goes on to have one when entries are revoked and granted.
An edit revokes some entries and then grants others, and an entry is there afterwards unless its
subject was revoked or was granted something else last. The own entries of an object's owner are not
revoked, and an individual entry that is below own is not granted to the owner; so what takes their
place, if anything does, is a group entry that happens to carry the owner's name.
-/
namespace StoreMount

variable {acl : AccessList} {a b e : PermissionEntry} {user owner zone : String}

namespace AccessList

theorem max?_eq_own {levels : List Level} : levels.max? = some .own ↔ .own ∈ levels := by
  have hfold : ∀ (levels : List Level) (l : Level), levels.foldl max l = .own ↔
      l = .own ∨ .own ∈ levels := by
    intro levels
    induction levels with
    | nil => simp
    | cons k levels ih =>
      intro l
      have hmax : max l k = .own ↔ l = .own ∨ k = .own := by cases l <;> cases k <;> decide
      rw [List.foldl_cons, ih, hmax, List.mem_cons, or_assoc, eq_comm (a := k)]
  cases levels with
  | nil => simp
  | cons l levels => rw [List.max?_cons', Option.some_inj, hfold, List.mem_cons, eq_comm (a := l)]

theorem levelOf?_eq_own : acl.levelOf? user [] = some .own ↔
      ∃ e ∈ acl, e.name = user ∧ e.level = .own := by
  rw [levelOf?, max?_eq_own]
  simp [names, and_assoc]

end AccessList

namespace PermissionEntry

theorem sameSubject_trans (h : a.sameSubject b = true) (h' : b.sameSubject e = true) :
    a.sameSubject e = true := by
  rw [sameSubject_iff] at *
  exact ⟨h.1.trans h'.1, h.2.trans h'.2⟩

end PermissionEntry

namespace AccessList

/-- One entry for each subject. -/
def Separate (acl : AccessList) : Prop := (acl.map fun e => (e.name, e.zone)).Nodup

theorem Separate.eq (h : acl.Separate) (ha : a ∈ acl) (hb : b ∈ acl)
    (hs : a.sameSubject b = true) : a = b :=
  List.inj_on_of_nodup_map h ha hb (Prod.ext_iff.2 (PermissionEntry.sameSubject_iff.1 hs))

theorem Separate.revoke (h : acl.Separate) (e : PermissionEntry) : (acl.revoke e).Separate :=
  h.sublist (List.filter_sublist.map _)

theorem Separate.grant (h : acl.Separate) (e : PermissionEntry) : (acl.grant e).Separate := by
  rw [grant_eq, Separate, List.map_append, List.nodup_append]
  refine ⟨h.revoke e, List.nodup_singleton _, fun x hx y hy hxy => ?_⟩
  obtain ⟨a, ha, rfl⟩ := List.mem_map.1 hx
  rw [List.map_singleton, List.mem_singleton] at hy
  have hsame : a.sameSubject e = true :=
    PermissionEntry.sameSubject_iff.2 (Prod.mk.inj (hxy.trans hy))
  cases (mem_revoke.1 ha).2.symm.trans hsame

/-! ## Edits -/

def edit (acl : AccessList) (revoked granted : List PermissionEntry) : AccessList :=
  granted.foldl grant (revoked.foldl revoke acl)

theorem mem_revokes {revoked : List PermissionEntry} :
    e ∈ revoked.foldl revoke acl ↔ e ∈ acl ∧ ∀ r ∈ revoked, e.sameSubject r = false := by
  induction revoked generalizing acl with
  | nil => simp
  | cons r revoked ih =>
    simp only [List.foldl_cons, ih, mem_revoke, List.forall_mem_cons, and_assoc]

theorem mem_of_mem_grants {granted : List PermissionEntry} (h : e ∈ granted.foldl grant acl) :
    e ∈ acl ∨ e ∈ granted := by
  induction granted generalizing acl with
  | nil => exact .inl h
  | cons g granted ih =>
    rcases ih h with h | h
    · rcases mem_grant.1 h with ⟨h, -⟩ | rfl
      · exact .inl h
      · exact .inr List.mem_cons_self
    · exact .inr (List.mem_cons_of_mem _ h)

theorem stays_or_granted {granted : List PermissionEntry} (h : e ∈ acl) :
    e ∈ granted.foldl grant acl ∨ ∃ g ∈ granted, g ∈ granted.foldl grant acl ∧
      e.sameSubject g = true := by
  induction granted generalizing acl e with
  | nil => exact .inl h
  | cons g granted ih =>
    have hlater : ∀ {x}, x ∈ acl.grant g → x ∈ granted.foldl grant (acl.grant g) ∨
        ∃ g' ∈ g :: granted, g' ∈ granted.foldl grant (acl.grant g) ∧
          x.sameSubject g' = true := fun hx =>
      (ih hx).imp_right fun ⟨g', hg', h⟩ => ⟨g', List.mem_cons_of_mem _ hg', h⟩
    rw [List.foldl_cons]
    cases hs : e.sameSubject g with
    | false => exact hlater (mem_grant.2 (.inl ⟨h, hs⟩))
    | true =>
      rcases hlater (mem_grant.2 (.inr rfl)) with hg | ⟨g', hg', hin, hsame⟩
      · exact .inr ⟨g, List.mem_cons_self, hg, hs⟩
      · exact .inr ⟨g', hg', hin, PermissionEntry.sameSubject_trans hs hsame⟩

theorem Separate.edit (h : acl.Separate) (revoked granted : List PermissionEntry) :
    (acl.edit revoked granted).Separate := by
  have hrevoked : (revoked.foldl AccessList.revoke acl).Separate := by
    induction revoked generalizing acl with
    | nil => exact h
    | cons r revoked ih => exact ih (h.revoke r)
  unfold AccessList.edit
  generalize revoked.foldl AccessList.revoke acl = acl at hrevoked
  induction granted generalizing acl with
  | nil => exact hrevoked
  | cons g granted ih => exact ih _ (hrevoked.grant g)

end AccessList

/-! ## The owner's level -/

/-- As much of a change as was made: some of what was to be revoked, and some of what was to be
granted. -/
structure AclChange.Partial (change : AclChange)
    (revoked granted : List PermissionEntry) : Prop where
  revoked : ∀ e ∈ revoked, e ∈ change.removed
  granted : ∀ e ∈ granted, e ∈ change.added

namespace AclChange

variable {incoming revoked granted : List PermissionEntry}

theorem mem_removed : e ∈ (between acl incoming owner).removed ↔
    e ∈ acl ∧ e ∉ incoming ∧ ¬(e.name = owner ∧ e.level = .own) := by
  simp only [between, List.mem_filter, Bool.and_eq_true, Bool.not_eq_true', List.contains_eq_mem,
    decide_eq_false_iff_not]

theorem mem_added : e ∈ (between acl incoming owner).added ↔
    e ∈ incoming ∧ e ∉ acl ∧ ¬(e.name = owner ∧ e.kind = .individual ∧ e.level < .own) := by
  simp only [between, List.mem_filter, Bool.and_eq_true, Bool.not_eq_true', List.contains_eq_mem,
    decide_eq_false_iff_not]

theorem own_stays_or_granted (hs : acl.Separate)
    (hp : (between acl incoming owner).Partial revoked granted) (he : e ∈ acl)
    (hown : e.name = owner ∧ e.level = .own) : e ∈ acl.edit revoked granted ∨
      ∃ g ∈ granted, g ∈ acl.edit revoked granted ∧ e.sameSubject g = true := by
  refine AccessList.stays_or_granted (AccessList.mem_revokes.2 ⟨he, fun r hr => ?_⟩)
  obtain ⟨hracl, -, hrown⟩ := mem_removed.1 (hp.revoked r hr)
  by_contra hsame
  obtain rfl := hs.eq he hracl (by simpa using hsame)
  exact hrown hown

theorem replaced_of_lost (hs : acl.Separate)
    (hp : (between acl incoming owner).Partial revoked granted) (hz : ∀ e ∈ incoming, e.zone = zone)
    (hown : acl.levelOf? owner [] = some .own)
    (hlost : (acl.edit revoked granted).levelOf? owner [] ≠ some .own) :
    (∀ e ∈ acl, e.name = owner → e.level = .own → e.zone = zone) ∧
      ∃ g ∈ acl.edit revoked granted, g ∈ incoming ∧ g.name = owner ∧ g.kind = .group ∧
      g.level < .own := by
  rw [ne_eq, AccessList.levelOf?_eq_own] at hlost
  have hreplaced : ∀ e ∈ acl, e.name = owner → e.level = .own → ∃ g ∈ acl.edit revoked granted,
      g ∈ incoming ∧
      g.name = owner ∧ g.kind = .group ∧ g.level < .own ∧ e.zone = zone := by
    intro e he hname hlevel
    rcases own_stays_or_granted hs hp he ⟨hname, hlevel⟩ with hstays | ⟨g, hg, hin, hsame⟩
    · exact absurd ⟨e, hstays, hname, hlevel⟩ hlost
    · obtain ⟨hincoming, -, hkept⟩ := mem_added.1 (hp.granted g hg)
      obtain ⟨hgname, hgzone⟩ := PermissionEntry.sameSubject_iff.1 hsame
      have hgname : g.name = owner := hgname.symm.trans hname
      have hbelow : g.level < .own := by
        cases hl : g.level with
        | own => exact absurd ⟨g, hin, hgname, hl⟩ hlost
        | _ => decide
      have hkind : g.kind = .group := by
        cases hk : g.kind with
        | individual => exact absurd ⟨hgname, hk, hbelow⟩ hkept
        | group => rfl
      exact ⟨g, hin, hincoming, hgname, hkind, hbelow, hgzone.trans (hz g hincoming)⟩
  refine ⟨fun e he hname hlevel => ?_, ?_⟩
  · obtain ⟨-, -, -, -, -, -, hzone⟩ := hreplaced e he hname hlevel
    exact hzone
  · obtain ⟨e, he, hname, hlevel⟩ := AccessList.levelOf?_eq_own.1 hown
    obtain ⟨g, hin, hincoming, hgname, hkind, hbelow, -⟩ := hreplaced e he hname hlevel
    exact ⟨g, hin, hincoming, hgname, hkind, hbelow⟩

theorem lost_of_replaced (hs : acl.Separate)
    (hp : (between acl incoming owner).Partial revoked granted) (hz : ∀ e ∈ incoming, e.zone = zone)
    (hzone : ∀ e ∈ acl, e.name = owner → e.level = .own → e.zone = zone)
    (hin : a ∈ acl.edit revoked granted) (hname : a.name = owner) (hazone : a.zone = zone)
    (hbelow : a.level < .own) :
    (acl.edit revoked granted).levelOf? owner [] ≠ some .own := by
  rw [ne_eq, AccessList.levelOf?_eq_own]
  rintro ⟨e, he, hename, hlevel⟩
  have hezone : e.zone = zone := by
    rcases AccessList.mem_of_mem_grants he with he | he
    · exact hzone e (AccessList.mem_revokes.1 he).1 hename hlevel
    · exact hz e (mem_added.1 (hp.granted e he)).1
  obtain rfl := (hs.edit revoked granted).eq he hin
    (PermissionEntry.sameSubject_iff.2 ⟨hename.trans hname.symm, hezone.trans hazone.symm⟩)
  rw [hlevel] at hbelow
  exact absurd hbelow (by decide)

end AclChange
end StoreMount
