/-!
# Permission entries

An entry grants a level to a subject, who is a single account or a group. Levels are ordered, and
what a user holds on an object is the highest level over the entries that name the user or one of
the user's groups; the store and the facade both read the level off a list of entries by this one
rule.
-/
namespace StoreMount

inductive Level
  | read
  | write
  | own
deriving DecidableEq, Repr, Inhabited

namespace Level

def rank : Level → Nat
  | .read => 0
  | .write => 1
  | .own => 2

instance : LE Level := ⟨fun a b => a.rank ≤ b.rank⟩
instance : LT Level := ⟨fun a b => a.rank < b.rank⟩
instance (a b : Level) : Decidable (a ≤ b) := inferInstanceAs (Decidable (a.rank ≤ b.rank))
instance (a b : Level) : Decidable (a < b) := inferInstanceAs (Decidable (a.rank < b.rank))
instance : Max Level := ⟨fun a b => if a ≤ b then b else a⟩

def word : Level → String
  | .read => "read"
  | .write => "write"
  | .own => "own"

theorem le_own (a : Level) : a ≤ .own := by cases a <;> decide

theorem le_trans {a b c : Level} (hab : a ≤ b) (hbc : b ≤ c) : a ≤ c := Nat.le_trans hab hbc

end Level

inductive SubjectKind
  | individual
  | group
deriving DecidableEq, Repr, Inhabited

structure PermissionEntry where
  name : String
  kind : SubjectKind
  zone : String
  level : Level
deriving DecidableEq, Repr, Inhabited

/-- Two entries concern the same subject when name and zone agree; kind and level do not matter. -/
def PermissionEntry.sameSubject (a b : PermissionEntry) : Bool :=
  decide (a.name = b.name ∧ a.zone = b.zone)

theorem PermissionEntry.sameSubject_iff {a b : PermissionEntry} :
    a.sameSubject b = true ↔ a.name = b.name ∧ a.zone = b.zone := by
  simp [sameSubject]

abbrev AccessList := List PermissionEntry

namespace AccessList

/-- Give a subject a level in place of whatever it had. -/
def grant (acl : AccessList) (entry : PermissionEntry) : AccessList :=
  acl.filter (fun e => !e.sameSubject entry) ++ [entry]

def revoke (acl : AccessList) (entry : PermissionEntry) : AccessList :=
  acl.filter fun e => !e.sameSubject entry

theorem mem_revoke {acl : AccessList} {entry e : PermissionEntry} :
    e ∈ acl.revoke entry ↔ e ∈ acl ∧ e.sameSubject entry = false := by
  simp [revoke]

theorem grant_eq (acl : AccessList) (entry : PermissionEntry) :
    acl.grant entry = acl.revoke entry ++ [entry] := rfl

theorem mem_grant {acl : AccessList} {entry e : PermissionEntry} :
    e ∈ acl.grant entry ↔ (e ∈ acl ∧ e.sameSubject entry = false) ∨ e = entry := by
  rw [grant_eq, List.mem_append, mem_revoke, List.mem_singleton]

def names (user : String) (groups : List String) (e : PermissionEntry) : Bool :=
  decide (e.name = user) || groups.contains e.name

/-- The highest level held over all entries that name the user or one of the groups. -/
def levelOf? (acl : AccessList) (user : String) (groups : List String) : Option Level :=
  ((acl.filter (names user groups)).map PermissionEntry.level).max?

end AccessList
end StoreMount
