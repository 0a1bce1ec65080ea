import StoreMount.Proofs.Cache

/-!
# The caches over their history

What a cache answers is told by the row of things that were done to it. A question is answered by
what was put in last under its key, unless something done since covers the question or the answer
has grown too old; with none of these put in, it is not answered at all. Paths are compared by
place, users, user numbers and masks as they are.
-/
namespace StoreMount.Cache

/-- A question to one of the six tables. -/
inductive Query where
  | attributes (user : String) (path : Path)
  | access (uid : UInt32) (mask : Mask) (path : Path)
  | objectType (path : Path)
  | permissions (path : Path)
  | listing (user : String) (path : Path)
  | userProfile (user : String)

def Query.Value : Query → Type
  | attributes .. => Attributes
  | access .. => Decision
  | objectType .. => ObjectKind
  | permissions .. => List PermissionEntry
  | listing .. => Listing
  | userProfile .. => UserProfile

def find (c : Cache) : (q : Query) → Option q.Value
  | .attributes user path => c.attributes? user path
  | .access uid mask path => c.access? uid mask path
  | .objectType path => c.objectType? path
  | .permissions path => c.permissions? path
  | .listing user path => c.listing? user path
  | .userProfile user => c.userProfile? user

def lifetimeOf (lifetimes : Lifetimes) : Query → Nat
  | .attributes .. => lifetimes.attributes
  | .access .. => lifetimes.access
  | .objectType .. => lifetimes.objectType
  | .permissions .. => lifetimes.permissions
  | .listing .. => lifetimes.listing
  | .userProfile .. => lifetimes.userType

inductive Use where
  | putAttributes (user : String) (path : Path) (attributes : Attributes)
  | putAccess (uid : UInt32) (mask : Mask) (path : Path) (decision : Decision)
  | putObjectType (path : Path) (kind : ObjectKind)
  | putPermissions (path : Path) (entries : List PermissionEntry)
  | putListing (user : String) (path : Path) (listing : Listing)
  | putUserProfile (user : String) (profile : UserProfile)
  | forgetAttributes (path : Path)
  | forgetPermissions (path : Path)
  | forgetTree (top : Path)
  | sleep (milliseconds : Nat)

def apply (c : Cache) : Use → Cache
  | .putAttributes user path attributes => c.putAttributes user path attributes
  | .putAccess uid mask path decision => c.putAccess uid mask path decision
  | .putObjectType path kind => c.putObjectType path kind
  | .putPermissions path entries => c.putPermissions path entries
  | .putListing user path listing => c.putListing user path listing
  | .putUserProfile user profile => c.putUserProfile user profile
  | .forgetAttributes path => c.forgetAttributes path
  | .forgetPermissions path => c.forgetPermissions path
  | .forgetTree top => c.forgetTree top
  | .sleep milliseconds => c.sleep milliseconds

def after (c : Cache) (uses : List Use) : Cache := uses.foldl apply c

namespace Use

def puts : Use → (q : Query) → Option q.Value
  | putAttributes user path a, .attributes user' path' =>
    if user' = user ∧ path'.place = path.place then some a else none
  | putAccess uid mask path d, .access uid' mask' path' =>
    if uid' = uid ∧ mask' = mask ∧ path'.place = path.place then some d else none
  | putObjectType path kind, .objectType path' =>
    if path'.place = path.place then some kind else none
  | putPermissions path entries, .permissions path' =>
    if path'.place = path.place then some entries else none
  | putListing user path l, .listing user' path' =>
    if user' = user ∧ path'.place = path.place then some l else none
  | putUserProfile user p, .userProfile user' => if user' = user then some p else none
  | _, _ => none

/-- Whether the answer to the question is forgotten: attributes are for every user at once, and
decisions, listings and profiles never are. -/
def covers : Use → Query → Bool
  | forgetAttributes path, .attributes _ path' => decide (path'.place = path.place)
  | forgetPermissions path, .permissions path' => decide (path'.place = path.place)
  | forgetTree top, .attributes _ path => top.place.isPrefixOf path.place
  | forgetTree top, .objectType path => top.place.isPrefixOf path.place
  | forgetTree top, .permissions path => top.place.isPrefixOf path.place
  | _, _ => false

def duration : Use → Nat
  | sleep milliseconds => milliseconds
  | _ => 0

end Use

def elapsed : List Use → Nat
  | [] => 0
  | use :: uses => use.duration + elapsed uses

/-- Nothing done to the caches answers the question again or covers it. -/
def Spares (uses : List Use) (q : Query) : Prop :=
  ∀ use ∈ uses, use.puts q = none ∧ use.covers q = false

def kept (c : Cache) : (q : Query) → Option (Stamped q.Value)
  | .attributes user path => c.attributesFor.get? (user, path.place)
  | .access uid mask path => c.accessFor.get? (uid, mask.bits, path.place)
  | .objectType path => c.kindOf.get? path.place
  | .permissions path => c.permissionsOf.get? path.place
  | .listing user path => c.listingFor.get? (user, path.place)
  | .userProfile user => c.profileOf.get? user

theorem find_eq_fresh (c : Cache) (q : Query) :
    c.find q = c.fresh (lifetimeOf c.lifetimes q) (c.kept q) := by
  cases q <;> rfl

theorem kept_new (lifetimes : Lifetimes) (q : Query) : (Cache.new lifetimes).kept q = none := by
  cases q <;> rfl

theorem now_apply (c : Cache) (use : Use) : (c.apply use).now = c.now + use.duration := by
  cases use <;> rfl

theorem lifetimes_apply (c : Cache) (use : Use) : (c.apply use).lifetimes = c.lifetimes := by
  cases use <;> rfl

section Tables
variable {κ α : Type} [DecidableEq κ] (t : Table κ (Stamped α)) {k k' : κ}

theorem get?_insert_stamp {p : Prop} [Decidable p] (c : Cache) (v : α) (hp : k' = k ↔ p) :
    (t.insert k (c.stamp v)).get? k' = ((if p then some v else none).map c.stamp).or
      (t.get? k') := by
  rw [Table.get?_insert]
  split
  · next hk => rw [if_pos (hp.1 hk), Option.map_some, Option.some_or]
  · next hk => rw [if_neg fun h => hk (hp.2 h), Option.map_none, Option.none_or]

theorem get?_filter_keys {gone : Bool} {keep : κ → Bool} (hg : keep k = !gone) :
    (t.filter fun k' _ => keep k').get? k = if gone then none else t.get? k := by
  rw [Table.get?_filter, hg]
  cases gone <;> cases t.get? k <;> rfl

end Tables

theorem kept_apply (c : Cache) (use : Use) (q : Query) :
    (c.apply use).kept q = ((use.puts q).map c.stamp).or
      (if use.covers q then none else c.kept q) := by
  cases use with
  | putAttributes user path a =>
    cases q with
    | attributes user' path' => exact get?_insert_stamp c.attributesFor c a Prod.ext_iff
    | _ => rfl
  | putAccess uid mask path d =>
    cases q with
    | access uid' mask' path' =>
      refine get?_insert_stamp c.accessFor c d ?_
      rw [Prod.mk.injEq, Prod.mk.injEq, Mask.mk.injEq]
    | _ => rfl
  | putObjectType path kind =>
    cases q with
    | objectType path' => exact get?_insert_stamp c.kindOf c kind .rfl
    | _ => rfl
  | putPermissions path entries =>
    cases q with
    | permissions path' => exact get?_insert_stamp c.permissionsOf c entries .rfl
    | _ => rfl
  | putListing user path l =>
    cases q with
    | listing user' path' => exact get?_insert_stamp c.listingFor c l Prod.ext_iff
    | _ => rfl
  | putUserProfile user p =>
    cases q with
    | userProfile user' => exact get?_insert_stamp c.profileOf c p .rfl
    | _ => rfl
  | forgetAttributes path =>
    cases q with
    | attributes user path' => exact get?_filter_keys c.attributesFor (decide_not ..)
    | _ => rfl
  | forgetPermissions path =>
    cases q with
    | permissions path' => exact get?_filter_keys c.permissionsOf (decide_not ..)
    | _ => rfl
  | forgetTree top =>
    cases q with
    | attributes user path => exact get?_filter_keys c.attributesFor rfl
    | objectType path => exact get?_filter_keys c.kindOf rfl
    | permissions path => exact get?_filter_keys c.permissionsOf rfl
    | _ => rfl
  | sleep milliseconds => cases q <;> rfl

theorem Use.duration_of_puts {use : Use} {q : Query} {v : q.Value} (h : use.puts q = some v) :
    use.duration = 0 := by
  cases use with
  | sleep _ => cases q <;> cases h
  | _ => rfl

@[simp] theorem elapsed_cons (use : Use) (uses : List Use) :
    elapsed (use :: uses) = use.duration + elapsed uses := rfl

@[simp] theorem elapsed_append (uses later : List Use) :
    elapsed (uses ++ later) = elapsed uses + elapsed later := by
  induction uses with
  | nil => exact (Nat.zero_add _).symm
  | cons use uses ih => rw [List.cons_append, elapsed_cons, elapsed_cons, ih, Nat.add_assoc]

theorem now_after (c : Cache) (uses : List Use) : (c.after uses).now = c.now + elapsed uses := by
  induction uses generalizing c with
  | nil => rfl
  | cons use uses ih =>
    rw [after, List.foldl_cons, ← after, ih, now_apply, elapsed_cons, Nat.add_assoc]

theorem lifetimes_after (c : Cache) (uses : List Use) : (c.after uses).lifetimes = c.lifetimes := by
  induction uses generalizing c with
  | nil => rfl
  | cons use uses ih => exact (ih (c.apply use)).trans (lifetimes_apply c use)

theorem spares_cons {use : Use} {uses : List Use} {q : Query} :
    Spares (use :: uses) q ↔ (use.puts q = none ∧ use.covers q = false) ∧ Spares uses q :=
  List.forall_mem_cons

theorem kept_after {c : Cache} {uses : List Use} {q : Query} {s : Stamped q.Value} :
    (c.after uses).kept q = some s ↔ (c.kept q = some s ∧ Spares uses q) ∨
      ∃ before use later, uses = before ++ use :: later ∧ use.puts q = some s.value ∧
        s.since = c.now + elapsed before ∧ Spares later q := by
  induction uses generalizing c with
  | nil =>
    refine ⟨fun h => .inl ⟨h, fun _ hm => absurd hm List.not_mem_nil⟩, ?_⟩
    rintro (⟨h, -⟩ | ⟨before, use, later, he, -⟩)
    · exact h
    · exact absurd he.symm (by simp)
  | cons use uses ih =>
    have hfirst : ((c.apply use).kept q = some s ∧ Spares uses q) ↔
        (c.kept q = some s ∧ Spares (use :: uses) q) ∨
          (use.puts q = some s.value ∧ s.since = c.now ∧ Spares uses q) := by
      rw [kept_apply, spares_cons]
      cases hp : use.puts q with
      | none => cases use.covers q <;> simp
      | some v =>
        obtain ⟨value, since⟩ := s
        simp only [Option.map_some, Option.some_or, Option.some.injEq, stamp, Stamped.mk.injEq,
          reduceCtorEq, false_and, and_false, false_or, and_assoc, eq_comm (a := c.now)]
    have hrest : (∃ before use' later, uses = before ++ use' :: later ∧ use'.puts q = some s.value ∧
        s.since = (c.apply use).now + elapsed before ∧ Spares later q) ↔
        ∃ before use' later, uses = before ++ use' :: later ∧ use'.puts q = some s.value ∧
          s.since = c.now + elapsed (use :: before) ∧ Spares later q := by
      simp only [now_apply, elapsed_cons, Nat.add_assoc]
    rw [after, List.foldl_cons, ← after, ih, hfirst, hrest, or_assoc]
    refine or_congr_right ⟨?_, ?_⟩
    · rintro (⟨hv, hs, hl⟩ | ⟨before, use', later, rfl, hv, hs, hl⟩)
      · exact ⟨[], use, uses, rfl, hv, hs, hl⟩
      · exact ⟨use :: before, use', later, rfl, hv, hs, hl⟩
    · rintro ⟨before, use', later, he, hv, hs, hl⟩
      cases before with
      | nil =>
        obtain ⟨rfl, rfl⟩ := List.cons.inj he
        exact .inl ⟨hv, hs, hl⟩
      | cons first before =>
        obtain ⟨rfl, rfl⟩ := List.cons.inj he
        exact .inr ⟨before, use', later, rfl, hv, hs, hl⟩

/-- Whatever was done to new caches, by anybody and on any paths, a question is answered by what was
put in last under its key, as long as nothing done since covers it and less than a lifetime has
passed, and is not answered otherwise. -/
theorem found_iff_put_last (lifetimes : Lifetimes) (uses : List Use) (q : Query) (v : q.Value) :
    ((Cache.new lifetimes).after uses).find q = some v ↔
      ∃ before use later, uses = before ++ use :: later ∧ use.puts q = some v ∧ Spares later q ∧
        elapsed later < lifetimeOf lifetimes q := by
  rw [find_eq_fresh, fresh_eq_some_iff, lifetimes_after, now_after]
  simp only [kept_after, kept_new, reduceCtorEq, false_and, false_or]
  -- What is put in takes no time, so the age of the answer is the time that went by after it.
  have hage (before later : List Use) {use : Use} (hv : use.puts q = some v) :
      0 + elapsed (before ++ use :: later) < 0 + elapsed before + lifetimeOf lifetimes q ↔
        elapsed later < lifetimeOf lifetimes q := by
    rw [elapsed_append, elapsed_cons, Use.duration_of_puts hv]
    omega
  constructor
  · rintro ⟨since, ⟨before, use, later, rfl, hv, rfl, hl⟩, hfresh⟩
    exact ⟨before, use, later, rfl, hv, hl, (hage before later hv).1 hfresh⟩
  · rintro ⟨before, use, later, rfl, hv, hl, hfresh⟩
    exact ⟨_, ⟨before, use, later, rfl, hv, rfl, hl⟩, (hage before later hv).2 hfresh⟩

/-- What is forgotten is told by components: a place whose name only begins alike stays. -/
example :
    let c := (Cache.new .default).after
      [.putObjectType ⟨"/z/a/f"⟩ .dataObject, .putObjectType ⟨"/z/ab"⟩ .dataObject,
        .forgetTree ⟨"/z/a"⟩]
    c.objectType? ⟨"/z/a/f"⟩ = none ∧ c.objectType? ⟨"/z/ab"⟩ = some .dataObject := by
  decide +kernel

end StoreMount.Cache
