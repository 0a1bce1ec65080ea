import StoreMount.Proofs.Registry.Relocation

/-!
# Concurrent callers of one registry

Every call but one does all its work in a single critical section. `handleFor` has two: it looks
first, and only if it found nothing does it come back to look again and assign. Between the two,
other calls may do anything. A run is the list of critical sections in the order in which they got
hold of the registry, and calls that wait for their second section are kept with the registry.

After every section the two tables are inverse to each other, and a section that answers with a
failure leaves all as it was; for the pair that is entered on one side and then refused, this is
because that side is put back.
-/
namespace StoreMount.Registry

variable {r : Registry}

/-! ## What single sections do -/

theorem contains_of_contains_firstFree {used : Table Handle Path} {tries : Nat} {h : Handle}
    (hc : used.contains (firstFree used tries h) = true) :
    ∀ i < tries, used.contains (h + i) = true := by
  induction tries generalizing h with
  | zero => intro i hi; omega
  | succ n ih =>
    rw [firstFree] at hc
    by_cases hu : used.contains h = true
    · rw [if_pos hu] at hc
      intro i hi
      cases i with
      | zero => exact hu
      | succ i =>
        have := ih hc i (by omega)
        rwa [Nat.add_right_comm] at this
    · rw [if_neg hu] at hc
      exact absurd hc hu

theorem get?_firstFree {used : Table Handle Path} {tries : Nat} (hs : used.size < tries)
    (h : Handle) :
    used.get? (firstFree used tries h) = none := by
  by_contra hn
  -- all tries would be keys of the table, and there are more tries than keys
  have hall := contains_of_contains_firstFree (Option.isSome_iff_ne_none.2 hn)
  have hsub : List.range' h tries ⊆ used.keys := by
    intro x hx
    obtain ⟨hle, hlt⟩ := List.mem_range'_1.1 hx
    have hx := hall (x - h) (by omega)
    rw [Nat.add_sub_cancel' hle] at hx
    by_contra hk
    rw [Table.contains, Table.get?_eq_none_iff.2 hk] at hx
    cases hx
  have hlen := (List.subperm_of_subset (List.nodup_range' ..) hsub).length_le
  rw [List.length_range', Table.keys, List.length_map] at hlen
  exact absurd hs (Nat.not_lt.2 hlen)

theorem le_firstFree (used : Table Handle Path) (tries : Nat) (h : Handle) :
    h ≤ firstFree used tries h := by
  induction tries generalizing h with
  | zero => exact Nat.le_refl _
  | succ n ih =>
    rw [firstFree]
    split
    · exact Nat.le_of_succ_le (ih (h + 1))
    · exact Nat.le_refl _

theorem pathOf?_allocate : r.pathOf? r.allocate.1 = none := get?_firstFree (Nat.lt_succ_self _) _

theorem Inverse.assign (hr : r.Inverse) (p : Path) : (r.assign p).2.Inverse := by
  unfold Registry.assign
  cases hp : r.handleOf? p with
  | some h => exact hr
  | none =>
    refine hr.insert (q := p) rfl (fun p' hp' => ?_) (fun h' hh' => ?_) _
    · rw [pathOf?_allocate] at hp'
      cases hp'
    · rw [hp] at hh'
      cases hh'

theorem Inverse.handleFor (hr : r.Inverse) (p : Path) : (r.handleFor p).2.Inverse := by
  unfold Registry.handleFor
  split
  · exact hr
  · exact hr.assign p

theorem unmap_eq_ok {h : Handle} {p : Path} {r' : Registry} (hu : r.unmap h p = .ok r') :
    (∃ q, r.pathOf? h = some q ∧ q.place = p.place) ∧ r' = r.removePairs [(p, h)] := by
  unfold unmap checkPair at hu
  cases hq : r.pathOf? h with
  | none => simp only [hq] at hu; cases hu
  | some q =>
    by_cases he : q.place = p.place
    · simp only [hq, if_pos he] at hu
      cases hu
      exact ⟨⟨q, rfl, he⟩, rfl⟩
    · simp only [hq, if_neg he] at hu
      cases hu

theorem Inverse.unmap (hr : r.Inverse) {h : Handle} {p : Path} {r' : Registry}
    (hu : r.unmap h p = .ok r') :
    r'.Inverse := by
  obtain ⟨hq, rfl⟩ := unmap_eq_ok hu
  refine hr.removePairs fun e he => ?_
  obtain rfl := List.mem_singleton.1 he
  exact (hr.handle_iff h p).2 hq

theorem Inverse.giveUp (hr : r.Inverse) (p : Path) :
    ∃ r', (match r.handleOf? p with | some h => r.unmap h p | none => .ok r) = .ok r' ∧ r'.Inverse ∧
      r'.next = r.next ∧ ∀ h q, r'.pathOf? h = some q ↔
      r.pathOf? h = some q ∧ q.place ≠ p.place := by
  cases ho : r.handleOf? p with
  | none =>
    refine ⟨r, rfl, hr, rfl, fun h q => ⟨fun hq => ⟨hq, fun he => ?_⟩, And.left⟩⟩
    rw [(hr.handle_iff h p).2 ⟨q, hq, he⟩] at ho
    cases ho
  | some owner =>
    obtain ⟨p', hp', he'⟩ := (hr.handle_iff owner p).1 ho
    have hu : r.unmap owner p = .ok (r.removePairs [(p, owner)]) := by
      simp only [Registry.unmap, checkPair, hp', if_pos he']
      rfl
    refine ⟨_, hu, hr.unmap hu, rfl, fun h q => ?_⟩
    rw [pathOf?_removePairs]
    by_cases hh : h = owner
    · subst hh
      simp only [List.map_cons, List.map_nil, List.mem_singleton, if_true, hp', Option.some.injEq,
        false_iff, not_and, ne_eq, Decidable.not_not, reduceCtorEq]
      rintro rfl
      exact he'
    · have hne : r.pathOf? h = some q → q.place ≠ p.place := fun hq he =>
        hh (hr.handle_unique hq hp' (he.trans he'.symm))
      simpa [hh] using hne

theorem Inverse.handleOf?_kept {r' : Registry} (hr : r.Inverse) (hr' : r'.Inverse) {p : Path}
    {h : Handle} (hk : ∀ q, r.pathOf? h = some q → q.place = p.place → r'.pathOf? h = some q)
    (hp : r.handleOf? p = some h) :
    r'.handleOf? p = some h := by
  obtain ⟨q, hq, hplace⟩ := (hr.handle_iff h p).1 hp
  exact (hr'.handle_iff h p).2 ⟨q, hk q hq hplace, hplace⟩

theorem handleOf?_handleFor {p q : Path} {h : Handle} (hp : r.handleOf? p = some h) :
    (r.handleFor q).2.handleOf? p = some h := by
  cases hq : r.handleOf? q with
  | some owner => simpa [Registry.handleFor, hq] using hp
  | none =>
    have hne : p.place ≠ q.place := fun he => by
      rw [Registry.handleOf?, he] at hp
      rw [Registry.handleOf?, hp] at hq
      cases hq
    simp only [Registry.handleFor, Registry.assign, hq]
    rw [Registry.handleOf?, Table.get?_insert_ne _ hne]
    exact hp

structure HandedOut (r : Registry) (p : Path) (h : Handle) : Prop where
  unnamed : r.handleOf? p = none
  free : r.pathOf? h = none
  mapped : (r.handleFor p).2.pathOf? h = some p
  fresh : r.next ≤ h
  issued : h < (r.handleFor p).2.next

theorem pathOf?_handleFor (r : Registry) (p : Path) (h : Handle) :
    (r.handleFor p).2.pathOf? h = r.pathOf? h ∨ r.HandedOut p h := by
  cases hp : r.handleOf? p with
  | some owner => exact .inl (by simp [handleFor, hp])
  | none =>
    by_cases hh : h = r.allocate.1
    · refine .inr ⟨hp, hh ▸ pathOf?_allocate, ?_, hh ▸ le_firstFree .., ?_⟩
      · simp [handleFor, assign, hp, pathOf?, hh]
      · simp only [handleFor, assign, hp]
        exact hh ▸ Nat.lt_succ_self _
    · refine .inl ?_
      simp only [handleFor, assign, hp, pathOf?]
      exact Table.get?_insert_ne _ hh _

theorem next_handleFor (r : Registry) (p : Path) : r.next ≤ (r.handleFor p).2.next := by
  cases hp : r.handleOf? p with
  | some owner => simp [handleFor, hp]
  | none =>
    simp only [handleFor, assign, hp]
    exact Nat.le_succ_of_le (le_firstFree ..)

theorem remap_eq_ok {h : Handle} {old new : Path} {r' : Registry}
    (hm : r.remap h old new = .ok r') :
    (∃ q, r.pathOf? h = some q ∧ q.place = old.place) ∧ (∀ h', r.handleOf? new = some h' → h' = h) ∧
      r' = { r with
        byPlace := (r.byPlace.erase old.place).insert new.place (new, h)
        byHandle := r.byHandle.insert h new } := by
  unfold remap checkPair at hm
  cases hq : r.pathOf? h with
  | none => simp only [hq] at hm; cases hm
  | some q =>
    by_cases he : q.place = old.place
    · simp only [hq, if_pos he] at hm
      refine ⟨⟨q, rfl, he⟩, ?_⟩
      cases ho : r.handleOf? new with
      | none =>
        simp only [ho] at hm
        cases hm
        exact ⟨by simp, rfl⟩
      | some owner =>
        by_cases hown : owner = h
        · simp only [ho, hown, ne_eq, not_true, if_false] at hm
          cases hm
          exact ⟨fun h' hh' => (Option.some.inj hh').symm.trans hown, rfl⟩
        · simp only [ho, ne_eq, hown, not_false_eq_true, if_true] at hm
          cases hm
    · simp only [hq, if_neg he] at hm
      cases hm

theorem Inverse.remap (hr : r.Inverse) {h : Handle} {old new : Path} {r' : Registry}
    (hm : r.remap h old new = .ok r') : r'.Inverse := by
  obtain ⟨hq, hown, rfl⟩ := remap_eq_ok hm
  have hr₁ : (r.removePairs [(old, h)]).Inverse := hr.removePairs fun e he => by
    obtain rfl := List.mem_singleton.1 he
    exact (hr.handle_iff h old).2 hq
  have hr₂ := hr₁.insert (h := h) (p := new) (q := new) rfl
    (fun p' hp' => by simp [pathOf?_removePairs] at hp')
    (fun h' hh' => hown h' ?_) r.next
  · refine hr₂.congr (fun k => rfl) fun h' => ?_
    change (r.byHandle.insert h new).get? h' = ((r.byHandle.erase h).insert h new).get? h'
    rw [Table.get?_insert, Table.get?_insert]
    split
    · rfl
    · next hne => rw [Table.get?_erase_ne _ hne]
  · obtain ⟨q, hq⟩ := handleOf?_eq_some_iff.1 hh'
    rw [get?_byPlace_removePairs] at hq
    split at hq
    · cases hq
    · exact handleOf?_eq_some_iff.2 ⟨q, hq⟩

theorem Inverse.remapTree (hr : r.Inverse) {h : Handle} {old new : Path} {r' : Registry}
    (hm : r.remapTree h old new = .ok r') : r'.Inverse := by
  obtain ⟨ht, -, hc, rfl⟩ := remapTree_eq_ok_iff.1 hm
  exact hr.shifted ht hc

theorem Inverse.moveTree_eq_ok (hr : r.Inverse) {source target : Path} {moved : Option Handle}
    {r' : Registry} (hm : r.moveTree source target = .ok (moved, r')) : r'.Inverse := by
  cases ht : target.strictlyWithin source with
  | true => rw [moveTree_of_strictlyWithin ht] at hm; cases hm
  | false =>
    rw [moveTree_eq ht] at hm
    cases hm
    exact hr.moveTree ht

/-- A pair is put in when both sides are free or hold it already. When it is refused, the handle's
side, which was written first, is as it was. -/
theorem enter_cases (r : Registry) (h : Handle) (p : Path) :
    (∃ e, r.enter h p = (.error e, r)) ∨
    ((∀ p', r.pathOf? h = some p' → p'.place = p.place) ∧ (∀ h', r.handleOf? p = some h' → h' = h) ∧
      r.enter h p = (.ok (), ⟨enterPlace r.byPlace p h, r.byHandle.insert h p,
        max r.next (min (h + 1) lastHandle)⟩)) := by
  have howner : ({ r with byHandle := r.byHandle.insert h p } : Registry).handleOf? p =
    r.handleOf? p := rfl
  have hfree : (r.handleOf? p).filter (fun owner => decide (owner ≠ h)) = none →
      ∀ h', r.handleOf? p = some h' → h' = h := by
    intro hn h' hh'
    simpa [hh'] using hn
  cases hq : r.pathOf? h with
  | none =>
    have hback := Table.erase_insert_of_get? (t := r.byHandle) hq p
    cases ho : (r.handleOf? p).filter fun owner => decide (owner ≠ h) with
    | some owner =>
      exact .inl
        ⟨.pathTaken p owner, by simp only [enter, hq, Option.filter_none, howner, ho, hback]⟩
    | none =>
      exact .inr ⟨by simp, hfree ho, by simp only [enter, hq, Option.filter_none, howner, ho]⟩
  | some existing =>
    have hback := Table.insert_insert_of_get? (t := r.byHandle) hq p
    by_cases hne : existing.place = p.place
    · have hsame : (some existing).filter (fun q => decide (q.place ≠ p.place)) =
        none := by simp [hne]
      cases ho : (r.handleOf? p).filter fun owner => decide (owner ≠ h) with
      | some owner =>
        exact .inl ⟨.pathTaken p owner, by simp only [enter, hq, hsame, howner, ho, hback]⟩
      | none =>
        refine .inr ⟨fun p' hp' => ?_, hfree ho, by simp only [enter, hq, hsame, howner, ho]⟩
        rw [← Option.some.inj hp', hne]
    · have hother : (some existing).filter (fun q => decide (q.place ≠ p.place)) =
          some existing := by
        simp [hne]
      exact .inl ⟨.alreadyMapped h existing, by simp only [enter, hq, hother, hback]⟩

theorem enter_eq_error {h : Handle} {p : Path} {e : Error} (he : (r.enter h p).1 = .error e) :
    (r.enter h p).2 = r := by
  rcases enter_cases r h p with ⟨e', hr⟩ | ⟨-, -, hr⟩
  · rw [hr]
  · rw [hr] at he
    cases he

theorem Inverse.afterEnter (hr : r.Inverse) (h : Handle) (p : Path) : (r.enter h p).2.Inverse := by
  rcases enter_cases r h p with ⟨e, he⟩ | ⟨hh, hp, he⟩
  · rwa [he]
  · rw [he]
    exact hr.enter hh hp _

theorem map_eq_ok {h : Handle} {p : Path} {r' : Registry} (hm : r.map h p = .ok r') :
    r.enter h p = (.ok (), r') := by
  unfold Registry.map at hm
  rcases he : r.enter h p with ⟨e | ⟨⟩, entered⟩ <;> rw [he] at hm
  · cases hm
  · exact congrArg (Prod.mk (Except.ok ())) (Except.ok.inj hm)

theorem establishRoot_empty {mountPoint : Path} (hm : empty.establishRoot mountPoint = .ok r) :
    r.Inverse ∧ r.next = rootHandle + 1 ∧ ∀ h p, r.pathOf? h = some p ↔
      h = rootHandle ∧ p = mountPoint := by
  have hentered := map_eq_ok hm
  have hinverse := inverse_empty.afterEnter rootHandle mountPoint
  rcases enter_cases empty rootHandle mountPoint with ⟨e, he⟩ | ⟨-, -, he⟩
    <;> rw [hentered] at he hinverse
  · cases he
  · obtain rfl := (Prod.mk.inj he).2
    refine ⟨hinverse, rfl, fun h p => ?_⟩
    simp only [pathOf?, empty, Table.get?_insert, Table.get?_empty]
    split <;> simp_all [eq_comm]

/-! ## Calls and their sections -/

inductive Call
  | establishRoot (mountPoint : Path)
  | allocate
  | map (handle : Handle) (path : Path)
  | handleFor (path : Path)
  | unmap (handle : Handle) (path : Path)
  | remap (handle : Handle) (old new : Path)
  | remapTree (handle : Handle) (old new : Path)
  | checkMove (source target : Path)
  | moveTree (source target : Path)
deriving DecidableEq, Repr

abbrev Answer := Except Error (Option Handle)

/-- The registry with callers who have looked for the handle of a path, found none, and will be
back. -/
structure Shared where
  registry : Registry
  waiting : List Path

inductive Section
  | first (call : Call)
  | second (position : Nat)

namespace Shared

def empty : Shared := ⟨.empty, []⟩

def put (s : Shared) (registry : Registry) : Shared := { s with registry }

def conclude (s : Shared) (handle : Option Handle) (outcome : Except Error Registry) :
    Option Answer × Shared :=
  match outcome with
  | .ok registry => (some (.ok handle), s.put registry)
  | .error e => (some (.error e), s)

/-- One critical section. A first section that has no answer yet leaves its caller waiting. -/
def step (s : Shared) : Section → Option Answer × Shared
  | .first (.establishRoot p) =>
    let (answer, r) := s.registry.enter rootHandle p
    (some (answer.map fun _ => some rootHandle), s.put r)
  | .first .allocate =>
    let (h, r) := s.registry.allocate
    (some (.ok (some h)), s.put r)
  | .first (.map h p) =>
    let (answer, r) := s.registry.enter h p
    (some (answer.map fun _ => none), s.put r)
  | .first (.handleFor p) =>
    match s.registry.handleOf? p with
    | some h => (some (.ok (some h)), s)
    | none => (none, { s with waiting := s.waiting ++ [p] })
  | .first (.unmap h p) => s.conclude none (s.registry.unmap h p)
  | .first (.remap h old new) => s.conclude none (s.registry.remap h old new)
  | .first (.remapTree h old new) => s.conclude none (s.registry.remapTree h old new)
  | .first (.checkMove source target) =>
    s.conclude none ((s.registry.checkMove source target).map fun _ => s.registry)
  | .first (.moveTree source target) =>
    match s.registry.moveTree source target with
    | .ok (h, r) => (some (.ok h), s.put r)
    | .error e => (some (.error e), s)
  | .second position =>
    match s.waiting[position]? with
    | none => (none, s)
    | some p =>
      let (h, r) := s.registry.assign p
      (some (.ok (some h)), ⟨r, s.waiting.eraseIdx position⟩)

def run (s : Shared) (sections : List Section) : Shared :=
  sections.foldl (fun s c => (s.step c).2) s

end Shared

theorem Inverse.conclude {s : Shared} (hs : s.registry.Inverse) (h : Option Handle)
    {outcome : Except Error Registry} (ho : ∀ r, outcome = .ok r → r.Inverse) :
    (s.conclude h outcome).2.registry.Inverse := by
  cases outcome with
  | ok r => exact ho r rfl
  | error e => exact hs

theorem Inverse.step {s : Shared} (hs : s.registry.Inverse) (c : Section) :
    (s.step c).2.registry.Inverse := by
  cases c with
  | first call =>
    cases call with
    | establishRoot p => exact hs.afterEnter rootHandle p
    | allocate => exact hs.congr (fun _ => rfl) fun _ => rfl
    | map h p => exact hs.afterEnter h p
    | handleFor p =>
      simp only [Shared.step]
      split <;> exact hs
    | unmap h p => exact hs.conclude none fun r hr => hs.unmap hr
    | remap h old new => exact hs.conclude none fun r hr => hs.remap hr
    | remapTree h old new => exact hs.conclude none fun r hr => hs.remapTree hr
    | checkMove source target =>
      refine hs.conclude none fun r hr => ?_
      cases hc : s.registry.checkMove source target with
      | ok _ => rw [hc] at hr; cases hr; exact hs
      | error e => rw [hc] at hr; cases hr
    | moveTree source target =>
      simp only [Shared.step]
      cases hm : s.registry.moveTree source target with
      | ok m => exact hs.moveTree_eq_ok hm
      | error e => exact hs
  | second position =>
    simp only [Shared.step]
    split
    · exact hs
    · exact hs.assign _

theorem Inverse.run {s : Shared} (hs : s.registry.Inverse) (sections : List Section) :
    (s.run sections).registry.Inverse := by
  induction sections generalizing s with
  | nil => exact hs
  | cons c sections ih => exact ih (hs.step c)

theorem conclude_eq_error {s : Shared} {h : Option Handle} {outcome : Except Error Registry}
    {e : Error} (he : (s.conclude h outcome).1 = some (.error e)) :
    (s.conclude h outcome).2 = s := by
  cases outcome with
  | ok r => cases he
  | error e' => rfl

theorem step_eq_error {s : Shared} {c : Section} {e : Error} (he : (s.step c).1 = some (.error e)) :
    (s.step c).2 = s := by
  have henter : ∀ (h : Handle) (p : Path) (a : Option Handle),
      (some ((s.registry.enter h p).1.map fun _ => a) : Option Answer) = some (.error e) →
      s.put (s.registry.enter h p).2 = s := by
    intro h p a ha
    cases hm : (s.registry.enter h p).1 with
    | ok _ => rw [hm] at ha; cases ha
    | error e' => rw [enter_eq_error hm]; rfl
  cases c with
  | first call =>
    cases call with
    | establishRoot p => exact henter _ _ _ he
    | allocate => cases he
    | map h p => exact henter _ _ _ he
    | handleFor p =>
      simp only [Shared.step] at he
      split at he <;> cases he
    | unmap h p => exact conclude_eq_error he
    | remap h old new => exact conclude_eq_error he
    | remapTree h old new => exact conclude_eq_error he
    | checkMove source target => exact conclude_eq_error he
    | moveTree source target =>
      simp only [Shared.step] at he ⊢
      split at he
      · cases he
      · rfl
  | second position =>
    simp only [Shared.step] at he
    split at he <;> cases he

theorem handleFor_eq_sections (s : Shared) (p : Path) (h : s.registry.handleOf? p = none) :
    ((s.step (.first (.handleFor p))).2.step (.second s.waiting.length)).2 =
      s.put (s.registry.handleFor p).2 := by
  simp [Shared.step, h, handleFor, Shared.put, List.eraseIdx_append_of_length_le]

/-- After every critical section of every interleaving the tables are inverse to each other, and
whichever section comes next, a failure changes nothing. -/
theorem tables_inverse_failures_inert (sections : List Section) :
    let s := Shared.empty.run sections
    (∀ h p, s.registry.handleOf? p = some h ↔ ∃ q,
      s.registry.pathOf? h = some q ∧ q.place = p.place) ∧
    s.registry.byPlace.size = s.registry.byHandle.size ∧
    ∀ c e, (s.step c).1 = some (.error e) → (s.step c).2 = s := by
  intro s
  have hs : s.registry.Inverse := inverse_empty.run sections
  exact ⟨hs.handle_iff, hs.size_eq, fun c e he => step_eq_error he⟩

end StoreMount.Registry
