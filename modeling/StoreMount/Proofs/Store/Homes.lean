import StoreMount.Proofs.Store.Tree

/-!
# Homes without a parent

A store is a tree when every object but the root collection has an existing collection as its
parent. That is being rooted with nothing at the empty place, and whatever goes through a check of
the parent keeps it: everything a session does, and administration, moves and removals by
administrators included. The one way out is a new account. It gets a home below the home collection
of the zone, and nobody looks whether that is still there. So the states of a run are all trees
exactly when the home collection stands whenever a home is made.
-/
namespace StoreMount.Store

variable {s s' : Store}

def Tree (s : Store) : Prop :=
  ∀ k o, s.objects.get? k = some o → k ≠ [.root] →
    ∃ up o', k.parent? = some up ∧ s.objects.get? up = some o' ∧ o'.kind.isCollection = true

theorem parent?_ne_none {k : Place} (hk : k ≠ []) (hroot : k ≠ [.root]) : k.parent? ≠ none := by
  unfold Place.parent?
  split
  · exact absurd rfl hk
  · exact absurd rfl hroot
  · exact Option.some_ne_none _

theorem tree_iff : s.Tree ↔ s.Rooted ∧ s.objects.get? [] = none := by
  constructor
  · intro h
    refine ⟨fun k o up ho hup => ?_, ?_⟩
    · have hroot : k ≠ [.root] := by
        rintro rfl
        cases hup
      obtain ⟨up', o', hup', ho', hc⟩ := h k o ho hroot
      obtain rfl : up' = up := Option.some.inj (hup'.symm.trans hup)
      exact ⟨o', ho', hc⟩
    · rw [Option.eq_none_iff_forall_ne_some]
      intro o ho
      obtain ⟨up, -, hup, -⟩ := h [] o ho (by simp)
      cases hup
  · rintro ⟨hs, hempty⟩ k o ho hroot
    have hk : k ≠ [] := by
      rintro rfl
      rw [hempty] at ho
      cases ho
    obtain ⟨up, hup⟩ := Option.ne_none_iff_exists'.1 (parent?_ne_none hk hroot)
    obtain ⟨o', ho', hc⟩ := hs k o up ho hup
    exact ⟨up, o', hup, ho', hc⟩

instance (s : Store) : Decidable s.Tree := decidable_of_iff _ tree_iff.symm

/-! ## What keeps the tree -/

theorem Tree.of_standing (h : s.Tree) (hs : s'.Rooted)
    (he : s'.standing? [] = s.standing? []) : s'.Tree := by
  obtain ⟨-, hempty⟩ := tree_iff.1 h
  rw [← standing?_eq_none_iff, ← he, standing?_eq_none_iff] at hempty
  exact tree_iff.2 ⟨hs, hempty⟩

theorem Tree.inserted {k : Place} (h : s.Tree) (hv : s.Vacant k) (kind : ObjectKind)
    (owner : String) (contents : Contents) :
    (s.insertObject k kind owner contents).Tree := by
  have hne : [] ≠ k := by
    rintro rfl
    obtain ⟨up, -, hup, -⟩ := hv.home
    cases hup
  exact h.of_standing ((tree_iff.1 h).1.inserted hv kind owner contents)
    (by rw [standing?_insertObject, if_neg hne])

theorem Tree.inserted_iff {k up : Place} (h : s.Tree) (hfree : s.objects.get? k = none)
    (hup : k.parent? = some up) (kind : ObjectKind) (owner : String) (contents : Contents) :
    (s.insertObject k kind owner contents).Tree ↔
      ∃ o, s.objects.get? up = some o ∧ o.kind.isCollection = true := by
  constructor
  · intro ht
    have hroot : k ≠ [.root] := by
      rintro rfl
      cases hup
    obtain ⟨up', o', hup', ho', hk⟩ :=
      ht k _ (by rw [get?_insertObject, if_pos rfl, Option.map_some]) hroot
    obtain rfl : up' = up := Option.some.inj (hup'.symm.trans hup)
    have hne : up' ≠ k := by
      obtain ⟨c, rfl⟩ := Place.parent?_eq_some hup
      simp
    rw [get?_insertObject, if_neg hne] at ho'
    obtain ⟨o, ho, rfl⟩ := Option.map_eq_some_iff.1 ho'
    exact ⟨o, ho, by simpa using hk⟩
  · rintro ⟨o, ho, hk⟩
    exact h.inserted ⟨hfree, up, o, hup, ho, hk⟩ kind owner contents

theorem Tree.effect (h : s.Tree) (he : s.Effect s') : s'.Tree := by
  have hs := (tree_iff.1 h).1
  have hs' := hs.effect he
  cases he with
  | rewritten place contents => exact h.of_standing hs' (standing?_rewritten ..)
  | regranted place f => exact h.of_standing hs' (standing?_changeAcl ..)
  | inserted path kind owner contents vacant => exact h.inserted vacant kind owner contents
  | removed place childless =>
    refine tree_iff.2 ⟨hs', standing?_eq_none_iff.1 ?_⟩
    rw [standing?_removed, standing?_eq_none_iff.2 (tree_iff.1 h).2, ite_self]
  | renamed source target movable =>
    have hout : ∀ {p : Place}, p ≠ [] → ¬p <+: [] := fun hp hpre => hp (List.prefix_nil.1 hpre)
    refine h.of_standing hs' ?_
    rw [movable.standing?_renamed_else hs (hout movable.target_ne_nil),
      if_neg (hout movable.source_ne_nil)]

/-! ## New accounts -/

/-- If an account gets a home now, the home collection of the zone is there to hold it. -/
def Housed (s : Store) (name : String) (type : UserType) : Prop :=
  type ≠ .group → s.object? (homeOf s.zone name) = none →
    ∃ o, s.object? ((Path.zoneRoot s.zone).child "home") = some o ∧ o.kind.isCollection = true

theorem parent?_homeOf (zone : String) {name : String} (hn : Spelling.Plain name) :
    (homeOf zone name).place.parent? = some ((Path.zoneRoot zone).child "home").place := by
  rw [homeOf, Path.place_child hn]
  exact Place.parent?_append_singleton (.inr (by simp))

theorem Tree.addUser_iff {name : String} (h : s.Tree) (hn : Spelling.Plain name) (type : UserType) :
    (s.addUser name type).Tree ↔ s.Housed name type := by
  have husers : Tree { s with users := s.users.insert name ⟨type, [], []⟩ } := h
  unfold addUser
  split
  · next hg => exact iff_of_true husers fun hne => absurd hg hne
  · next hg =>
    dsimp only
    split
    · next hc =>
      refine iff_of_true husers fun _ hnone => ?_
      rw [Table.contains, show s.objects.get? (homeOf s.zone name).place = none from hnone] at hc
      cases hc
    · next hc =>
      have hfree : s.objects.get? (homeOf s.zone name).place = none :=
        Option.not_isSome_iff_eq_none.1 hc
      exact (husers.inserted_iff hfree (parent?_homeOf s.zone hn) ..).trans
        ⟨fun ho _ _ => ho, fun hh => hh hg hfree⟩

/-! ## Runs -/

/-- Accounts and groups are named by one plain component of a path. -/
def Change.Plain : Change → Prop
  | .addUser name _ | .addGroup name _ => Spelling.Plain name
  | _ => True

def attempt (s : Store) (change : Change) : Store := ((s.apply change).toOption).getD s

def after (s : Store) (changes : List Change) : Store := changes.foldl attempt s

theorem attempt_cases (s : Store) (change : Change) :
    s.attempt change = s ∨ s.apply change = .ok (s.attempt change) := by
  unfold attempt
  cases h : s.apply change with
  | error e => exact .inl rfl
  | ok s' => exact .inr rfl

theorem Tree.attempt_iff (h : s.Tree) {change : Change} (hplain : change.Plain) :
    (s.attempt change).Tree ↔ ∀ name type, change = .addUser name type → s.Housed name type := by
  by_cases hc : ∀ name type, change ≠ .addUser name type
  · refine iff_of_true ?_ fun name type he => absurd he (hc name type)
    obtain he | ha := attempt_cases s change
    · exact he.symm ▸ h
    · obtain he | ⟨users, he⟩ := effect_of_apply hc ha
      · exact h.effect he
      · exact he.symm ▸ h
  · push Not at hc
    obtain ⟨name, type, rfl⟩ := hc
    refine (h.addUser_iff hplain type).trans ⟨fun hh _ _ he => ?_, fun hh => hh name type rfl⟩
    cases he
    exact hh

theorem Tree.after_iff (h : s.Tree) {changes : List Change}
    (hplain : ∀ change ∈ changes, change.Plain) :
    (∀ before, before <+: changes → (s.after before).Tree) ↔
      ∀ before name type, before ++ [.addUser name type] <+: changes →
      (s.after before).Housed name type := by
  induction changes generalizing s with
  | nil => simpa [after] using h
  | cons change changes ih =>
    obtain ⟨hfirst, hrest⟩ := List.forall_mem_cons.1 hplain
    have hstep := h.attempt_iff hfirst
    constructor
    · intro ht before name type hpre
      have hnext : (s.attempt change).Tree := ht [change] (by simp)
      cases before with
      | nil => exact hstep.1 hnext name type (List.cons_prefix_cons.1 hpre).1.symm
      | cons first before =>
        obtain ⟨rfl, hrestpre⟩ := List.cons_prefix_cons.1 hpre
        refine (ih hnext hrest).1 (fun before hb => ?_) before name type hrestpre
        exact ht (first :: before) (List.cons_prefix_cons.2 ⟨rfl, hb⟩)
    · intro hh before hpre
      have hnext : (s.attempt change).Tree :=
        hstep.2 fun name type he => hh [] name type (by simp [he])
      cases before with
      | nil => exact h
      | cons first before =>
        obtain ⟨rfl, hrestpre⟩ := List.cons_prefix_cons.1 hpre
        refine (ih hnext hrest).2 (fun before name type hb => ?_) before hrestpre
        exact hh (first :: before) name type (List.cons_prefix_cons.2 ⟨rfl, hb⟩)

/-! ## New stores -/

theorem standardPlaces_eq {zone : String} (hz : Spelling.Plain zone) : standardPlaces zone =
    [[.root], [.root, .name zone], [.root, .name zone, .name "home"],
      [.root, .name zone, .name "public"],
      [.root, .name zone, .name "trash"]] := by
  have hroot : (Path.zoneRoot zone).place = [.root, .name zone] := by
    rw [show Path.zoneRoot zone = Path.slash.child zone from rfl, Path.place_child hz,
      Path.place_slash]
    rfl
  have hchild : ∀ name ∈ ["home", "public", "trash"], ∀ base : Path,
      (base.child name).place = base.place ++ [.name name] := by
    intro name hn
    refine Path.place_child (Spelling.plain_of_ordinary ?_)
    revert name
    decide +kernel
  simp [standardPlaces, hroot, Path.place_slash, hchild]

theorem standing?_foldl_insertObject (admin : String) (places : List Place)
    (s : Store) (k : Place) :
    (k ∉ places → (places.foldl (fun s place => s.insertObject place .collection admin .empty)
      s).standing? k = s.standing? k) ∧
    (k ∈ places → ∃ i,
      (places.foldl (fun s place => s.insertObject place .collection admin .empty) s).standing? k =
      some (i, .collection)) := by
  induction places generalizing s with
  | nil => simp
  | cons place places ih =>
    obtain ⟨helse, hthere⟩ := ih (s.insertObject place .collection admin .empty)
    refine ⟨fun hk => ?_, fun hk => ?_⟩
    · obtain ⟨hne, hk⟩ := not_or.1 (mt List.mem_cons.2 hk)
      rw [List.foldl_cons, helse hk, standing?_insertObject, if_neg hne]
    · rw [List.foldl_cons]
      by_cases hmem : k ∈ places
      · exact hthere hmem
      · obtain rfl := (List.mem_cons.1 hk).resolve_right hmem
        exact ⟨s.nextId, by rw [helse hmem, standing?_insertObject, if_pos rfl]⟩

theorem tree_new {zone : String} (hz : Spelling.Plain zone) (admin : String) :
    (Store.new zone admin).Tree := by
  have hnew := standing?_foldl_insertObject admin (standardPlaces zone) (Store.empty zone admin)
  intro k o ho hroot
  have hk : k ∈ standardPlaces zone := by
    by_contra hk
    have hnone : (Store.new zone admin).standing? k = none := (hnew k).1 hk
    rw [standing?_eq_none_iff, ho] at hnone
    cases hnone
  -- the parent of a standard place is another one
  have hup : ∃ up ∈ standardPlaces zone, k.parent? = some up := by
    rw [standardPlaces_eq hz] at hk ⊢
    simp only [List.mem_cons, List.not_mem_nil, or_false, hroot, false_or] at hk
    obtain rfl | rfl | rfl | rfl := hk <;> simp [Place.parent?]
  obtain ⟨up, hmem, hup⟩ := hup
  obtain ⟨i, hi⟩ := (hnew up).2 hmem
  obtain ⟨o', ho', -, hkind⟩ := standing?_eq_some_iff.1 hi
  exact ⟨up, o', hup, ho', by rw [hkind]; rfl⟩

/-- From a new zone on, the states of a run are all trees exactly when the home collection stands
whenever a home is made. -/
theorem tree_iff_housed {zone : String} (hz : Spelling.Plain zone) (admin : String)
    {changes : List Change} (hplain : ∀ change ∈ changes, change.Plain) :
    (∀ before, before <+: changes → ((Store.new zone admin).after before).Tree) ↔
      ∀ before name type, before ++ [.addUser name type] <+: changes →
      ((Store.new zone admin).after before).Housed name type :=
  (tree_new hz admin).after_iff hplain

theorem plain_z : Spelling.Plain "z" := Spelling.plain_of_ordinary (by decide +kernel)

theorem plain_alice : Spelling.Plain "alice" := Spelling.plain_of_ordinary (by decide +kernel)

def rebuilding : List Change :=
  [.remove "rods" ⟨"/z/home"⟩, .createCollection "rods" ⟨"/z/home"⟩, .addUser "alice" .regular]

theorem tree_through_rebuilding :
    Spelling.Plain "z" ∧ (∀ change ∈ rebuilding, change.Plain) ∧
      ∀ before, before <+: rebuilding → ((Store.new "z" "rods").after before).Tree := by
  have hplain : ∀ change ∈ rebuilding, change.Plain := by
    simp [rebuilding, Change.Plain, plain_alice]
  refine ⟨plain_z, hplain,
    (tree_iff_housed plain_z "rods" hplain).2 fun before name type hpre => ?_⟩
  have hrebuilt : (((Store.new "z" "rods").after
      [.remove "rods" ⟨"/z/home"⟩, .createCollection "rods" ⟨"/z/home"⟩]).object?
      ((Path.zoneRoot "z").child "home")).any (·.kind.isCollection) = true := by decide +kernel
  -- the account is the last of the three changes
  match before, hpre with
  | [], hpre => simp [rebuilding] at hpre
  | [_], hpre => simp [rebuilding] at hpre
  | [_, _], hpre =>
    obtain ⟨rfl, rfl, -⟩ : _ ∧ _ ∧ _ := by simpa [rebuilding] using hpre
    intro _ _
    obtain ⟨o, ho, hk⟩ := (Option.any_eq_true _ _).1 hrebuilt
    exact ⟨o, ho, hk⟩
  | _ :: _ :: _ :: _, hpre => simp [rebuilding] at hpre

theorem home_without_parent :
    ¬∀ (zone admin : String) (changes : List Change), Spelling.Plain zone →
      (∀ change ∈ changes, change.Plain) →
      ((Store.new zone admin).after changes).Tree := by
  intro h
  have htree := h "z" "rods" [.remove "rods" ⟨"/z/home"⟩, .addUser "alice" .regular] plain_z
    (by simp [Change.Plain, plain_alice])
  revert htree
  decide +kernel

end StoreMount.Store
