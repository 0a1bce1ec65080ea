import StoreMount.Proofs.Permission

/-!
# What a list becomes when it is replaced

What has to be revoked and granted is found by comparing whole entries, but it is carried out by
subject. If the new list asks for each subject once, this comes out even: nothing that is to stay is
revoked with something else, no grant displaces another, and what is then there is the new list, up
to the entries of the owner. If a subject is asked for twice, with two entries, then only one of
them can be there, and the other one is granted in its place the next time. Either way nothing is
left to be revoked.
-/
namespace StoreMount

variable {acl : AccessList} {granted revoked incoming : List PermissionEntry}
    {e g : PermissionEntry} {owner : String}

namespace AccessList

theorem mem_grants (h : Separate granted) :
    e ∈ granted.foldl grant acl ↔ e ∈ granted ∨ e ∈ acl ∧ ∀ g ∈ granted,
      e.sameSubject g = false := by
  induction granted generalizing acl with
  | nil => simp
  | cons g granted ih =>
    obtain ⟨hfirst, hrest⟩ := List.nodup_cons.1 h
    have hother : ∀ g' ∈ granted, g.sameSubject g' = false := fun g' hg' => by
      by_contra hsame
      have hkey := PermissionEntry.sameSubject_iff.1 (eq_true_of_ne_false hsame)
      exact hfirst (List.mem_map.2 ⟨g', hg', Prod.ext hkey.1.symm hkey.2.symm⟩)
    rw [List.foldl_cons, ih hrest, mem_grant, List.mem_cons, List.forall_mem_cons]
    constructor
    · rintro (he | ⟨⟨he, hg⟩ | rfl, hlater⟩)
      · exact .inl (.inr he)
      · exact .inr ⟨he, hg, hlater⟩
      · exact .inl (.inl rfl)
    · rintro ((rfl | he) | ⟨he, hg, hlater⟩)
      · exact .inr ⟨.inr rfl, hother⟩
      · exact .inl he
      · exact .inr ⟨.inl ⟨he, hg⟩, hlater⟩

theorem granted_in_place (h : g ∈ granted) :
    ∃ g' ∈ granted, g' ∈ granted.foldl grant acl ∧ g.sameSubject g' = true := by
  induction granted generalizing acl with
  | nil => cases h
  | cons first granted ih =>
    rcases List.mem_cons.1 h with rfl | h
    · have hgiven : g ∈ acl.grant g := mem_grant.2 (.inr rfl)
      rw [List.foldl_cons]
      rcases stays_or_granted hgiven with hstays | ⟨g', hg', hin, hsame⟩
      · exact ⟨g, List.mem_cons_self, hstays, PermissionEntry.sameSubject_iff.2 ⟨rfl, rfl⟩⟩
      · exact ⟨g', List.mem_cons_of_mem _ hg', hin, hsame⟩
    · obtain ⟨g', hg', hplace⟩ : ∃ g' ∈ granted, g' ∈ granted.foldl grant (acl.grant first) ∧
        g.sameSubject g' = true := ih h
      exact ⟨g', List.mem_cons_of_mem _ hg', hplace⟩

theorem mem_edit (h : Separate granted) : e ∈ acl.edit revoked granted ↔
    e ∈ granted ∨ e ∈ acl ∧ (∀ r ∈ revoked, e.sameSubject r = false) ∧ ∀ g ∈ granted,
      e.sameSubject g = false := by
  rw [edit, mem_grants h, mem_revokes, and_assoc]

end AccessList

namespace AclChange

/-- What may be granted: all that is asked for but individual entries that would take the owner
below own. -/
def grantable (incoming : List PermissionEntry) (owner : String) : List PermissionEntry :=
  incoming.filter fun e => !decide (e.name = owner ∧ e.kind = .individual ∧ e.level < .own)

/-- The list once the change to a new one has been made. -/
def replaced (acl : AccessList) (incoming : List PermissionEntry) (owner : String) : AccessList :=
  acl.edit (between acl incoming owner).removed (between acl incoming owner).added

theorem mem_grantable : e ∈ grantable incoming owner ↔
    e ∈ incoming ∧ ¬(e.name = owner ∧ e.kind = .individual ∧ e.level < .own) := by
  simp only [grantable, List.mem_filter, Bool.not_eq_true', decide_eq_false_iff_not]

theorem mem_added_iff : e ∈ (between acl incoming owner).added ↔
      e ∈ grantable incoming owner ∧ e ∉ acl := by
  rw [mem_added, mem_grantable, and_assoc, and_congr_right_iff]
  exact fun _ => and_comm

theorem between_self (acl : AccessList) (owner : String) : between acl acl owner = ⟨[], []⟩ := by
  have hadded : (between acl acl owner).added = [] :=
    List.eq_nil_iff_forall_not_mem.2 fun e he => (mem_added.1 he).2.1 (mem_added.1 he).1
  have hremoved : (between acl acl owner).removed = [] :=
    List.eq_nil_iff_forall_not_mem.2 fun e he => (mem_removed.1 he).2.1 (mem_removed.1 he).1
  exact congrArg₂ AclChange.mk hadded hremoved

theorem replaced_self (acl : AccessList) (owner : String) : replaced acl acl owner = acl := by
  rw [replaced, between_self]
  rfl

theorem not_revoked (hs : acl.Separate) (he : e ∈ acl)
    (hstays : e ∈ incoming ∨ e.name = owner ∧ e.level = .own) :
    ∀ r ∈ (between acl incoming owner).removed, e.sameSubject r = false := fun r hr => by
  obtain ⟨hracl, hrin, hrown⟩ := mem_removed.1 hr
  by_contra hsame
  obtain rfl := hs.eq he hracl (eq_true_of_ne_false hsame)
  exact hstays.elim hrin hrown

theorem of_mem_replaced (h : e ∈ replaced acl incoming owner) :
    e ∈ (between acl incoming owner).added ∨ e ∈ acl ∧
      (e ∈ incoming ∨ e.name = owner ∧ e.level = .own) := by
  rcases AccessList.mem_of_mem_grants h with h | h
  · obtain ⟨he, hkept⟩ := AccessList.mem_revokes.1 h
    refine .inr ⟨he, ?_⟩
    by_contra hgone
    obtain ⟨hin, hown⟩ := not_or.1 hgone
    have hsame := hkept e (mem_removed.2 ⟨he, hin, hown⟩)
    rw [PermissionEntry.sameSubject_iff.2 ⟨rfl, rfl⟩] at hsame
    cases hsame
  · exact .inl h

/-! ## Each subject once -/

section Once
variable (hnames : (incoming.map PermissionEntry.name).Nodup)
include hnames

theorem separate_added : AccessList.Separate (between acl incoming owner).added := by
  have hpairs : AccessList.Separate incoming := List.Nodup.of_map Prod.fst (by rwa [List.map_map])
  exact hpairs.sublist (List.filter_sublist.map _)

theorem eq_of_asked (he : e ∈ incoming) (hg : g ∈ incoming)
    (hsame : e.sameSubject g = true) : e = g :=
  List.inj_on_of_nodup_map hnames he hg (PermissionEntry.sameSubject_iff.1 hsame).1

variable (hs : acl.Separate)
include hs

theorem mem_replaced_of_stays (he : e ∈ acl)
    (hstays : e ∈ incoming ∨ e.name = owner ∧ e.level = .own)
    (hgrants : ∀ g ∈ (between acl incoming owner).added, e.sameSubject g = true → e = g) :
    e ∈ replaced acl incoming owner := by
  refine (AccessList.mem_edit (separate_added hnames)).2
    (.inr ⟨he, not_revoked hs he hstays, fun g hg => ?_⟩)
  by_contra hsame
  obtain rfl := hgrants g hg (eq_true_of_ne_false hsame)
  exact (mem_added.1 hg).2.1 he

theorem mem_replaced_of_ne (hne : e.name ≠ owner) : e ∈ replaced acl incoming owner ↔
      e ∈ incoming := by
  constructor
  · intro h
    rcases of_mem_replaced h with h | ⟨-, h | h⟩
    · exact (mem_added.1 h).1
    · exact h
    · exact absurd h.1 hne
  · intro h
    by_cases he : e ∈ acl
    · exact mem_replaced_of_stays hnames hs he (.inl h) fun g hg =>
        eq_of_asked hnames h (mem_added.1 hg).1
    · exact (AccessList.mem_edit (separate_added hnames)).2
        (.inl (mem_added.2 ⟨h, he, fun hown => hne hown.1⟩))

theorem mem_replaced_of_eq (hgroup : ∀ e ∈ acl, e.name = owner → e.kind = .individual)
    (hasked : ∀ e ∈ incoming, e.name = owner → e.kind = .individual) (heq : e.name = owner) :
    e ∈ replaced acl incoming owner ↔ e ∈ acl ∧ e.level = .own ∨ e ∈ incoming ∧
      (e.level = .own ∨ e ∈ acl) := by
  have hown : ∀ g ∈ (between acl incoming owner).added, g.name = owner → g.level = .own :=
      fun g hg hname => by
    obtain ⟨hin, -, hbelow⟩ := mem_added.1 hg
    have hnot := fun h => hbelow ⟨hname, hasked g hin hname, h⟩
    cases hl : g.level with
    | own => rfl
    | read => exact absurd (hl ▸ by decide) hnot
    | write => exact absurd (hl ▸ by decide) hnot
  constructor
  · intro h
    rcases of_mem_replaced h with h | ⟨he, h | h⟩
    · exact .inr ⟨(mem_added.1 h).1, .inl (hown e h heq)⟩
    · exact .inr ⟨h, .inr he⟩
    · exact .inl ⟨he, h.2⟩
  · intro h
    by_cases he : e ∈ acl
    · by_cases hin : e ∈ incoming
      · exact mem_replaced_of_stays hnames hs he (.inl hin) fun g hg =>
          eq_of_asked hnames hin (mem_added.1 hg).1
      · have hlevel : e.level = .own := (h.resolve_right fun h => hin h.1).2
        refine mem_replaced_of_stays hnames hs he (.inr ⟨heq, hlevel⟩) fun g hg hsame => ?_
        -- what is granted to the owner has level own as well, so it is the same entry
        obtain ⟨hname, hzone⟩ := PermissionEntry.sameSubject_iff.1 hsame
        have hg' := hown g hg (hname.symm.trans heq)
        have hkind :=
          (hgroup e he heq).trans (hasked g (mem_added.1 hg).1 (hname.symm.trans heq)).symm
        obtain ⟨name, kind, zone, level⟩ := e
        obtain ⟨name', kind', zone', level'⟩ := g
        simp only at hname hzone hg' hkind hlevel
        rw [hname, hzone, hkind, hlevel, hg']
    · obtain ⟨hin, hlevel⟩ := h.resolve_left fun h => he h.1
      have hlevel : e.level = .own := hlevel.resolve_right he
      refine (AccessList.mem_edit (separate_added hnames)).2
        (.inl (mem_added.2 ⟨hin, he, fun hbelow => ?_⟩))
      rw [hlevel] at hbelow
      exact absurd hbelow.2.2 (by decide)

end Once

/-! ## The same list again -/

/-- No subject is asked for with two different entries. -/
def Agreed (incoming : List PermissionEntry) (owner : String) : Prop :=
  ∀ e ∈ grantable incoming owner, ∀ e' ∈ grantable incoming owner, e.sameSubject e' = true → e = e'

theorem removed_again : (between (replaced acl incoming owner) incoming owner).removed = [] := by
  refine List.eq_nil_iff_forall_not_mem.2 fun e he => ?_
  obtain ⟨hreplaced, hin, hown⟩ := mem_removed.1 he
  rcases of_mem_replaced hreplaced with h | ⟨-, h | h⟩
  · exact hin (mem_added.1 h).1
  · exact hin h
  · exact hown h

theorem added_again_of_none (hs : acl.Separate) (h : (between acl incoming owner).added = []) :
    (between (replaced acl incoming owner) incoming owner).added = [] := by
  refine List.eq_nil_iff_forall_not_mem.2 fun e he => ?_
  obtain ⟨hgrantable, hmissing⟩ := mem_added_iff.1 he
  have hacl : e ∈ acl := by
    by_contra hacl
    have hadded := mem_added_iff.2 ⟨hgrantable, hacl⟩
    rw [h] at hadded
    cases hadded
  refine hmissing ?_
  rw [replaced, AccessList.edit, h]
  exact AccessList.mem_revokes.2 ⟨hacl, not_revoked hs hacl (.inl (mem_grantable.1 hgrantable).1)⟩

theorem added_again_of_agreed (hs : acl.Separate) (h : Agreed incoming owner) :
    (between (replaced acl incoming owner) incoming owner).added = [] := by
  refine List.eq_nil_iff_forall_not_mem.2 fun e he => ?_
  obtain ⟨hgrantable, hmissing⟩ := mem_added_iff.1 he
  -- somebody's entry is in place, and by agreement it is this one
  have hplace : ∀ g ∈ (between acl incoming owner).added, g ∈ replaced acl incoming owner →
      e.sameSubject g = true → False :=
    fun g hg hin hsame => hmissing (h e hgrantable g (mem_added_iff.1 hg).1 hsame ▸ hin)
  by_cases hacl : e ∈ acl
  · have hkept : e ∈ (between acl incoming owner).removed.foldl AccessList.revoke acl :=
      AccessList.mem_revokes.2 ⟨hacl, not_revoked hs hacl (.inl (mem_grantable.1 hgrantable).1)⟩
    rcases AccessList.stays_or_granted hkept with hstays | ⟨g, hg, hin, hsame⟩
    · exact hmissing hstays
    · exact hplace g hg hin hsame
  · obtain ⟨g, hg, hin, hsame⟩ := AccessList.granted_in_place (mem_added_iff.2 ⟨hgrantable, hacl⟩)
    exact hplace g hg hin hsame

/-- Replacing a list by the same one again changes nothing exactly if no subject is asked for with
two different entries. -/
theorem replaced_again_iff (hs : acl.Separate) :
    (∀ e, e ∈ replaced (replaced acl incoming owner) incoming owner ↔
      e ∈ replaced acl incoming owner) ↔
      Agreed incoming owner := by
  constructor
  · intro hsame e he e' he' hsubject
    have hseparate : AccessList.Separate (replaced acl incoming owner) := hs.edit _ _
    -- whatever may be granted is there already, since a grant in its place would show
    have hthere : ∀ x ∈ grantable incoming owner, x ∈ replaced acl incoming owner := fun x hx => by
      by_contra hmissing
      obtain ⟨g, hg, hin⟩ : ∃ g ∈ (between (replaced acl incoming owner) incoming owner).added,
          g ∈ replaced (replaced acl incoming owner) incoming owner :=
        (AccessList.granted_in_place (mem_added_iff.2 ⟨hx, hmissing⟩)).imp fun g hg =>
          ⟨hg.1, hg.2.1⟩
      exact (mem_added_iff.1 hg).2 ((hsame g).1 hin)
    exact hseparate.eq (hthere e he) (hthere e' he') hsubject
  · intro h e
    rw [replaced, removed_again, added_again_of_agreed hs h]
    rfl

end AclChange
end StoreMount
