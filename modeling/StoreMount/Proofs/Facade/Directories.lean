import StoreMount.Proofs.Facade.Truthful
import StoreMount.Proofs.Facade.Upholding
import StoreMount.Proofs.Store.Children

/-!
# Listings that are kept and listings that are resumed

A listing is kept with the time that its collection had, and is shown again when that time is met.
As long as every parent is a collection, the time of an object settles its children, for all that is
done to the store by clients and by others, so a kept listing is shown only where it is right. On a
link without faults every line that points to a child gets its attributes, and so a client sees all
of these, numbered from 3 on, from the cookie it gives. A line for a name that is no text points
beside its child, and is mostly left out.
-/
namespace StoreMount

/-- The listings that are kept show the children there are, and certain rows that somebody has seen
name them. -/
structure Scene.Listed (seen : Instant → List (RawText × ObjectKind) → Prop)
    (s : Scene) : Prop where
  sound : s.store.Sound
  faultless : s.faults = []
  seen : ∀ marker lines, seen marker lines → s.store.Tells marker lines
  kept : ∀ key l since, s.listings.get? key = some ⟨l, since⟩ →
    ∃ lines, l.entries = lines.map (fun e => ⟨e.1.shown, e.2⟩) ∧ s.store.Tells l.marker lines

namespace Scene.Listed

variable {seen : Instant → List (RawText × ObjectKind) → Prop} {s s' : Scene}

theorem step {Near Below : Path → Prop} (h : Step Near Below s s') (hs : s.Listed seen) :
    s'.Listed seen := by
  cases h with
  | asked made near quiet => exact { hs with faultless := quiet hs.faultless }
  | changed effect =>
    have hevolves : s.store.Evolves _ := .of_effect hs.sound.rooted effect
    refine { hs with
      sound := hs.sound.effect effect
      seen := fun marker lines hl => (hs.seen marker lines hl).evolves hevolves
      kept := fun key l since hl => ?_ }
    obtain ⟨lines, hlines, htells⟩ := hs.kept key l since hl
    exact ⟨lines, hlines, htells.evolves hevolves⟩
  | kept user there since =>
    refine { hs with kept := fun key l since' hl => ?_ }
    rw [Table.get?_insert] at hl
    split at hl
    · cases hl
      exact ⟨_, rfl, Store.tells_offspring hs.sound.timed there⟩
    · exact hs.kept key l since' hl
  | entered near => exact { hs with }
  | gaveUp below mapped unmapped => exact { hs with }
  | moved source_below target_below done => exact { hs with }

theorem invariant (seen : Instant → List (RawText × ObjectKind) → Prop) :
    Invariant Facade.Any Facade.Any (Listed seen) := .of_step step

theorem others_change (hs : s.Listed seen) {change : Store.Change} {store : Store}
    (h : s.store.apply change = .ok store) (hr : store.Rooted) : Listed seen { s with store } := by
  have hevolves : s.store.Evolves store := .apply hs.sound.rooted h
  refine ⟨⟨hr, hs.sound.spelled.apply h, hs.sound.timed.apply h⟩, hs.faultless,
    fun marker lines hl => (hs.seen marker lines hl).evolves hevolves, fun key l since hl => ?_⟩
  obtain ⟨lines, hlines, htells⟩ := hs.kept key l since hl
  exact ⟨lines, hlines, htells.evolves hevolves⟩

theorem entries (hs : s.Listed seen) {key : String × Place} {l : Listing} {since : Nat}
    (hl : s.listings.get? key = some ⟨l, since⟩) {k : Place} {o : StoredObject}
    (ho : s.store.objects.get? k = some o) (ht : o.modifiedAt = l.marker) :
    l.entries = s.store.children k := by
  obtain ⟨lines, hlines, htells⟩ := hs.kept key l since hl
  rw [hlines, Store.children, htells.offspring k o ho ht]

end Scene.Listed

/-! ## Calls that no fault can fail -/

namespace Link

variable {α : Type} {s : Store}

def Steady (s : Store) (l : Link) : Prop := l.faults = [] ∧ l.store = s

theorem ask_steady (session : Session) (c : Call) (question : Store → Except StoreError α) :
    Triple (Steady s) (ask session c question) (fun a l => l.Steady s ∧ question s = .ok a)
      (fun e l => l.Steady s ∧ question s = .error e) := by
  rintro l ⟨hl, rfl⟩
  rw [ask, perform_apply, hl, strike?_nil]
  simp only [store]
  cases question l.server.store <;> exact ⟨⟨hl, rfl⟩, rfl⟩

theorem stat_steady (session : Session) {path : Path} {o : StoredObject}
    (ho : s.object? path = some o) :
    Triple (Steady s) (stat session path) (fun _ l => l.Steady s) (fun _ _ => False) := by
  have hstat : s.stat path = .ok (s.statusOf o) := by rw [Store.stat_eq, ho]
  refine Triple.bind
    ((ask_steady session _ _).weaken (fun _ h => h) (fun _ _ h => h.1) fun e _ h => ?_)
    fun status => Triple.bind Triple.of_get fun l => ?_
  · rw [hstat] at h
    cases h.2
  · split <;> exact Triple.of_pure fun _ h => h.2

theorem stat_missing (session : Session) {path : Path} (ho : s.object? path = none) :
    Triple (Steady s) (stat session path) (fun _ _ => False) (fun _ l => l.Steady s) := by
  have hstat : s.stat path = .error (.notFound path) := by rw [Store.stat_eq, ho]
  refine Triple.bind (Q := fun _ _ => False)
    ((ask_steady session _ _).weaken (fun _ h => h) (fun a _ h => ?_)
    fun _ _ h => h.1) fun _ _ h => h.elim
  rw [hstat] at h
  cases h.2

theorem findUser_steady (session : Session) (name : String) :
    Triple (Steady s) (findUser session name) (fun _ l => l.Steady s) (fun _ _ => False) := by
  refine Triple.bind ((ask_steady session _ _).weaken (fun _ h => h)
      (fun _ _ h => h.1) fun _ _ h => by cases h.2) fun found =>
    Triple.bind Triple.of_get fun l => ?_
  exact Triple.of_pure fun _ h => h.2

end Link

namespace Facade

variable {α β : Type} {s : Store}

def Steady (s : Store) (f : Facade) : Prop := f.link.Steady s

def Finds (s : Store) (m : FacadeM α) : Prop :=
  Triple (Steady s) m (fun _ f => f.Steady s) (fun e _ => ∀ what, e ≠ .notFound what)

namespace Finds

variable {m : FacadeM α} {f : α → FacadeM β}

theorem of_pure {a : α} : Finds s (pure a) := Triple.of_pure fun _ h => h

theorem bind (hm : Finds s m) (hf : ∀ a, Finds s (f a)) : Finds s (m >>= f) := Triple.bind hm hf

theorem of_get {f : Facade → FacadeM β} (hf : ∀ a, Finds s (f a)) : Finds s (get >>= f) :=
  fun s hs => hf s s hs

theorem changeCache (change : Cache → Cache) : Finds s (changeCache change) := fun _ h => h

theorem handleFor (path : Path) : Finds s (handleFor path) := fun _ h => h

theorem steady (h : Finds s m) : Triple (Steady s) m (fun _ f => f.Steady s) (fun _ _ => True) :=
  h.weaken (fun _ h => h) (fun _ _ h => h) fun _ _ _ => trivial

theorem call {action : LinkM StoreError α}
    (h : Triple (Link.Steady s) action (fun _ l => l.Steady s) (fun e _ => ∀ p, e ≠ .notFound p)) :
    Finds s (call action) := by
  intro f hf
  have := h f.link hf
  simp only [Facade.call]
  rcases ha : (action f.link : Except StoreError α × Link) with ⟨e | a, l⟩ <;> rw [ha] at this
  · intro what he
    cases e with
    | notFound p => exact this p rfl
    | _ => cases he
  · exact this

end Finds

theorem finds_userProfile (session : Session) (name : String) :
    Finds s (userProfile session name) := by
  have hput : ∀ profile : UserProfile, Finds s (do
      changeCache (·.putUserProfile name profile)
      return profile) := fun profile => Finds.bind (.changeCache _) fun _ => .of_pure
  refine .of_get fun f => ?_
  split
  · exact .of_pure
  · refine .bind (.call ((Link.findUser_steady session name).weaken (fun _ h => h)
      (fun _ _ h => h) fun _ _ h => h.elim)) ?_
    rintro (_ | user)
    · exact Finds.bind .of_pure hput
    · refine .bind (.call
          ((Link.ask_steady session _ _).weaken (fun _ h => h) (fun _ _ h => h.1) ?_)) fun groups =>
        Finds.bind .of_pure hput
      rintro e - ⟨-, he⟩ p rfl
      unfold Store.userGroups at he
      split at he <;> cases he

variable {path : Path} {o : StoredObject} (ho : s.object? path = some o)
include ho

theorem finds_stat (session : Session) : Finds s (call (Link.stat session path)) :=
  .call ((Link.stat_steady session ho).weaken (fun _ h => h) (fun _ _ h => h) fun _ _ h => h.elim)

theorem finds_permissions (session : Session) : Finds s (permissions session path) := by
  refine .of_get fun f => ?_
  split
  · exact .of_pure
  · refine .bind (.call ((Link.ask_steady session _ _).weaken (fun _ h => h) (fun _ _ h => h.1) ?_))
        fun entries =>
      Finds.bind (.changeCache _) fun _ => .of_pure
    rintro e - ⟨-, he⟩
    rw [Store.permissions_eq, ho] at he
    cases he

theorem finds_userLevel (session : Session) (user : Principal) :
    Finds s (userLevel session user path) :=
  .bind (finds_userProfile session user.name) fun _ =>
    .bind (finds_permissions ho session) fun _ => .of_pure

theorem finds_fetchAttributes (session : Session) (user : Principal) (handle : Handle) :
    Finds s (fetchAttributes session user handle path) := by
  have hrest : ∀ status isOpen level,
      Finds s (rememberAttributes user handle path status isOpen level) :=
    fun status isOpen level => .of_get fun f => .bind (.changeCache _) fun _ => .of_pure
  refine .bind (finds_stat ho session) fun status => Finds.bind (.changeCache _) fun _ => ?_
  refine .bind (.of_get fun _ => .of_pure) fun isOpen => ?_
  split
  · exact .bind .of_pure fun level => hrest status isOpen level
  · exact .bind (finds_userLevel ho session user) fun level => hrest status isOpen level

/-! ## The lines of a listing -/

omit ho

def DirEntry.label (d : DirEntry) : String × Nat := (d.name, d.cookie)

def numbered (cookie : Nat) (entries : List ListingEntry) : List (String × Nat) :=
  (entries.map ListingEntry.name).zipIdx cookie

theorem numbered_cons (cookie : Nat) (entry : ListingEntry) (rest : List ListingEntry) :
    numbered cookie (entry :: rest) = (entry.name, cookie) :: numbered (cookie + 1) rest := rfl

theorem numbered_cookies (cookie : Nat) (entries : List ListingEntry) :
    (numbered cookie entries).map Prod.snd = List.range' cookie entries.length := by
  rw [numbered, List.zipIdx_map_snd, List.length_map]

/-- Whether the line points to a child that is there. -/
def points (s : Store) (k : Place) (label : String × Nat) : Bool :=
  s.objects.contains (k ++ [.name label.1])

/-- Lines are left out, but none that points to a child. -/
structure Renders (s : Store) (k : Place) (labels all : List (String × Nat)) : Prop where
  sub : labels.Sublist all
  pointing : labels.filter (points s k) = all.filter (points s k)

namespace Renders

variable {k : Place} {labels all : List (String × Nat)} {label : String × Nat}

theorem cons (h : Renders s k labels all) : Renders s k (label :: labels) (label :: all) where
  sub := h.sub.cons_cons label
  pointing := by rw [List.filter_cons, List.filter_cons, h.pointing]

theorem leave (h : Renders s k labels all) (hl : points s k label = false) :
    Renders s k labels (label :: all) where
  sub := h.sub.cons label
  pointing := by rw [List.filter_cons, if_neg (by simp [hl]), h.pointing]

theorem eq_of_points (h : Renders s k labels all) (hall : ∀ l ∈ all, points s k l = true) :
    labels = all := by
  have hpointing := h.pointing
  rwa [List.filter_eq_self.2 hall, List.filter_eq_self.2 fun l hl =>
      hall l (h.sub.subset hl)] at hpointing

theorem count (h : Renders s k labels all) {t : String}
    (ht : s.objects.contains (k ++ [.name t]) = true) :
    (labels.map Prod.fst).count t = (all.map Prod.fst).count t := by
  have hcount (ls : List (String × Nat)) : (ls.map Prod.fst).count t =
      ((ls.filter (points s k)).map Prod.fst).count t := by
    rw [List.count_eq_countP, List.count_eq_countP, List.countP_map, List.countP_map,
      List.countP_filter]
    refine List.countP_congr fun l _ => ?_
    simp only [Function.comp, beq_iff_eq, Bool.and_eq_true, points]
    exact ⟨fun h => ⟨h, h ▸ ht⟩, And.left⟩
  rw [hcount labels, hcount all, h.pointing]

end Renders

theorem missing_fetchAttributes (session : Session) (user : Principal) (handle : Handle)
    (ho : s.object? path = none) :
    Triple (Steady s) (fetchAttributes session user handle path) (fun _ _ => False)
      (fun _ f => f.Steady s) :=
  Triple.bind (Q := fun _ _ => False) (fun f hf => by
    have hstat := Link.stat_missing session ho f.link hf
    simp only [Facade.call]
    rcases ha :
      (Link.stat session path f.link : Except StoreError Status × Link) with ⟨e | a, l⟩ <;>
      rw [ha] at hstat <;> exact hstat) fun _ _ h => h.elim

theorem listAttributes_line (session : Session) (user : Principal) (cookie : Nat) (name : String)
    (handle : Handle) :
    Triple (Steady s) (listAttributes session user path cookie name handle)
      (fun line f => f.Steady s ∧ (line.map DirEntry.label = some (name, cookie) ∨
        line = none ∧ s.object? path = none)) (fun _ _ => True) := by
  refine Triple.bind Triple.of_get fun f => ?_
  split
  · exact Triple.of_pure fun _ h => ⟨h.2, .inl rfl⟩
  · rintro f ⟨-, hf⟩
    rw [tryCatch_apply, bind_apply]
    cases ho : s.object? path with
    | none =>
      have hfetch := missing_fetchAttributes session user handle ho f hf
      rcases h : (fetchAttributes session user handle path f : Except FacadeError Attributes ×
        Facade) with ⟨e | a, f'⟩ <;>
        rw [h] at hfetch
      · cases e with
        | notFound what => exact ⟨hfetch, .inr ⟨rfl, rfl⟩⟩
        | _ => exact trivial
      · exact hfetch.elim
    | some o =>
      have hfetch := finds_fetchAttributes ho session user handle f hf
      rcases h : (fetchAttributes session user handle path f : Except FacadeError Attributes ×
        Facade) with ⟨e | a, f'⟩ <;>
        rw [h] at hfetch
      · -- a failure is passed on, since it is not for a child that is gone
        cases e with
        | notFound what => exact absurd rfl (hfetch what)
        | _ => exact trivial
      · exact ⟨hfetch, .inl rfl⟩

theorem listEntries_lines (session : Session) (user : Principal) (path : Path) (after : Nat)
    {entries : List ListingEntry} (cookie : Nat)
    (h : ∀ e ∈ entries, (path.child e.name).place = path.place ++ [.name e.name]) :
    Triple (Steady s) (listEntries session user path after cookie entries)
      (fun lines f => f.Steady s ∧ Renders s path.place (lines.map DirEntry.label)
        ((numbered cookie entries).filter fun l => decide (after < l.2))) (fun _ _ => True) := by
  induction entries generalizing cookie with
  | nil => exact Triple.of_pure fun _ hf => ⟨hf, .refl _, rfl⟩
  | cons entry rest ih =>
    have hrest := ih (cookie + 1) fun e he => h e (List.mem_cons_of_mem _ he)
    have hlines : ∀ line : Option DirEntry,
        (after < cookie ∧ line.map DirEntry.label = some (entry.name, cookie) ∨
          line = none ∧ (after < cookie → s.object? (path.child entry.name) = none)) →
        Triple (Steady s) (do
          let lines ← listEntries session user path after (cookie + 1) rest
          return line.toList ++ lines)
        (fun lines f => f.Steady s ∧ Renders s path.place (lines.map DirEntry.label)
          ((numbered cookie (entry :: rest)).filter fun l => decide (after < l.2)))
          (fun _ _ => True) := by
      intro line hline
      refine Triple.bind hrest fun lines => Triple.of_pure fun f hf => ⟨hf.1, ?_⟩
      rw [numbered_cons, List.filter_cons]
      rcases hline with ⟨hlt, hlabel⟩ | ⟨rfl, hmissing⟩
      · obtain ⟨d, rfl, hd⟩ := Option.map_eq_some_iff.1 hlabel
        rw [if_pos (decide_eq_true hlt), Option.toList_some, List.singleton_append, List.map_cons,
          hd]
        exact hf.2.cons
      · split
        · next hlt =>
          refine hf.2.leave ?_
          rw [points, ← h entry List.mem_cons_self, Table.contains]
          exact Option.isSome_eq_false_iff.2
            (Option.isNone_iff_eq_none.2 (hmissing (of_decide_eq_true hlt)))
        · exact hf.2
    unfold listEntries
    split
    · next hle =>
      refine Triple.bind (Q := fun line f => f.Steady s ∧ line = none)
        (Triple.of_pure fun _ h => ⟨h, rfl⟩) fun line => ?_
      refine Triple.of_known ?_
      rintro rfl
      exact hlines none (.inr ⟨rfl, fun hlt => absurd hle (Nat.not_le.2 hlt)⟩)
    · next hlt =>
      have hentry : Triple (Steady s) (listEntry session user path cookie entry)
          (fun line f => f.Steady s ∧ (line.map DirEntry.label = some (entry.name, cookie) ∨
            line = none ∧ s.object? (path.child entry.name) = none)) (fun _ _ => True) :=
        Triple.bind (Finds.handleFor _).steady fun handle =>
            Triple.bind (Finds.changeCache _).steady fun _ =>
          listAttributes_line session user cookie entry.name handle
      refine Triple.bind hentry fun line => Triple.of_known fun hline => hlines line ?_
      exact hline.imp (fun hlabel => ⟨Nat.not_le.1 hlt, hlabel⟩) fun hmissing =>
        ⟨hmissing.1, fun _ => hmissing.2⟩

/-! ## What a list call shows -/

variable {seen : Instant → List (RawText × ObjectKind) → Prop} {g : Ground}

structure Sees (seen : Instant → List (RawText × ObjectKind) → Prop) (g : Ground)
    (f : Facade) : Prop where
  listed : f.scene.Listed seen
  ground : f.ground = g

theorem Sees.steady {f : Facade} (h : f.Sees seen g) : f.Steady g.store :=
  ⟨h.listed.faultless, congrArg Ground.store h.ground⟩

theorem Sees.sound {f : Facade} (h : f.Sees seen g) : g.store.Sound := h.ground ▸ h.listed.sound

theorem sees_of_quiet {m : FacadeM α} (hm : Upholds (Scene.Listed seen) m Any)
    (hk : Keeps ground m) :
    Triple (Sees seen g) m (fun _ => Sees seen g) (fun _ _ => True) :=
  (Triple.and hm (hk.triple g)).weaken (fun _ h => ⟨h.listed, h.ground⟩)
    (fun _ _ h => ⟨h.1.1, h.2⟩) fun _ _ _ => trivial

theorem sees_of_finds {m : FacadeM α} {C D : α → Prop} {E : FacadeError → Facade → Prop}
    (hm : Upholds (Scene.Listed seen) m C)
    (hg : Triple (ground · = g) m (fun a f => f.ground = g ∧ D a) E) :
    Triple (Sees seen g) m (fun a f => f.Sees seen g ∧ D a) (fun _ _ => True) :=
  (Triple.and hm hg).weaken (fun _ h => ⟨h.listed, h.ground⟩) (fun _ _ h => ⟨⟨h.1.1, h.2.1⟩, h.2.2⟩)
    fun _ _ _ => trivial

theorem during_sees {account : Account} {body : Session → FacadeM α} {C : α → Prop}
    (h : ∀ session, Triple (Sees seen g) (body session) (fun a _ => C a) (fun _ _ => True)) :
    Triple (Sees seen g) (during account body) (fun a _ => C a) (fun _ _ => True) := by
  have hconnect :=
    sees_of_quiet (g := g) (upholds_call (Scene.Listed.invariant seen) (Link.asks_connect account)
    (Link.keeps_connect account)) (keeps_call (Link.keeps_connect account))
  refine Triple.bind hconnect fun session f hf => ?_
  have := h session f hf
  rcases hb : (body session f : Except FacadeError α × Facade) with ⟨e | a, f'⟩ <;> rw [hb] at this
    <;> exact this

theorem collection_sees {uid : UInt32} {directory : Handle}
    {body : Session → Principal → Path → Status → FacadeM α} {C : α → Prop}
    (h : ∀ session user path status o, g.registry.pathOf? directory = some path →
      g.store.object? path = some o → o.modifiedAt = status.modifiedAt →
      Triple (Sees seen g) (body session user path status) (fun a _ => C a) (fun _ _ => True)) :
    Triple (Sees seen g) (do
      let user ← resolve uid
      let path ← pathOf directory
      during user.account fun session => do
        let status ← call (Link.stat session path)
        body session user path status) (fun a _ => C a) (fun _ _ => True) := by
  have hI := Scene.Listed.invariant seen
  refine Triple.bind (sees_of_quiet (upholds_resolve hI uid) (keeps_resolve uid)) fun user => ?_
  refine Triple.bind (sees_of_finds (upholds_pathOf hI directory)
    (pathOf_triple directory fun _ => congrArg Ground.registry)) fun path =>
      Triple.of_known fun hpath => ?_
  refine during_sees fun session => ?_
  refine Triple.bind (sees_of_finds (upholds_stat hI trivial session) (stat_triple session path g))
    fun status => ?_
  refine Triple.of_known ?_
  rintro ⟨o, ho, ht⟩
  exact h session user path status o hpath ho ht

theorem directoryVerifier_time (uid : UInt32) (directory : Handle) :
    Triple (Sees seen g) (directoryVerifier uid directory) (fun time _ => ∃ path o,
      g.registry.pathOf? directory = some path ∧ g.store.object? path = some o ∧
        o.modifiedAt = time) (fun _ _ => True) :=
  collection_sees fun _ _ path _ o hpath ho ht => Triple.of_pure fun _ _ => ⟨path, o, hpath, ho, ht⟩

theorem currentListing_children (session : Session) (user : Principal)
    {path : Path} {status : Status} {o : StoredObject} (ho : g.store.object? path = some o)
    (ht : o.modifiedAt = status.modifiedAt) :
    Triple (Sees seen g) (currentListing session user path status)
      (fun listing f => f.Steady g.store ∧ listing.entries = g.store.children path.place)
      (fun _ _ => True) := by
  refine Triple.bind Triple.of_get fun f => ?_
  split
  · next listing hfound =>
    refine Triple.of_pure ?_
    rintro s ⟨rfl, hs⟩
    obtain ⟨hcached, hmarker⟩ := Option.filter_eq_some_iff.1 hfound
    obtain ⟨since, hsince⟩ := Cache.fresh_eq_some hcached
    have hmarker : listing.marker = status.modifiedAt := of_decide_eq_true hmarker
    have hground : f.scene.store = g.store := congrArg Ground.store hs.ground
    refine ⟨hs.steady, ?_⟩
    rw [← hground] at ho ⊢
    exact hs.listed.entries hsince ho (ht.trans hmarker.symm)
  · have hI := Scene.Listed.invariant seen
    have hlist := sees_of_finds
      (upholds_ask hI session (c := .list path) (fun _ _ => trivial) (·.list session.user path))
      (list_triple session path g)
    refine Triple.bind
      (Q := fun entries s => s.Steady g.store ∧ entries = g.store.children path.place)
      (hlist.weaken (fun _ h => h.2) (fun _ _ h => ⟨h.1.steady, h.2⟩) fun _ _ h => h)
        fun entries => ?_
    refine Triple.of_known fun hentries => ?_
    exact Triple.bind (Finds.changeCache
        (·.putListing user.name path ⟨entries, status.modifiedAt⟩)).steady fun _ =>
      Triple.of_pure fun _ hs => ⟨hs, hentries⟩

theorem list_lines (uid : UInt32) (directory : Handle) (cookie : Nat) :
    Triple (Sees seen g) (list uid directory cookie) (fun lines _ => ∃ path o,
      g.registry.pathOf? directory = some path ∧ g.store.object? path = some o ∧
      Renders g.store path.place (lines.map DirEntry.label)
        ((numbered firstCookie (g.store.children path.place)).filter fun l =>
          decide (cookie < l.2)))
      (fun _ _ => True) := by
  refine collection_sees fun session user path status o hpath ho ht => ?_
  split
  · exact Triple.of_throw fun _ _ => trivial
  · rintro f hf
    have hplaces : ∀ e ∈ g.store.children path.place,
        (path.child e.name).place = path.place ++ [.name e.name] :=
      fun e he => Path.place_child (hf.sound.spelled.plain_of_mem_children he) path
    refine Triple.bind (currentListing_children session user ho ht)
      (fun listing => Triple.of_known fun hlisting => ?_) f hf
    rw [← hlisting] at hplaces
    refine (listEntries_lines session user path cookie firstCookie hplaces).weaken (fun _ h => h)
      (fun lines _ h => ⟨path, o, hpath, ho, ?_⟩) fun _ _ h => h
    rw [← hlisting]
    exact h.2

/-! ## Runs -/

variable {link : Link} {ids : Identities} {resolver : Resolver} {allowList : AllowList}
    {options : Options} {f : Facade}

theorem faults_of_mount (hl : link.faults = [])
    (hm : (mount link ids resolver allowList options).1 = .ok f) :
    f.link.faults = [] := by
  obtain ⟨rootObjectId, l, registry, hlook, -, rfl⟩ := mount_eq_ok hm
  have hasked : Link.Asked Any link (look resolver.admin options.mountPoint link).2 := by
    refine Link.asks_during (fun session => ?_) link
    refine (Link.Asks.failingAs (Link.asks_stat trivial)).bind fun status => ?_
    split
    · exact .of_throw
    · exact .of_pure
  rw [hlook] at hasked
  exact hasked.faults hl

theorem listed_of_mount (hs : link.store.Reachable) (hl : link.faults = [])
    (hm : (mount link ids resolver allowList options).1 = .ok f) (hr : f.link.store.Rooted) :
    f.scene.Listed fun _ _ => False := by
  rw [← (mounted hm).store] at hs
  refine ⟨hs.sound hr, faults_of_mount hl hm, fun _ _ h => h.elim, fun key l since h => ?_⟩
  simp [scene, (mounted hm).cache, Cache.new] at h

theorem listed_runAmong (hf : f.scene.Listed seen) {turns : List Turn}
    (hr : ∀ before after, turns = before ++ after → (f.runAmong before).link.store.Rooted) :
    (f.runAmong turns).scene.Listed seen := by
  refine upheld_runAmong (Scene.Listed.invariant seen)
    (fun before change after store hb hi h => ?_) hf
  have hrooted := hr (before ++ [.others change]) after (by rw [hb, List.append_assoc]; rfl)
  have hstore : (f.runAmong (before ++ [.others change])).link.store = store := by
    rw [runAmong_concat, turn]
    simp only [h]
    rfl
  exact hi.others_change h (hstore ▸ hrooted)

theorem list_eq_ok (hf : f.scene.Listed seen) {uid : UInt32} {directory : Handle}
    {cookie : Nat} {lines : List DirEntry} (h : (list uid directory cookie f).1 = .ok lines) :
    ∃ path o, f.registry.pathOf? directory = some path ∧
      f.link.store.object? path = some o ∧
      Renders f.link.store path.place (lines.map DirEntry.label)
        ((numbered firstCookie (f.link.store.children path.place)).filter fun l =>
          decide (cookie < l.2)) :=
  (list_lines uid directory cookie).of_ok (⟨hf, rfl⟩ : f.Sees seen f.ground) h

theorem directoryVerifier_eq_ok (hf : f.scene.Listed seen) {uid : UInt32}
    {directory : Handle} {time : Instant} (h : (directoryVerifier uid directory f).1 = .ok time) :
    ∃ path o, f.registry.pathOf? directory = some path ∧
      f.link.store.object? path = some o ∧ o.modifiedAt = time :=
  (directoryVerifier_time uid directory).of_ok (⟨hf, rfl⟩ : f.Sees seen f.ground) h

theorem offspring_of_verifier (hf : f.scene.Listed seen) {turns : List Turn}
    (hr : ∀ before after, turns = before ++ after → (f.runAmong before).link.store.Rooted)
    {uid : UInt32} {directory : Handle} {time : Instant}
    (h : (directoryVerifier uid directory f).1 = .ok time)
    (h' : (directoryVerifier uid directory (f.runAmong turns)).1 = .ok time) :
    ∃ path path', f.registry.pathOf? directory = some path ∧
      (f.runAmong turns).registry.pathOf? directory = some path' ∧
      (f.runAmong turns).link.store.offspring path'.place = f.link.store.offspring path.place := by
  obtain ⟨path, o, hpath, ho, rfl⟩ := directoryVerifier_eq_ok hf h
  have hseen : f.scene.Listed fun marker lines =>
      marker = o.modifiedAt ∧ lines = f.link.store.offspring path.place :=
    { hf with
      seen := by
        rintro - - ⟨rfl, rfl⟩
        exact Store.tells_offspring hf.sound.timed ho }
  have hlater := listed_runAmong hseen hr
  obtain ⟨path', o', hpath', ho', ht⟩ := directoryVerifier_eq_ok hlater h'
  exact ⟨path, path', hpath, hpath', (hlater.seen _ _ ⟨rfl, rfl⟩).offspring path'.place o' ho' ht⟩

theorem points_congr {s s' : Store} {k k' : Place} (h : s'.offspring k' = s.offspring k) :
    points s' k' = points s k := by
  funext l
  rw [points, points, Bool.eq_iff_iff, Store.contains_iff, Store.contains_iff, h]

theorem numbered_after_zero (entries : List ListingEntry) :
    (numbered firstCookie entries).filter (fun l => decide (0 < l.2)) =
      numbered firstCookie entries :=
  List.filter_eq_self.2 fun _ hl =>
    decide_eq_true (Nat.lt_of_lt_of_le (by decide) (List.le_snd_of_mem_zipIdx hl))

theorem points_of_legible {s : Store} {k : Place} (h : s.Legible k) {l : String × Nat}
    (hl : l ∈ numbered firstCookie (s.children k)) : points s k l = true := by
  have hname : l.1 ∈ ((s.offspring k).map Prod.fst).map RawText.shown := by
    rw [← Store.names_children, ← List.zipIdx_map_fst firstCookie
      ((s.children k).map ListingEntry.name)]
    exact List.mem_map_of_mem hl
  obtain ⟨n, hn, hshown⟩ := List.mem_map.1 hname
  rw [points, Store.contains_iff, ← h.unmistakable l.1 n hn hshown]
  exact hn

theorem names_and_cookies {lines : List DirEntry} {entries : List ListingEntry}
    (h : lines.map DirEntry.label = numbered firstCookie entries) :
    lines.map DirEntry.name = entries.map ListingEntry.name ∧
      lines.map DirEntry.cookie = List.range' 3 lines.length := by
  have hnames := congrArg (List.map Prod.fst) h
  rw [List.map_map, numbered, List.zipIdx_map_fst] at hnames
  have hlength := congrArg List.length hnames
  rw [List.length_map, List.length_map] at hlength
  have hcookies := congrArg (List.map Prod.snd) h
  rw [List.map_map, numbered_cookies, ← hlength] at hcookies
  exact ⟨hnames, hcookies⟩

/-- The rows have the same lines that point to a child, and the same lines altogether where all
names are texts. -/
def Matches (s : Store) (k : Place) (labels labels' : List (String × Nat)) : Prop :=
  labels.filter (points s k) = labels'.filter (points s k) ∧ (s.Legible k → labels = labels')

theorem labels_of_list (hf : f.scene.Listed seen) {uid : UInt32} {directory : Handle} {path : Path}
    {cookie : Nat} {lines : List DirEntry} (hpath : f.registry.pathOf? directory = some path)
    (h : (list uid directory cookie f).1 = .ok lines) :
    Matches f.link.store path.place (lines.map DirEntry.label)
      ((numbered firstCookie (f.link.store.children path.place)).filter fun l =>
        decide (cookie < l.2)) := by
  obtain ⟨q, -, hq, -, hrenders⟩ := list_eq_ok hf h
  obtain rfl := Option.some.inj (hq.symm.trans hpath)
  exact ⟨hrenders.pointing, fun hlegible => hrenders.eq_of_points fun l hl =>
    points_of_legible hlegible (List.mem_filter.1 hl).1⟩

theorem Matches.resume {s : Store} {k : Place} {labels labels' all : List (String × Nat)}
    {cookie : Nat} (h : Matches s k labels (all.filter fun l => decide (cookie < l.2)))
    (h' : Matches s k labels' all) :
    Matches s k labels (labels'.filter fun l => decide (cookie < l.2)) := by
  refine ⟨?_, fun hlegible => by rw [h.2 hlegible, h'.2 hlegible]⟩
  rw [h.1, List.filter_comm, ← h'.1, List.filter_comm]

def sampleEarlier : List Turn :=
  [.own (.ask (.mkdir 0 1 "d")), .own (.ask (.create 0 2 "a" .regular))]

def sampleLater : List Turn := [.own (.ask (.list 0 2 0)), .others (.write "rods" ⟨"/z/d/a"⟩ 0 [1])]

end Facade
end StoreMount
