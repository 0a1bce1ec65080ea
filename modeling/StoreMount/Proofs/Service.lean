import StoreMount.CommandLine
import StoreMount.Proofs.AllowList
import StoreMount.Proofs.Facade.Installing
import StoreMount.Proofs.Path.Ancestors

/-!
# Services that start

A new store holds collections only, and seeding goes down to the mount point one component after the
other, from the root, which is always there. So each collection it makes has its parent by then,
however the zone and the mount point are spelled, and whatever it finds is what it wants. The
administrator of the new store may then look at the mount point, so the service of every valid
configuration starts.
-/
namespace StoreMount

namespace Store

variable {s s' : Store} {path : Path} {owner : String}

def OnlyCollections (s : Store) : Prop := ∀ k o, s.objects.get? k = some o → o.kind = .collection

structure Furnished (s s' : Store) : Prop where
  only : s'.OnlyCollections
  users : s'.users = s.users
  kept : ∀ k, s.objects.get? k ≠ none → s'.objects.get? k ≠ none

theorem Furnished.refl (h : s.OnlyCollections) : s.Furnished s := ⟨h, rfl, fun _ hk => hk⟩

theorem Furnished.trans {s'' : Store} (h : s.Furnished s') (h' : s'.Furnished s'') :
    s.Furnished s'' :=
  ⟨h'.only, h'.users.trans h.users, fun k hk => h'.kept k (h.kept k hk)⟩

theorem furnished_insertObject (h : s.OnlyCollections) (place : Place) (owner : String) :
    s.Furnished (s.insertObject place .collection owner .empty) where
  only k o ho := by
    rw [get?_insertObject] at ho
    obtain ⟨o', ho', rfl⟩ := Option.map_eq_some_iff.1 ho
    rw [stamped_kind]
    split at ho'
    · exact Option.some.inj ho' ▸ rfl
    · exact h k o' ho'
  users := users_insertObject ..
  kept k hk := by
    rw [get?_insertObject, ne_eq, Option.map_eq_none_iff]
    split
    · exact Option.some_ne_none _
    · exact hk

theorem onlyCollections_new (zone admin : String) : (Store.new zone admin).OnlyCollections := by
  intro k o ho
  obtain ⟨helse, hthere⟩ :=
    standing?_foldl_insertObject admin (standardPlaces zone) (Store.empty zone admin) k
  have hstanding : (Store.new zone admin).standing? k = some (o.id, o.kind) := by
    rw [standing?, ho, Option.map_some]
  by_cases hk : k ∈ standardPlaces zone
  · obtain ⟨i, hi⟩ := hthere hk
    exact (Prod.mk.inj (Option.some.inj (hstanding.symm.trans hi))).2
  · cases hstanding.symm.trans (helse hk)

theorem root_new (zone admin : String) : (Store.new zone admin).objects.get? [.root] ≠ none := by
  have hmem : [Component.root] ∈ standardPlaces zone := by simp [standardPlaces, Path.place_slash]
  obtain ⟨i, hi⟩ :=
    (standing?_foldl_insertObject admin (standardPlaces zone) (Store.empty zone admin) _).2 hmem
  rw [ne_eq, ← standing?_eq_none_iff]
  exact ne_of_eq_of_ne hi (Option.some_ne_none _)

theorem users_new (zone admin : String) :
    (Store.new zone admin).users = Table.empty.insert admin ⟨.admin, [], []⟩ := by
  simp [Store.new, standardPlaces, Store.empty]

theorem addCollection_taken {o : StoredObject} (ho : s.object? path = some o) :
    s.addCollection path owner = .error (.alreadyExists path) := by
  have hc : s.objects.contains path.place = true := by
    rw [Table.contains, show s.objects.get? path.place = _ from ho]; rfl
  simp only [addCollection, checkNewChild, hc, if_true]
  rfl

theorem addCollection_free {up : Place} {o : StoredObject} (hup : path.place.parent? = some up)
    (ho : s.objects.get? up = some o) (hk : o.kind = .collection) (hfree : s.object? path = none) :
    s.addCollection path owner = .ok (s.insertObject path.place .collection owner .empty) := by
  obtain ⟨q, -, rfl⟩ := Option.map_eq_some_iff.1 ((Path.place_parent? path).trans hup)
  have hq : s.object? q = some o := ho
  rw [addCollection, checkNewChild_eq hq (by rw [hk]; rfl) hup hfree]
  rfl

end Store

namespace Service

open Store (Furnished OnlyCollections)

variable {s : Store}

theorem seed_ok (owner : String) (hs : s.OnlyCollections) {path : Path} {up : Place}
    (hup : path.place.parent? = some up) (hthere : s.objects.get? up ≠ none) :
    ∃ s', seed owner s path = .ok s' ∧ s.Furnished s' ∧ s'.objects.get? path.place ≠ none := by
  cases hp : s.object? path with
  | some o =>
    exact ⟨s, by rw [seed, Store.addCollection_taken hp], .refl hs,
      ne_of_eq_of_ne hp (Option.some_ne_none o)⟩
  | none =>
    obtain ⟨o, ho⟩ := Option.ne_none_iff_exists'.1 hthere
    refine ⟨_, by rw [seed, Store.addCollection_free hup ho (hs _ _ ho) hp],
      Store.furnished_insertObject hs _ owner, ?_⟩
    rw [Store.get?_insertObject, if_pos rfl, Option.map_some]
    exact Option.some_ne_none _

theorem seed_down (owner : String) {rest : Place} (up : Place) {paths : List Path}
    (hup : up ≠ []) (hs : s.OnlyCollections) (hthere : s.objects.get? up ≠ none)
    (hpaths : paths.map Path.place = rest.inits.tail.map (up ++ ·)) :
    ∃ s', paths.foldlM (seed owner) s = .ok s' ∧ s.Furnished s' ∧ ∀ k, k <+: rest →
      s'.objects.get? (up ++ k) ≠ none := by
  induction rest generalizing s up paths with
  | nil =>
    obtain rfl : paths = [] := List.map_eq_nil_iff.1 hpaths
    refine ⟨s, rfl, .refl hs, fun k hk => ?_⟩
    rw [List.prefix_nil.1 hk, List.append_nil]
    exact hthere
  | cons c rest ih =>
    have hinits : rest.inits = [] :: rest.inits.tail := by cases rest <;> simp
    rw [List.inits_cons, List.tail_cons, hinits, List.map_cons, List.map_cons,
      List.map_map] at hpaths
    obtain ⟨path, paths', rfl, hpath, hpaths'⟩ := List.map_eq_cons_iff.1 hpaths
    have hparent : path.place.parent? = some up := by
      rw [hpath]
      exact Place.parent?_append_singleton (.inl hup)
    obtain ⟨s₁, hseed, hf₁, hmade⟩ := seed_ok owner hs hparent hthere
    rw [hpath] at hmade
    obtain ⟨s', hrest, hf', hdown⟩ := ih (up ++ [c]) (by simp) hf₁.only hmade (by
      rw [hpaths']
      exact List.map_congr_left fun t _ => List.append_cons ..)
    refine ⟨s', by rw [List.foldlM_cons, hseed]; exact hrest, hf₁.trans hf', fun k hk => ?_⟩
    cases k with
    | nil =>
      rw [List.append_nil]
      exact hf'.kept _ (hf₁.kept _ hthere)
    | cons c' k =>
      obtain ⟨rfl, hbelow⟩ := List.cons_prefix_cons.1 hk
      rw [List.append_cons]
      exact hdown k hbelow

theorem seedChain_ok (owner : String) {path : Path} (habs : path.place.head? = some .root)
    (hs : s.OnlyCollections) (hroot : s.objects.get? [.root] ≠ none) :
    ∃ s', seedChain s path owner = .ok s' ∧ s.Furnished s' ∧ ∀ k, k ≠ [] → k <+: path.place →
      s'.objects.get? k ≠ none := by
  obtain ⟨rest, hrest⟩ := List.head?_eq_some_iff.1 habs
  have hinits : rest.inits = [] :: rest.inits.tail := by cases rest <;> simp
  have hpaths : (path.ancestors.reverse.drop 1).map Path.place =
      rest.inits.tail.map ([.root] ++ ·) := by
    rw [List.map_drop, Path.places_ancestors habs, hrest, List.inits_cons, List.tail_cons,
      List.drop_one, ← List.map_tail]
    rfl
  obtain ⟨s', hseed, hf, hdown⟩ := seed_down owner [.root] (List.cons_ne_nil _ _) hs hroot hpaths
  refine ⟨s', hseed, hf, fun k hne hk => ?_⟩
  obtain ⟨c, k, rfl⟩ := List.exists_cons_of_ne_nil hne
  rw [hrest] at hk
  obtain ⟨rfl, hbelow⟩ := List.cons_prefix_cons.1 hk
  exact hdown k hbelow

/-! ## Starting -/

theorem absolute_zoneRoot (zone : String) : (Path.zoneRoot zone).place.head? = some .root := by
  rw [← Path.absolute_iff]
  unfold Path.zoneRoot Path.join
  split
  · assumption
  · have hslash : Path.slash.bytes = [] ∨ Path.slash.bytes.getLast? = some Spelling.separator := by
      decide +kernel
    rw [if_pos hslash]
    rfl

theorem absolute_of_validate {c : Config} (h : c.validate = .ok ()) :
    c.server.mountPoint.place.head? = some .root := by
  unfold Config.validate at h
  split at h
  · cases h
  split at h
  · cases h
  split at h
  · cases h
  split at h
  · cases h
  next hwithin =>
    obtain ⟨rest, hrest⟩ := Path.within_iff.1 (by simpa using hwithin)
    rw [← hrest, List.head?_append, absolute_zoneRoot, Option.some_or]

theorem seededStore_ok {c : Config} (h : c.validate = .ok ()) :
    ∃ s, seededStore c = .ok s ∧ s.admits c.adminAccount = .ok () ∧
      ∀ k, k ≠ [] → k <+: c.server.mountPoint.place → ∃ o, s.objects.get? k = some o ∧
      o.kind = .collection := by
  obtain ⟨s, hseed, hf, hthere⟩ := seedChain_ok c.backend.admin.username (absolute_of_validate h)
    (Store.onlyCollections_new c.backend.zone c.backend.admin.username) (Store.root_new _ _)
  refine ⟨s, hseed, ?_, fun k hne hk => ?_⟩
  · have husers := hf.users.trans (Store.users_new ..)
    refine Store.admits_iff.2 ⟨?_, ?_⟩
    · simp [Store.isAdmin, husers, Config.adminAccount]
    · simp [Table.contains, husers, Config.adminAccount]
  · obtain ⟨o, ho⟩ := Option.ne_none_iff_exists'.1 (hthere k hne hk)
    exact ⟨o, ho, hf.only k o ho⟩

theorem look_ok {admin : Account} {mountPoint : Path} {o : StoredObject}
    (ha : s.admits admin = .ok ()) (ho : s.object? mountPoint = some o)
    (hk : o.kind = .collection) :
    ∃ rootObjectId, Gives (Link.Serves · s) (Facade.look admin mountPoint) (.ok rootObjectId)
      (Link.Serves · s) := by
  obtain ⟨status, hstat, hkind⟩ : ∃ status, s.stat mountPoint = .ok status ∧
      status.kind.isCollection = true := by
    rw [Store.stat, Store.find, ho]
    exact ⟨_, rfl, by rw [hk]; rfl⟩
  refine ⟨status.objectId, Link.during_gives ha fun session _ => ?_⟩
  have hgives : Gives (Link.Serves · s) (Link.failingAs .ofStore (Link.stat session mountPoint))
      ((s.stat mountPoint).mapError FacadeError.ofStore) (Link.Serves · s) :=
        Link.Gives.failingAs (Link.stat_gives mountPoint)
  rw [hstat] at hgives
  exact hgives.bind_ok (by simp only [hkind]; exact Gives.of_pure)

theorem mount_ok (ids : Identities) (resolver : Resolver) (options : Options) {o : StoredObject}
    {l : Link} (ha : s.admits resolver.admin = .ok ()) (ho : s.object? options.mountPoint = some o)
    (hk : o.kind = .collection) (hl : l.Serves s) (allowList : AllowList) :
    ∃ facade l', Facade.mount l ids resolver allowList options = (.ok facade, l') := by
  obtain ⟨rootObjectId, hlook⟩ := look_ok ha ho hk
  have hlooked := (hlook l hl).1
  unfold Facade.mount
  rcases hm :
    (Facade.look resolver.admin options.mountPoint l : Except FacadeError Nat × Link) with ⟨x, l'⟩
  rw [hm] at hlooked
  obtain rfl : x = .ok rootObjectId := hlooked
  exact ⟨_, _, rfl⟩

theorem start_ok {c : Config} {o : StoredObject} (h : c.validate = .ok ())
    (ha : s.admits c.adminAccount = .ok ()) (ho : s.object? c.server.mountPoint = some o)
    (hk : o.kind = .collection) (ids : Identities) (visiting : Visiting) {l : Link}
    (hl : l.Serves s) :
    ∃ facade crew l', start c ids visiting l = (.ok (facade, crew), l') ∧
      facade.Mounted s c.options := by
  obtain ⟨-, hl'⟩ := AllowList.refresh_ok (a := .new c.adminAccount c.backend.allowListKey) ha hl
  rcases hr : (AllowList.new c.adminAccount c.backend.allowListKey).refresh l with
    ⟨answer, allowList, l'⟩
  rw [hr] at hl'
  obtain ⟨facade, l'', hmount⟩ :=
    mount_ok ids (.new ids c.adminAccount visiting) c.options ha ho hk hl' allowList
  refine ⟨facade, ⟨.new ids c.adminAccount visiting, allowList⟩, l'', ?_, ?_⟩
  · simp only [start, h, Crew.work, Crew.new, hr, hmount]
  · have hmounted := Facade.mounted (congrArg Prod.fst hmount)
    rwa [show l'.store = s from hl'.store] at hmounted

/-- A valid configuration always mounts, whatever its zone, its administrator and its mount point
are called: the store that is made and seeded for it has a collection wherever an absolute path
leads that the mount point is at or below, and over this store the service starts, with handle 1 for
the mount point and no other, and leaves the store as it is. The program then runs it unless
something is to be remembered for more than a thousand years. A configuration that is not valid is
refused before the link is used. -/
theorem valid_configuration_mounts (c : Config) :
    (c.validate = .ok () → ∃ s, seededStore c = .ok s ∧
      (∀ p : Path, p.absolute = true → c.server.mountPoint.within p = true →
        ∃ o, s.object? p = some o ∧ o.kind = .collection) ∧
      (∀ ids visiting, ∃ facade crew l, start c ids visiting (.ofServer (.ofStore s)) =
        (.ok (facade, crew), l) ∧ facade.link.store = s ∧
        ∀ h p, facade.registry.pathOf? h = some p ↔ h = 1 ∧ p = c.server.mountPoint) ∧
      (CommandLine.lifetimesHold c.lifetimes = true →
        CommandLine.serve c s = .success "daemon ended" true)) ∧
    ∀ e, c.validate = .error e → ∀ ids visiting l,
      start c ids visiting l = (.error (.config e), l) := by
  constructor
  · intro h
    obtain ⟨s, hseed, hadmits, hthere⟩ := seededStore_ok h
    have habs := absolute_of_validate h
    obtain ⟨o, ho, hk⟩ := hthere c.server.mountPoint.place
      (fun hn => by rw [hn] at habs; cases habs) (List.prefix_refl _)
    have hserves : (Link.ofServer (.ofStore s)).Serves s := ⟨rfl, rfl, rfl, rfl⟩
    refine ⟨s, hseed, fun p hp hbelow => ?_, fun ids visiting => ?_, fun hlife => ?_⟩
    · refine hthere p.place (fun hn => ?_) (Path.within_iff.1 hbelow)
      have hroot := Path.absolute_iff.1 hp
      rw [hn] at hroot
      cases hroot
    · obtain ⟨facade, crew, l, hstart, hmounted⟩ := start_ok h hadmits ho hk ids visiting hserves
      exact ⟨facade, crew, l, hstart, hmounted.store, hmounted.paths⟩
    · obtain ⟨facade, crew, l, hstart, -⟩ := start_ok h hadmits ho hk .host .asKept hserves
      rw [CommandLine.serve, hstart, hlife]
      rfl
  · intro e he ids visiting l
    rw [start, he]

def oddlySpelled : Config where
  server := { ServerSettings.default with mountPoint := ⟨"/a//b/../x/"⟩ }
  backend := { BackendSettings.default with zone := "a/./b" }

theorem oddly_spelled_mounts :
    oddlySpelled.validate = .ok () ∧ ∃ s, seededStore oddlySpelled = .ok s ∧
    (∃ o, s.object? ⟨"/a/b/.."⟩ = some o ∧ o.kind = .collection) ∧
    CommandLine.serve oddlySpelled s = .success "daemon ended" true := by
  have hvalid : oddlySpelled.validate = .ok () := by decide +kernel
  obtain ⟨s, hseed, hthere, -, hserve⟩ := (valid_configuration_mounts oddlySpelled).1 hvalid
  exact ⟨hvalid, s, hseed, hthere ⟨"/a/b/.."⟩ (by decide +kernel) (by decide +kernel),
    hserve (by decide +kernel)⟩

end Service
end StoreMount
