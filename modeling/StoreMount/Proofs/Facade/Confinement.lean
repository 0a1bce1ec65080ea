import StoreMount.Proofs.Facade.Upholding

/-!
# Nothing outside the mount point

Handle 1 stands for the mount point and no other handle does; all others stand for what is strictly
below it. Every path that a call names is at or below it too, whatever names and handles the clients
give and whatever others make of the store meanwhile. A path comes from the registry, from a name
that is one ordinary component put below such a path, or from a parent, and the parent of a path
strictly below the mount point is at or below it.
-/
namespace StoreMount

namespace Registry

variable {r : Registry}

theorem Inverse.pathOf?_moved (hr : r.Inverse) {source target : Path}
    {answer : Option Handle × Registry} (hm : r.moveTree source target = .ok answer) {h : Handle}
    {p : Path} (hp : answer.2.pathOf? h = some p) :
    (r.pathOf? h = some p ∧ ¬source.place <+: p.place) ∨
      ((∃ q, r.pathOf? h = some q ∧ source.place <+: q.place) ∧ target.place <+: p.place) := by
  cases ht : target.strictlyWithin source with
  | true => rw [moveTree_of_strictlyWithin ht] at hm; cases hm
  | false =>
    rw [moveTree_eq ht] at hm
    obtain rfl := Except.ok.inj hm
    obtain ⟨q, hq, -, ⟨hs, hplace⟩ | ⟨hs, rfl⟩⟩ := hr.of_pathOf?_relocated ht hp
    · exact .inr ⟨⟨q, hq, hs⟩, hplace ▸ List.prefix_append ..⟩
    · exact .inl ⟨hq, hs⟩

end Registry

structure Scene.Confined (top : Path) (before : List Call) (s : Scene) : Prop where
  mount : s.mountPoint = top
  spelled : s.store.Spelled
  inverse : s.registry.Inverse
  root : s.registry.pathOf? Registry.rootHandle = some top
  others : ∀ h p, s.registry.pathOf? h = some p → h ≠ Registry.rootHandle → top.Below p
  plain : ∀ key l, s.listings.get? key = some l → ∀ e ∈ l.value.entries, Spelling.Plain e.name
  calls : ∃ made, s.calls = before ++ made ∧ ∀ c ∈ made, ∀ p ∈ c.paths, top.At p

namespace Scene.Confined

variable {top : Path} {before : List Call} {s s' : Scene}

theorem mapped (hs : s.Confined top before) {h : Handle} {p : Path}
    (hp : s.registry.pathOf? h = some p) : top.At p := by
  by_cases hh : h = Registry.rootHandle
  · subst hh
    obtain rfl := Option.some.inj (hs.root.symm.trans hp)
    exact List.prefix_rfl
  · exact (hs.others h p hp hh).at

theorem above (hs : s.Confined top before) {p : Path} (hp : top.Below p) {h : Handle} {q : Path}
    (hq : s.registry.pathOf? h = some q) (he : p.place <+: q.place) : h ≠ Registry.rootHandle := by
  rintro rfl
  obtain rfl := Option.some.inj (hs.root.symm.trans hq)
  exact hp.not_prefix he

theorem entered (hs : s.Confined top before) {p : Path} (hp : top.At p) :
    Confined top before { s with registry := (s.registry.handleFor p).2 } := by
  refine { hs with inverse := hs.inverse.handleFor p, root := ?_, others := fun h q hq hh => ?_ }
  · rcases s.registry.pathOf?_handleFor p Registry.rootHandle with he | hnew
    · exact he.trans hs.root
    · cases hs.root.symm.trans hnew.free
  · rcases s.registry.pathOf?_handleFor p h with he | hnew
    · exact hs.others h q (he ▸ hq) hh
    · obtain rfl := Option.some.inj (hnew.mapped.symm.trans hq)
      refine ⟨hp, fun hplace => ?_⟩
      -- the mount point has its handle already
      have hnamed := (hs.inverse.handle_iff Registry.rootHandle p).2 ⟨top, hs.root, hplace.symm⟩
      cases hnamed.symm.trans hnew.unnamed

theorem gaveUp (hs : s.Confined top before) {p : Path} (hp : top.Below p)
    {h : Handle} {r : Registry} (hu : s.registry.unmap h p = .ok r) :
    Confined top before { s with registry := r } := by
  have hinverse := hs.inverse.unmap hu
  obtain ⟨⟨q, hq, hplace⟩, rfl⟩ := Registry.unmap_eq_ok hu
  have hroot : h ≠ Registry.rootHandle := hs.above hp hq (hplace ▸ List.prefix_rfl)
  refine { hs with inverse := hinverse, root := ?_, others := fun h' q' hq' hh' => ?_ }
  · rw [Registry.pathOf?_removePairs, if_neg (by simpa using Ne.symm hroot)]
    exact hs.root
  · rw [Registry.pathOf?_removePairs] at hq'
    split at hq'
    · cases hq'
    · exact hs.others h' q' hq' hh'

theorem moved (hs : s.Confined top before) {source target : Path} (hsource : top.Below source)
    (htarget : top.Below target) {answer : Option Handle × Registry}
    (hm : s.registry.moveTree source target = .ok answer) :
    Confined top before { s with registry := answer.2 } := by
  have hinverse : answer.2.Inverse := hs.inverse.moveTree_eq_ok hm
  refine { hs with inverse := hinverse, root := ?_, others := fun h p hp hh => ?_ }
  · cases ht : target.strictlyWithin source with
    | true => rw [Registry.moveTree_of_strictlyWithin ht] at hm; cases hm
    | false =>
      rw [Registry.moveTree_eq ht] at hm
      obtain rfl := Except.ok.inj hm
      exact hs.inverse.pathOf?_moveTree ht hs.root hsource.not_prefix htarget.not_prefix
  · rcases hs.inverse.pathOf?_moved hm hp with ⟨hq, -⟩ | ⟨-, hprefix⟩
    · exact hs.others h p hq hh
    · exact htarget.of_prefix hprefix

theorem step (h : Step top.At top.Below s s') (hs : s.Confined top before) :
    s'.Confined top before := by
  cases h with
  | asked made near quiet =>
    obtain ⟨made', hcalls, hat⟩ := hs.calls
    refine { hs with calls := ⟨made' ++ made, by rw [hcalls, List.append_assoc], fun c hc => ?_⟩ }
    exact (List.mem_append.1 hc).elim (hat c) (near c)
  | changed effect => exact { hs with spelled := hs.spelled.effect effect }
  | kept user there since =>
    refine { hs with plain := fun key l hl => ?_ }
    rw [Table.get?_insert] at hl
    split at hl
    · obtain rfl := Option.some.inj hl
      exact fun e he => hs.spelled.plain_of_mem_children he
    · exact hs.plain key l hl
  | entered near => exact hs.entered near
  | gaveUp below mapped unmapped => exact hs.gaveUp below unmapped
  | moved source_below target_below done => exact hs.moved source_below target_below done

theorem invariant (top : Path) (before : List Call) :
    Invariant top.At top.Below (Confined top before) where
  step := step
  near := Path.Below.at
  child hp hn := Path.below_child hp hn
  mapped hs hp := hs.mapped hp
  parent hs hp hroot _ hup := (hs.others _ _ hp hroot).parent hup
  shown hs hl hp e he := (Path.below_child hp (hs.plain _ _ hl e he)).at
  children hs hp _ he := (Path.below_child hp (hs.spelled.plain_of_mem_children he)).at

theorem others_change (hs : s.Confined top before) {change : Store.Change} {store : Store}
    (h : s.store.apply change = .ok store) : Confined top before { s with store } :=
  { hs with spelled := hs.spelled.apply h }

end Scene.Confined

namespace Facade

variable {link : Link} {ids : Identities} {resolver : Resolver} {allowList : AllowList}
    {options : Options} {f : Facade}

theorem Mounted.confined {s : Store} (h : f.Mounted s options) (hs : s.Spelled) :
    f.scene.Confined options.mountPoint f.link.calls where
  mount := congrArg Options.mountPoint h.kept
  spelled := by
    rw [← h.store] at hs
    exact hs
  inverse := h.inverse
  root := (h.paths _ _).2 ⟨rfl, rfl⟩
  others i p hp hi := absurd ((h.paths i p).1 hp).1 hi
  plain key l hl := by simp [scene, h.cache, Cache.new] at hl
  calls := ⟨[], (List.append_nil _).symm, by simp⟩

/-- After a mount, whatever clients ask and whatever others do to the store in between, faults or
not: handle 1 and no other stands for the mount point, every other mapped path is strictly below it,
seen from either side of the registry, and all calls that have been made since name only paths at or
below it. -/
theorem stays_below_mount_point (hs : link.store.Reachable)
    (hm : (mount link ids resolver allowList options).1 = .ok f) (turns : List Turn) :
    let g := f.runAmong turns
    let top := options.mountPoint.place
    g.registry.pathOf? 1 = some options.mountPoint ∧
    (∀ p, g.registry.handleOf? p = some 1 ↔ p.place = top) ∧
    (∀ h p, h ≠ 1 → g.registry.pathOf? h = some p → top <+: p.place ∧ p.place ≠ top) ∧
    (∀ h p, h ≠ 1 → g.registry.handleOf? p = some h → top <+: p.place ∧ p.place ≠ top) ∧
    ∃ made, g.link.calls = f.link.calls ++ made ∧ ∀ c ∈ made, ∀ p ∈ c.paths, top <+: p.place := by
  intro g top
  have hg : g.scene.Confined options.mountPoint f.link.calls :=
    upheld_runAmong (Scene.Confined.invariant _ _) (fun _ _ _ _ _ h hc => h.others_change hc)
      ((mounted hm).confined hs.spelled)
  have hroot : g.registry.pathOf? 1 = some options.mountPoint := hg.root
  refine ⟨hroot, fun p => ⟨fun hp => ?_, fun hp => ?_⟩,
    fun h p hh hp => hg.others h p hp hh, fun h p hh hp => ?_, hg.calls⟩
  · obtain ⟨q, hq, hplace⟩ := (hg.inverse.handle_iff 1 p).1 hp
    obtain rfl := Option.some.inj (hroot.symm.trans hq)
    exact hplace.symm
  · exact (hg.inverse.handle_iff 1 p).2 ⟨_, hroot, hp.symm⟩
  · obtain ⟨q, hq, hplace⟩ := (hg.inverse.handle_iff h p).1 hp
    have hbelow := hg.others h q hq hh
    rwa [Path.Below, hplace] at hbelow

/-! Others rename what a client has made; the client finds it again and moves it elsewhere. -/

def sampleTurns : List Turn :=
  [.own (.ask (.mkdir 0 1 "a")), .others (.rename "rods" ⟨"/z/a"⟩ ⟨"/z/b"⟩),
    .own (.ask (.lookup 0 1 "../b")),
    .own (.ask (.lookup 0 1 "b")), .own (.ask (.rename 0 1 "b" 1 "c")),
      .own (.ask (.lookup 0 3 ".."))]

theorem found_again_below_mount_point : ∃ f, sampleMount .default = .ok f ∧
    (f.runAmong sampleTurns).registry.pathOf? 3 = some ⟨"/z/c"⟩ ∧
    (f.runAmong sampleTurns).registry.pathOf? 1 = some ⟨"/z"⟩ ∧
    (Path.mk "/z").place <+: (Path.mk "/z/c").place ∧
      (Path.mk "/z/c").place ≠ (Path.mk "/z").place ∧
    ∃ made, (f.runAmong sampleTurns).link.calls = f.link.calls ++ made ∧
      ∀ c ∈ made, ∀ p ∈ c.paths, (Path.mk "/z").place <+: p.place := by
  have hpath : (sampleMount .default).toOption.any (fun f =>
      decide ((f.runAmong sampleTurns).registry.pathOf? 3 = some ⟨"/z/c"⟩)) = true := by
    decide +kernel
  cases hm : sampleMount .default with
  | error e =>
    rw [hm] at hpath
    cases hpath
  | ok f =>
    simp only [hm, Except.toOption, Option.any_some, decide_eq_true_eq] at hpath
    have hreachable : sampleLink.store.Reachable := .new "z" "rods"
    obtain ⟨hroot, -, hothers, -, hcalls⟩ := stays_below_mount_point hreachable hm sampleTurns
    obtain ⟨hat, hne⟩ := hothers 3 _ (by decide) hpath
    exact ⟨f, rfl, hpath, hroot, hat, hne, hcalls⟩

end Facade
end StoreMount
