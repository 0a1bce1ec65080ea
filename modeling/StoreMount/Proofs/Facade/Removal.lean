import StoreMount.Proofs.Facade.Navigation
import StoreMount.Proofs.Facade.Retirement

/-!
# What a removal leaves behind

The store removes a path only if nothing is in it, and the registry then gives up the handle of this
path and no other. In a store that is a tree nothing stands below a path with nothing in it, so a
handle that is mapped there is one for an object that somebody else has taken away meanwhile, and it
stays. A facade that has the store to itself has no such handles; then nothing that led to the path
or below it leads anywhere from there on.
-/
namespace StoreMount

theorem Store.Rooted.nothing_below {s : Store} (hs : s.Rooted) {top k : Place} (htop : top ≠ [])
    (hc : s.hasChildren top = false) (hk : top <+: k) (hne : k ≠ top) :
    s.objects.get? k = none := by
  obtain ⟨rest, rfl⟩ := hk
  cases rest with
  | nil => exact absurd (List.append_nil _) hne
  | cons c rest =>
    have hchild : s.objects.get? (top ++ [c]) = none :=
        Option.eq_none_iff_forall_ne_some.2 fun o ho =>
      Store.get?_of_hasChildren hc ho (Place.parent?_append_singleton (.inl htop))
    rw [List.append_cons]
    exact hs.get?_append (by simp) hchild rest

theorem Store.Rooted.no_shadow_below {s : Store} (hs : s.Rooted) {top k : Place} (htop : top ≠ [])
    (hc : s.hasChildren top = false) (hk : top <+: k) (hne : k ≠ top) : ¬s.Shadow k := by
  rintro ⟨up, n, -, rfl, hthere⟩
  have hup : top <+: up := (List.prefix_concat_iff.1 hk).resolve_left fun h => hne h.symm
  refine hthere (Store.standing?_eq_none_iff.2
    (hs.nothing_below htop hc (hup.trans (List.prefix_append ..)) fun h => ?_))
  have hlength := hup.length_le
  rw [← h, List.length_append, List.length_singleton] at hlength
  omega

namespace Facade

variable {f g : Facade} {path : Path}

theorem Reachable.ahead (h : f.Reachable) : f.registry.Ahead := by
  induction h with
  | mounted h => exact (Facade.mounted h).ahead
  | @moved f move hf ih =>
    exact ih.onward (upheld_step (Scene.invariant_onward f.registry) ⟨hf.inverse, .refl _⟩ move).2
  | beset _ _ _ _ _ ih => exact ih

theorem Reachable.runAmong (h : f.Reachable) (turns : List Turn) :
    (f.runAmong turns).Reachable := by
  induction turns generalizing f with
  | nil => exact h
  | cons t turns ih =>
    refine ih (f := f.turn t) ?_
    cases t with
    | own move => exact .moved move h
    | others change =>
      simp only [turn]
      split
      · exact .beset _ f.identities f.resolver f.allowList h
      · exact h

theorem Reachable.run (h : f.Reachable) (moves : List Move) : (f.run moves).Reachable := by
  induction moves generalizing f with
  | nil => exact h
  | cons move moves ih => exact ih (.moved move h)

/-! ## One removal -/

structure Dropped (f g : Facade) (path : Path) : Prop where
  named : path.place ≠ []
  childless : f.link.store.hasChildren path.place = false
  inverse : g.registry.Inverse
  next : g.registry.next = f.registry.next
  paths : ∀ h q, g.registry.pathOf? h = some q ↔
    f.registry.pathOf? h = some q ∧ q.place ≠ path.place

theorem remove_dropped {uid : UInt32} {parent : Handle} {name : String} (hf : f.registry.Inverse)
    (hok : (remove uid parent name f).1 = .ok ()) :
    ∃ base, f.registry.pathOf? parent = some base ∧
      f.Dropped (remove uid parent name f).2 (base.child name) := by
  have htriple : Triple (ground · = f.ground) (remove uid parent name)
      (fun _ g => ∃ base, f.registry.pathOf? parent = some base ∧ f.Dropped g (base.child name))
      (fun _ _ => True) := by
    refine Keeps.then_triple (keeps_resolve uid) (fun _ _ _ => trivial) fun user => ?_
    have hground : Keeps ground (childPath parent name) := keeps_childPath parent name
    have hchild := (hground.triple f.ground).and (childPath_registry parent name f.registry)
    refine Triple.bind
      (hchild.weaken (fun _ h => ⟨h, congrArg Ground.registry h⟩) (fun _ _ h => ⟨h.1, h.2.2⟩)
      fun _ _ _ => trivial) fun path => Triple.of_known ?_
    rintro ⟨base, hbase, hname, rfl⟩
    have hnamed : (base.child name).place ≠ [] := by simp [Path.place_child hname]
    refine Triple.bind ((told_triple f.ground).weaken (fun _ h => h) (fun _ _ h => h) fun _ _ _ =>
        trivial) fun _ => ?_
    refine Triple.of_view (C := fun g' => ∃ session : Session, ∃ s',
      f.ground.store.remove session.user (base.child name) = .ok s' ∧
        g' = { f.ground with store := s' }) ?_
    rintro - ⟨session, s', hs', rfl⟩
    obtain ⟨r', hr', hinverse, hnext, hpaths⟩ := hf.giveUp (base.child name)
    refine then_changeCache (by intro; rfl) ?_
    refine (changeRegistry_triple (g := { f.ground with store := s' }) hr').weaken (fun _ h => h)
      (fun _ g hg => ?_)
      fun _ _ _ => trivial
    obtain rfl : g.registry = r' := congrArg Ground.registry hg
    exact ⟨base, hbase, hnamed, (Store.remove_eq_ok hs').2.1, hinverse, hnext, hpaths⟩
  have hdropped := htriple f rfl
  rcases hm : (remove uid parent name f : Except FacadeError Unit × Facade) with ⟨e | a, g⟩
    <;> rw [hm] at hdropped hok
  · cases hok
  · exact hdropped

theorem Dropped.stay_iff (hd : f.Dropped g path) (h : Handle) (q : Path) :
    g.registry.pathOf? h = some q ∧ path.At q ↔ f.registry.pathOf? h = some q ∧ path.Below q := by
  rw [hd.paths h q, and_assoc, Path.Below, Path.At, and_comm (a := q.place ≠ path.place)]

theorem Dropped.stranded (hd : f.Dropped g path) (hs : f.link.store.Rooted) {q : Path}
    (hq : path.Below q) :
    f.link.store.object? q = none := hs.nothing_below hd.named hd.childless hq.1 hq.2

/-! ## All handles of a tree -/

/-- Nothing leads to the path or below it any more, and what did so before never leads anywhere
again. -/
structure Cleared (f g : Facade) (path : Path) : Prop where
  nothing : ∀ h q, g.registry.pathOf? h = some q → ¬path.At q
  never : ∀ h q, f.registry.pathOf? h = some q → path.At q →
    ∀ turns, (g.runAmong turns).registry.pathOf? h = none

theorem Dropped.cleared_iff (hd : f.Dropped g path) (hf : f.registry.Ahead) :
    f.Cleared g path ↔ ∀ h q, f.registry.pathOf? h = some q → ¬path.Below q := by
  refine ⟨fun hc h q hq hb => ?_, fun hnone => ?_⟩
  · obtain ⟨hq', hat⟩ := (hd.stay_iff h q).2 ⟨hq, hb⟩
    exact hc.nothing h q hq' hat
  · have hnothing : ∀ h q, g.registry.pathOf? h = some q → ¬path.At q := fun h q hq hat => by
      obtain ⟨hq', hb⟩ := (hd.stay_iff h q).1 ⟨hq, hat⟩
      exact hnone h q hq' hb
    refine ⟨hnothing, fun h q hq hat turns => ?_⟩
    have hgone : g.registry.pathOf? h = none := Option.eq_none_iff_forall_ne_some.2 fun q' hq' => by
      obtain rfl := Option.some.inj (((hd.paths h q').1 hq').1.symm.trans hq)
      exact hnothing h q' hq' hat
    exact (onward_runAmong hd.inverse turns).2.unmapped
      (Nat.lt_of_lt_of_eq (hf.mapped h q hq) hd.next.symm) hgone

/-- The states of a facade that has had the store to itself since it was mounted on one that is a
tree. -/
inductive Alone : Facade → Prop
  | mounted {link : Link} {ids : Identities} {resolver : Resolver} {allowList : AllowList}
      {options : Options} {f : Facade}
      (hs : link.store.Reachable) (hr : link.store.Rooted)
      (h : (mount link ids resolver allowList options).1 = .ok f) : Alone f
  | moved {f : Facade} (move : Move) (h : Alone f) : Alone (f.step move).2

theorem Alone.lockstep (h : f.Alone) : f.ground.Lockstep := by
  induction h with
  | mounted hs hr h => exact (Facade.mounted h).lockstep (hs.sound hr)
  | moved move _ ih => exact (advances_step _ move ih).1

/-- In every state that a facade can come to, a removal that goes well clears the path that it is
about if and only if nothing is mapped below that; whatever is stays, and in a store that is a tree
it leads to no object. So if the facade has had the store to itself all along, the removal clears
the path. -/
theorem removal_clears_unless_stranded {uid : UInt32} {parent : Handle}
    {name : String} (hf : f.Reachable) (hok : (remove uid parent name f).1 = .ok ()) :
    ∃ base, f.registry.pathOf? parent = some base ∧
      let path := base.child name
      let g := (remove uid parent name f).2
      (f.Cleared g path ↔ ∀ h q, f.registry.pathOf? h = some q → ¬path.Below q) ∧
      (∀ h q, g.registry.pathOf? h = some q ∧ path.At q ↔
          f.registry.pathOf? h = some q ∧ path.Below q) ∧
      (f.link.store.Rooted → ∀ q, path.Below q → f.link.store.object? q = none) ∧
      (f.Alone → f.Cleared g path) := by
  obtain ⟨base, hbase, hd⟩ := remove_dropped hf.inverse hok
  have hcleared := hd.cleared_iff hf.ahead
  refine ⟨base, hbase, hcleared, hd.stay_iff,
    fun hs _ => hd.stranded hs, fun halone => hcleared.2 fun h q hq hb => ?_⟩
  have hlockstep := halone.lockstep
  have hrooted : f.link.store.Rooted := hlockstep.sound.rooted
  rcases hlockstep.present h q hq with hthere | hshadow
  · exact hthere (Store.standing?_eq_none_iff.2 (hd.stranded hrooted hb))
  · exact hrooted.no_shadow_below hd.named hd.childless hb.1 hb.2 hshadow

/-! A client makes a directory in a directory, somebody else removes the inner one from the store,
and the client then removes the outer one. -/

def nesting : List Move := [.ask (.mkdir 0 1 "a"), .ask (.mkdir 0 2 "b")]

def stranding : List Turn := nesting.map .own ++ [.others (.remove "rods" ⟨"/z/a/b"⟩)]

theorem stranded_handle_stays : ∃ f, sampleMount .default = .ok f ∧
    (f.run nesting).Cleared (remove 0 2 "b" (f.run nesting)).2 ((Path.mk "/z/a").child "b") ∧
    (remove 0 1 "a" (f.runAmong stranding)).2.registry.pathOf? 3 = some ⟨"/z/a/b"⟩ := by
  have hchecks : (sampleMount .default).toOption.any (fun f =>
      decide ((remove 0 2 "b" (f.run nesting)).1.toOption = some () ∧
          (f.run nesting).registry.pathOf? 2 = some ⟨"/z/a"⟩ ∧
        (remove 0 1 "a" (f.runAmong stranding)).1.toOption = some () ∧
        (f.runAmong stranding).registry.pathOf? 1 = some ⟨"/z"⟩ ∧
        (f.runAmong stranding).registry.pathOf? 3 = some ⟨"/z/a/b"⟩)) = true := by decide +kernel
  obtain ⟨f, hm, hchecks⟩ := exists_of_any hchecks
  obtain ⟨hinner, hupper, houter, htop, hpath⟩ := of_decide_eq_true hchecks
  have hstore : sampleLink.store.Reachable := .new "z" "rods"
  have halone : (f.run nesting).Alone :=
    .moved _ (.moved _ (.mounted hstore (by decide +kernel) hm))
  have hbelow : ((Path.mk "/z").child "a").Below ⟨"/z/a/b"⟩ := by constructor <;> decide +kernel
  have hmounted : f.Reachable := .mounted hm
  obtain ⟨base, hbase, -, -, -, hcleared⟩ :=
    removal_clears_unless_stranded (hmounted.run nesting) (eq_ok_of_toOption hinner)
  obtain ⟨base', hbase', -, hstay, -, -⟩ :=
    removal_clears_unless_stranded (hmounted.runAmong stranding) (eq_ok_of_toOption houter)
  obtain rfl := Option.some.inj (hupper.symm.trans hbase)
  obtain rfl := Option.some.inj (htop.symm.trans hbase')
  exact ⟨f, hm, hcleared halone, ((hstay 3 _).2 ⟨hpath, hbelow⟩).1⟩

theorem stranded_handle_left :
    ¬∀ (link : Link) (ids : Identities) (resolver : Resolver) (allowList : AllowList)
    (options : Options) (f : Facade), link.store.Reachable →
      (mount link ids resolver allowList options).1 = .ok f →
      ∀ (turns : List Turn) (uid : UInt32) (parent : Handle) (name : String) (base : Path),
        (remove uid parent name (f.runAmong turns)).1 = .ok () →
        (f.runAmong turns).registry.pathOf? parent = some base →
          (f.runAmong turns).Cleared (remove uid parent name (f.runAmong turns)).2
          (base.child name) := by
  intro hcleared
  have hchecks : (sampleMount .default).toOption.any (fun f =>
      decide ((remove 0 1 "a" (f.runAmong stranding)).1.toOption = some () ∧
        (f.runAmong stranding).registry.pathOf? 1 = some ⟨"/z"⟩ ∧
        (remove 0 1 "a" (f.runAmong stranding)).2.registry.pathOf? 3 = some ⟨"/z/a/b"⟩)) =
          true := by decide +kernel
  obtain ⟨f, hm, hchecks⟩ := exists_of_any hchecks
  obtain ⟨hok, htop, hleft⟩ := of_decide_eq_true hchecks
  have hreachable : sampleLink.store.Reachable := .new "z" "rods"
  have hat : ((Path.mk "/z").child "a").place <+: (Path.mk "/z/a/b").place := by decide +kernel
  exact (hcleared _ _ _ _ _ f hreachable hm stranding 0 1 "a" _
    (eq_ok_of_toOption hok) htop).nothing 3 _ hleft hat

/-- Made anew, the inner directory has the old handle. -/
example : (sampleMount .default).toOption.any (fun f =>
    let g := (remove 0 1 "a" (f.runAmong stranding)).2.run [.ask (.mkdir 0 1 "a")]
    decide (g.registry.pathOf? 4 = some ⟨"/z/a"⟩ ∧ (mkdir 0 4 "b" g).1.toOption = some 3)) =
      true := by decide +kernel

end Facade
end StoreMount
