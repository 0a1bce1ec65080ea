import StoreMount.Proofs.Facade.Confinement
import StoreMount.Proofs.Facade.Labels

/-!
# The way up

A handle that is answered for a child is mapped to a path with one component more than that of the
handle it was looked up or made under, and going up takes that component away again: the registry,
which is a bijection, has one handle for what is left. Every mapped path is below the mount point,
and the mount point is its own parent; so from anywhere the way up is as long as the path is deep,
and it ends at the root.
-/
namespace StoreMount.Facade

variable {f g : Facade} {top p q : Path} {before : List Call} {h d : Handle}

/-- The states of a facade from its mount on, where between its moves everything around it may be
other than it was left, as long as the store is one that can come about. -/
inductive Attained : Facade → Prop
  | mounted {link : Link} {ids : Identities} {resolver : Resolver} {allowList : AllowList}
      {options : Options} {f : Facade}
      (hs : link.store.Reachable)
      (h : (mount link ids resolver allowList options).1 = .ok f) : Attained f
  | moved {f : Facade} (move : Move) (h : Attained f) : Attained (f.step move).2
  | beset {f : Facade} {link : Link} (hs : link.store.Reachable) (identities : Identities)
      (resolver : Resolver)
      (allowList : AllowList) (h : Attained f) :
        Attained { f with link, identities, resolver, allowList }

theorem Attained.confined (h : f.Attained) :
    ∃ before, f.scene.Confined f.options.mountPoint before := by
  induction h with
  | @mounted _ _ _ _ options f hs h =>
    have hmounted := Facade.mounted h
    exact ⟨_, hmounted.kept.symm ▸ hmounted.confined hs.spelled⟩
  | @moved f move _ ih =>
    obtain ⟨before, hf⟩ := ih
    have hg := upheld_step (Scene.Confined.invariant _ _) hf move
    have hmount : (f.step move).2.options.mountPoint = f.options.mountPoint := hg.mount
    exact ⟨before, hmount.symm ▸ hg⟩
  | beset hs _ _ _ _ ih =>
    obtain ⟨_, hf⟩ := ih
    exact ⟨_, { hf with spelled := hs.spelled, calls := ⟨[], (List.append_nil _).symm, nofun⟩ }⟩

/-! ## One component down -/

instance : Quiet Facade.registry where
  link _ _ _ := rfl
  resolver _ _ := rfl
  cache _ _ _ := rfl

/-- An answer is the handle for an ordinary child of what the handle leads to, and handing it out is
all that happens to the registry. -/
def AnswersChild (d : Handle) (name : String) (m : FacadeM Handle) : Prop :=
  ∀ r, Triple (·.registry = r) m
    (fun h f => ∃ p, r.pathOf? d = some p ∧ Spelling.Plain name ∧
        r.handleFor (p.child name) = (h, f.registry))
    (fun _ _ => True)

theorem childPath_registry (d : Handle) (name : String) (r : Registry) :
    Triple (·.registry = r) (childPath d name)
      (fun path f => f.registry = r ∧ ∃ p,
        r.pathOf? d = some p ∧ Spelling.Plain name ∧ path = p.child name)
      (fun _ _ => True) := by
  unfold childPath
  split
  · exact Triple.of_throw fun _ _ => trivial
  · next hn =>
    have hpath : Triple (Facade.registry · = r) (pathOf d)
      (fun p f => f.registry = r ∧ r.pathOf? d = some p)
      (fun _ f => f.registry = r) := pathOf_triple d fun _ h => h
    refine Triple.bind (hpath.weaken (fun _ h => h) (fun _ _ h => h) fun _ _ _ =>
        trivial) fun p => ?_
    exact Triple.of_pure fun f hf => ⟨hf.1, p, hf.2, Spelling.plain_of_ordinary hn, rfl⟩

theorem handleFor_answer (path : Path) (r : Registry) :
    Triple (·.registry = r) (handleFor path) (fun h f => r.handleFor path = (h, f.registry))
      (fun _ _ => True) := by
  rintro f rfl
  rfl

theorem AnswersChild.of_path {name : String} {m : Principal → Path → FacadeM Handle} (uid : UInt32)
    (hm : ∀ user path r, Triple (·.registry = r) (m user path)
      (fun h f => r.handleFor path = (h, f.registry)) fun _ _ => True) :
    AnswersChild d name (do
      let user ← resolve uid
      let path ← childPath d name
      m user path) := fun r => by
  refine Keeps.then_triple (keeps_resolve uid) (fun _ _ _ => trivial) fun user => ?_
  refine (childPath_registry d name r).bind fun path => Triple.of_known ?_
  rintro ⟨p, hp, hn, rfl⟩
  exact (hm user _ r).weaken (fun _ h => h) (fun _ _ h => ⟨p, hp, hn, h⟩) fun _ _ h => h

theorem made_answer {account : Account} {action : Session → LinkM StoreError Unit} (path : Path)
    (kind : ObjectKind) (r : Registry) : Triple (·.registry = r) (do
      during account fun session => call (action session)
      changeCache (·.putObjectType path kind)
      changeCache (·.forgetAttributes path)
      handleFor path) (fun h f => r.handleFor path = (h, f.registry)) (fun _ _ => True) := by
  refine Keeps.then_triple (keeps_during fun _ _ => rfl) (fun _ _ _ => trivial) fun _ => ?_
  refine Keeps.then_triple (Keeps.of_modify fun _ => rfl) (fun _ _ _ => trivial) fun _ => ?_
  exact Keeps.then_triple (Keeps.of_modify fun _ => rfl) (fun _ _ _ => trivial) fun _ =>
    handleFor_answer path r

theorem lookup_answersChild (uid : UInt32) (d : Handle) {name : String} (hhere : name ≠ ".")
    (hup : name ≠ "..") :
    AnswersChild d name (lookup uid d name) := by
  unfold lookup
  rw [if_neg hhere, if_neg hup]
  refine .of_path uid fun user path r => ?_
  refine during_triple user.account (Q := fun h r' => r.handleFor path = (h, r'))
    (E := fun _ => True) (fun session => ?_) trivial
  refine Keeps.then_triple (keeps_stat session path) (fun _ _ _ => trivial) fun status => ?_
  exact Keeps.then_triple (Keeps.of_modify fun _ => rfl) (fun _ _ _ => trivial) fun _ =>
    handleFor_answer path r

theorem mkdir_answersChild (uid : UInt32) (d : Handle) (name : String) :
    AnswersChild d name (mkdir uid d name) :=
  .of_path uid fun _ path r => made_answer path .collection r

theorem create_answersChild (uid : UInt32) (d : Handle) (name : String) (type : FileType) :
    AnswersChild d name (create uid d name type) := by
  unfold create
  split
  · exact fun _ _ _ => trivial
  · exact .of_path uid fun _ path r =>
        Keeps.then_triple Keeps.of_get (fun _ _ _ => trivial) fun f =>
      made_answer path .dataObject r

/-! ## One component up -/

theorem lookup_here (uid : UInt32) (hp : f.registry.pathOf? h = some p) :
    lookup uid h "." f = (.ok h, f) := by
  rw [lookup, if_pos rfl, bind_apply, pathOf_apply, hp]
  rfl

theorem lookup_up (uid : UInt32) (h : Handle) : lookup uid h ".." = parentOf h := by
  rw [lookup, if_neg (by decide), if_pos rfl]

theorem parentOf_root (hp : f.registry.pathOf? Registry.rootHandle = some p) :
    parentOf Registry.rootHandle f = (.ok Registry.rootHandle, f) := by
  rw [parentOf, bind_apply, pathOf_apply, hp]
  simp only [bind_apply, get_apply, true_or, if_true]
  rfl

theorem parentOf_below (hf : f.scene.Confined top before) (hp : f.registry.pathOf? h = some p)
    (hh : h ≠ Registry.rootHandle) : parentOf h f = match p.parent? with
      | some up =>
        (.ok (f.registry.handleFor up).1, { f with registry := (f.registry.handleFor up).2 })
      | none => (.ok Registry.rootHandle, f) := by
  have hmount : f.options.mountPoint = top := hf.mount
  have hne : ¬(h = Registry.rootHandle ∨ p.place = f.options.mountPoint.place) := by
    rw [hmount]
    exact not_or.2 ⟨hh, (hf.others h p hp hh).2⟩
  rw [parentOf, bind_apply, pathOf_apply, hp]
  simp only [bind_apply, get_apply, if_neg hne]
  cases p.parent? <;> rfl

theorem parentOf_child (hf : f.scene.Confined top before) (hd : f.registry.pathOf? d = some p)
    (hq : f.registry.pathOf? h = some q) {name : String}
    (hplace : q.place = p.place ++ [.name name]) :
    parentOf h f = (.ok d, f) := by
  have hh : h ≠ Registry.rootHandle := by
    rintro rfl
    obtain rfl : q = top := Option.some.inj (hq.symm.trans hf.root)
    have hlength := (show q.At p from hf.mapped hd).length_le
    rw [hplace, List.length_append, List.length_singleton] at hlength
    exact Nat.not_succ_le_self _ hlength
  have hparent : q.place.parent? = some p.place := by
    rw [hplace]
    exact Place.parent?_append_singleton (.inr nofun)
  obtain ⟨up, hup, hplace'⟩ := Option.map_eq_some_iff.1 ((Path.place_parent? q).trans hparent)
  have hhandle : f.registry.handleOf? up = some d :=
    (hf.inverse.handle_iff d up).2 ⟨p, hd, hplace'.symm⟩
  rw [parentOf_below hf hq hh, hup]
  simp only [Registry.handleFor, hhandle]

theorem dropLast_of_parent?_none {k : Place} (h : k.parent? = none) : k.dropLast = [] := by
  unfold Place.parent? at h
  split at h
  · rfl
  · rfl
  · cases h

theorem step_up (hf : f.scene.Confined top before) (hp : f.registry.pathOf? h = some p)
    (uid : UInt32) :
    ∃ h' g p', lookup uid h ".." f = (.ok h', g) ∧ g.scene.Confined top before ∧
      g.registry.pathOf? h' = some p' ∧
      p'.place = p.place.take (max top.place.length (p.place.length - 1)) := by
  rw [lookup_up]
  by_cases hh : h = Registry.rootHandle
  · subst hh
    obtain rfl : p = top := Option.some.inj (hp.symm.trans hf.root)
    exact ⟨_, f, p, parentOf_root hp, hf, hp, (List.take_of_length_le (Nat.le_max_left ..)).symm⟩
  · obtain ⟨hat, hne⟩ := hf.others h p hp hh
    have hlonger : top.place.length < p.place.length :=
      Nat.lt_of_le_of_ne hat.length_le fun he => hne (hat.eq_of_length he).symm
    have hshorter : p.place.take (max top.place.length (p.place.length - 1)) =
        p.place.dropLast := by
      rw [Nat.max_eq_right (by omega), List.dropLast_eq_take]
    rw [parentOf_below hf hp hh, hshorter]
    cases hup : p.parent? with
    | some up =>
      have hparent : p.place.parent? = some up.place := by
        rw [← Path.place_parent?, hup, Option.map_some]
      obtain ⟨c, hc⟩ := Place.parent?_eq_some hparent
      obtain ⟨p', hp', hplace⟩ := Registry.leadsTo_handleFor hf.inverse up
      refine ⟨_, _, p', rfl, hf.entered ((hf.others h p hp hh).parent hup), hp', ?_⟩
      rw [hplace, hc, List.dropLast_concat]
    | none =>
      have hparent : p.place.parent? = none := by rw [← Path.place_parent?, hup, Option.map_none]
      have hnil := dropLast_of_parent?_none hparent
      refine ⟨_, f, top, rfl, hf, hf.root, ?_⟩
      have hlength := congrArg List.length hnil
      rw [List.length_dropLast, List.length_nil] at hlength
      rw [hnil, ← List.length_eq_zero_iff]
      omega

/-! ## All the way up -/

/-- One step up for each of the callers. -/
def climb (h : Handle) (uids : List UInt32) : FacadeM Handle :=
  uids.foldlM (fun h uid => lookup uid h "..") h

theorem climb_leads (hf : f.scene.Confined top before) (hp : f.registry.pathOf? h = some p)
    (uids : List UInt32) :
    ∃ h' g p', climb h uids f = (.ok h', g) ∧ g.scene.Confined top before ∧
      g.registry.pathOf? h' = some p' ∧
      p'.place = p.place.take (max top.place.length (p.place.length - uids.length)) := by
  induction uids generalizing f h p with
  | nil => exact ⟨h, f, p, rfl, hf, hp, (List.take_of_length_le (Nat.le_max_right ..)).symm⟩
  | cons uid uids ih =>
    obtain ⟨h₁, f₁, p₁, hup, hf₁, hp₁, hplace₁⟩ := step_up hf hp uid
    obtain ⟨h', g, p', hclimb, hg, hp', hplace'⟩ := ih hf₁ hp₁
    refine ⟨h', g, p', ?_, hg, hp', ?_⟩
    · rw [climb, List.foldlM_cons, bind_apply, hup]
      exact hclimb
    · rw [hplace', hplace₁, List.length_take, List.take_take, List.length_cons]
      congr 1
      omega

theorem root_iff (hf : f.scene.Confined top before) (hp : f.registry.pathOf? h = some p) :
    h = Registry.rootHandle ↔ p.place = top.place := by
  refine ⟨?_, fun hplace => hf.inverse.handle_unique hp hf.root hplace⟩
  rintro rfl
  rw [Option.some.inj (hp.symm.trans hf.root)]

/-- In every state that a facade can come to: from the handle that a look-up, a creation or a new
collection answers for an ordinary name, the way up is the handle that it was asked under, and the
handle itself is what the collection calls here. And up from any mapped handle there is always one,
mapped to as much of its path as is left but not less than the mount point; it is the root handle
from the step on that takes away the last component below the mount point. -/
theorem navigation_consistent (hf : f.Attained) :
    (∀ uid d name type, name ≠ "." → name ≠ ".." →
      ∀ m ∈ [lookup uid d name, create uid d name type, mkdir uid d name],
      ∀ h g, m f = (.ok h, g) → parentOf h g = (.ok d, g) ∧
        ∀ uid', lookup uid' h ".." g = (.ok d, g) ∧ lookup uid' h "." g = (.ok h, g)) ∧
    ∀ h p, f.registry.pathOf? h = some p → ∀ uids, ∃ h' g p', climb h uids f = (.ok h', g) ∧
      g.registry.pathOf? h' = some p' ∧
      p'.place =
        p.place.take (max f.options.mountPoint.place.length (p.place.length - uids.length)) ∧
      (h' = Registry.rootHandle ↔
        p.place.length - f.options.mountPoint.place.length ≤ uids.length) := by
  obtain ⟨before, hf⟩ := hf.confined
  refine ⟨fun uid d name type hhere hup m hm h g hanswer => ?_, fun h p hp uids => ?_⟩
  · have hI := Scene.Confined.invariant f.options.mountPoint before
    have hchild : AnswersChild d name m ∧
        Upholds (Scene.Confined f.options.mountPoint before) m Any := by
      simp only [List.mem_cons, List.not_mem_nil, or_false] at hm
      rcases hm with rfl | rfl | rfl
      · exact ⟨lookup_answersChild uid d hhere hup, upholds_lookup hI uid d name⟩
      · exact ⟨create_answersChild uid d name type, upholds_create hI uid d name type⟩
      · exact ⟨mkdir_answersChild uid d name, upholds_mkdir hI uid d name⟩
    obtain ⟨hchild, hupholds⟩ := hchild
    have hg := hupholds f hf
    rw [hanswer] at hg
    have hregistry := hchild f.registry f rfl
    rw [hanswer] at hregistry
    obtain ⟨p, hp, hname, hhandle⟩ := hregistry
    obtain ⟨q, hq, hplace⟩ := Registry.leadsTo_handleFor (r := f.registry) hf.inverse (p.child name)
    have hd := Registry.extends_handleFor f.registry (p.child name) d p hp
    rw [hhandle] at hq hd
    have hparent : parentOf h g = (.ok d, g) :=
      parentOf_child hg.1 hd hq (hplace.trans (Path.place_child hname p))
    exact ⟨hparent, fun uid' => ⟨(lookup_up uid' h).symm ▸ hparent, lookup_here uid' hq⟩⟩
  · obtain ⟨h', g, p', hclimb, hg, hp', hplace⟩ := climb_leads hf hp uids
    refine ⟨h', g, p', hclimb, hp', hplace, ?_⟩
    have hat : f.options.mountPoint.place <+: p.place := hf.mapped hp
    have hle := hat.length_le
    rw [root_iff hg hp', hplace]
    constructor
    · intro he
      have hlength := congrArg List.length he
      rw [List.length_take] at hlength
      omega
    · intro hn
      rw [Nat.max_eq_left (by omega)]
      exact (List.prefix_iff_eq_take.1 hat).symm

theorem two_steps_up : ∃ f g, f.Attained ∧ mkdir 0 2 "b" f = (.ok 3, g) ∧
      parentOf 3 g = (.ok 2, g) ∧
    (∃ g', climb 2 [7] f = (.ok 1, g')) ∧ ∃ h' g', h' ≠ Registry.rootHandle ∧
      climb 2 [] f = (.ok h', g') := by
  have hchecks : (sampleMount .default).toOption.any (fun f =>
      let f' := (f.step (.ask (.mkdir 0 1 "a"))).2
      decide (f'.options.mountPoint = ⟨"/z"⟩ ∧ f'.registry.pathOf? 2 = some ⟨"/z/a"⟩ ∧
        (mkdir 0 2 "b" f').1.toOption = some 3)) = true := by decide +kernel
  obtain ⟨f, hm, hchecks⟩ := exists_of_any hchecks
  obtain ⟨hmount, hpath, hanswer⟩ := of_decide_eq_true hchecks
  have hreachable : sampleLink.store.Reachable := .new "z" "rods"
  have hattained : (f.step (.ask (.mkdir 0 1 "a"))).2.Attained := .moved _ (.mounted hreachable hm)
  obtain ⟨hchild, hclimb⟩ := navigation_consistent hattained
  have hmade : mkdir 0 2 "b" (f.step (.ask (.mkdir 0 1 "a"))).2 =
      (.ok 3, (mkdir 0 2 "b" (f.step (.ask (.mkdir 0 1 "a"))).2).2) :=
    Prod.ext (eq_ok_of_toOption hanswer) rfl
  have hdepth : (Path.mk "/z/a").place.length - (Path.mk "/z").place.length = 1 := by decide +kernel
  obtain ⟨h, g, -, hup, -, -, hroot⟩ := hclimb 2 _ hpath [7]
  obtain ⟨h', g', -, hstay, -, -, hroot'⟩ := hclimb 2 _ hpath []
  rw [hmount, hdepth] at hroot hroot'
  obtain rfl := hroot.2 (Nat.le_refl _)
  exact ⟨_, _, hattained, hmade,
    (hchild 0 2 "b" .directory (by decide) (by decide) _ (by simp) 3 _ hmade).1, ⟨g, hup⟩,
    h', g', fun he => absurd (hroot'.1 he) (by decide), hstay⟩

end StoreMount.Facade
