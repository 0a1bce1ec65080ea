import StoreMount.Proofs.Facade.Enforcement
import StoreMount.Proofs.Store.Overlay

/-!
# What is written is what is read

Over a link that nobody interferes with, the writes that go through a handle to a data object lay
their data over its contents, whoever makes them, and a read is answered with the part of its range
that exists. Whether a write is taken depends on nothing but where it ends; one that is not taken
changes nothing. A write leaves the accounts and the object's access list alone, so whoever may
write or read before may do so after it.
-/
namespace StoreMount

variable {s s' : Store} {o o' : StoredObject}

namespace Resolver

variable {r : Resolver} {ids : Identities} {uid : UInt32} {l l' : Link}

theorem loaded_congr (hu : s'.users = s.users) (admin : Account) (ids : Identities) (uid : UInt32) :
    loaded s' admin ids uid = loaded s admin ids uid := by
  unfold loaded
  split
  · rfl
  · next person _ =>
    rw [Store.admits_congr hu, Store.findUser, Store.findUser, hu]
    cases s.users.get? person.name <;> rfl

theorem resolve_of_unknown (hl : l.Serves s) (h : r.known.get? uid = none) :
    (r.resolve ids uid l).1 = loaded s r.admin ids uid := by
  have hload := (load_gives s r.admin ids uid l hl).1
  rw [← hload, Resolver.resolve, h]
  rcases (load r.admin ids uid l : Except FacadeError Principal × Link) with ⟨e | p, l'⟩ <;> rfl

theorem resolve_again (hl : l.Serves s) (hl' : l'.Serves s') (hu : s'.users = s.users)
    {p : Principal} (h : (r.resolve ids uid l).1 = .ok p) (other : UInt32) :
    ((r.resolve ids other l).2.1.resolve ids uid l').1 = .ok p := by
  have hreads := reads_resolve r ids other l
  cases hk : r.known.get? uid with
  | some q =>
    rw [resolve_of_known hk] at h
    rw [resolve_of_known (known_resolve hk ids other l)]
    exact h
  | none =>
    cases hk' : (r.resolve ids other l).2.1.known.get? uid with
    | none =>
      rw [resolve_of_unknown hl' hk', hreads.admin, loaded_congr hu, ← resolve_of_unknown hl hk, h]
    | some q =>
      rcases resolve_cases r ids uid l with ⟨-, hp⟩ | ⟨person, hperson, hp, -⟩
      · cases hk.symm.trans (hp p h)
      · rcases hreads.known uid q hk' with hq | ⟨person', hperson', rfl⟩
        · cases hk.symm.trans hq
        · obtain rfl : person' = person := Except.ok.inj (hperson'.symm.trans hperson)
          rw [resolve_of_known hk', ← h, hp]

end Resolver

theorem Store.permits_congr (hu : s'.users = s.users) (hacl : o'.acl = o.acl) (user : String)
    (level : Level) :
    s'.permits user o' level = s.permits user o level := by
  simp only [Store.permits, Store.isAdmin, Store.levelOf?, Store.groupsOf, hu, hacl]

namespace Facade

variable {f g : Facade} {uid : UInt32} {handle : Handle} {path : Path}

structure Opened (f : Facade) (handle : Handle) (path : Path) (o : StoredObject) : Prop where
  link : f.link.Serves f.link.store
  mapped : f.registry.pathOf? handle = some path
  there : f.link.store.object? path = some o
  data : o.kind.isCollection = false

/-- Whoever is behind the number gets sessions and holds this level on the object. -/
def Entitled (f : Facade) (uid : UInt32) (o : StoredObject) (level : Level) : Prop :=
  ∃ user, (resolve uid f).1 = .ok user ∧ f.link.store.admits user.account = .ok () ∧
    f.link.store.permits user.account.clientUser o level = true

/-! ## One write, one read -/

theorem caller_gives {α : Type} (h : f.Opened handle path o) {user : Principal}
    (huser : (resolve uid f).1 = .ok user) {m : Principal → Path → FacadeM α}
    {r : Except FacadeError α} {P : Facade → Prop}
    (hm : Gives (Holds (f.resolved uid) fun _ => True) (m user path) r P) : Gives (· = f) (do
      let user ← resolve uid
      let path ← pathOf handle
      m user path) r P :=
  (resolve_reaches h.link trivial huser).bind_ok ((pathOf_gives_ok h.mapped).bind_ok hm)

theorem write_taken (h : f.Opened handle path o) (hu : f.Entitled uid o .write) {p : Patch}
    (hp : p.Fits) :
    Gives (· = f) (write uid handle p.offset p.bytes) (.ok (p.bytes.length, .fileSync))
      (Holds { f.resolved uid with
        store := f.link.store.rewritten path.place (·.write p.offset p.bytes) } fun _ => True) := by
  obtain ⟨user, huser, hadmits, hpermits⟩ := hu
  have hwrite : f.link.store.write user.account.clientUser path p.offset p.bytes =
      .ok (p.bytes.length, f.link.store.rewritten path.place (·.write p.offset p.bytes)) := by
    rw [Store.write_eq h.there h.data, Store.require_eq h.there, hpermits]
    exact if_neg (Nat.not_lt.2 hp)
  have hcall : Gives (Holds (f.resolved uid) fun _ => True)
      (during user.account fun session => call (Link.write session path p.offset p.bytes))
      (.ok p.bytes.length)
      (Holds { f.resolved uid with
        store := f.link.store.rewritten path.place (·.write p.offset p.bytes) } fun _ => True) :=
    during_gives hadmits fun session hsession => call_gives (r := .ok p.bytes.length)
      (Link.perform_gives_ok (hsession ▸ hwrite))
  exact caller_gives h huser
    (hcall.bind_ok (Gives.bind_ok (changeCache_gives fun _ h => h) Gives.of_pure))

theorem write_refused (h : f.Opened handle path o) (hu : f.Entitled uid o .write) {p : Patch}
    (hp : ¬p.Fits) :
    Gives (· = f) (write uid handle p.offset p.bytes) (.error (.fileTooLarge path.text))
      (Holds (f.resolved uid) fun _ => True) := by
  obtain ⟨user, huser, hadmits, hpermits⟩ := hu
  have hwrite : f.link.store.write user.account.clientUser path p.offset p.bytes =
      .error (.tooLarge path) := by
    rw [Store.write_eq h.there h.data, Store.require_eq h.there, hpermits]
    exact if_pos (Nat.not_le.1 hp)
  have hcall : Gives (Holds (f.resolved uid) fun _ => True)
      (during user.account fun session => call (Link.write session path p.offset p.bytes))
      (.error (.fileTooLarge path.text))
      (Holds (f.resolved uid) fun _ => True) :=
    during_gives hadmits fun session hsession => call_gives (r := .error (.tooLarge path))
      (Link.perform_gives_error (s := f.link.store) (hsession ▸ hwrite))
  exact caller_gives h huser hcall.bind_error

theorem read_slice (h : f.Opened handle path o) (hu : f.Entitled uid o .read) (offset count : Nat) :
    (read uid handle offset count f).1 = .ok ((o.contents.toList.drop offset).take count) := by
  obtain ⟨user, huser, hadmits, hpermits⟩ := hu
  have hread : f.link.store.read user.account.clientUser path offset count =
      .ok ((o.contents.toList.drop offset).take count) := by
    rw [Store.read_eq h.there h.data, Store.require_eq h.there, hpermits, Contents.read_eq]
    rfl
  have hcall : Gives (Holds (f.resolved uid) fun _ => True)
      (during user.account fun session => call (Link.read session path offset count))
      (.ok ((o.contents.toList.drop offset).take count)) (Holds (f.resolved uid) fun _ => True) :=
    during_gives hadmits fun session hsession =>
      call_gives (r := .ok ((o.contents.toList.drop offset).take count))
      (hread ▸ hsession ▸ Link.ask_gives (s := f.link.store)
        (·.read session.user path offset count))
  exact (caller_gives h huser hcall f rfl).1

/-! ## One write after the other -/

theorem Entitled.later {level : Level} (hl : f.link.Serves f.link.store)
    (h : f.Entitled uid o level) {other : UInt32}
    (hg : Holds { f.resolved other with store := s' } (fun _ => True) g)
    (hu : s'.users = f.link.store.users) (hacl : o'.acl = o.acl) : g.Entitled uid o' level := by
  obtain ⟨user, huser, hadmits, hpermits⟩ := h
  have hstore : g.link.store = s' := congrArg World.store hg.world
  have hresolver : g.resolver = (f.resolver.resolve f.identities other f.link).2.1 :=
    congrArg World.resolver hg.world
  have hidentities : g.identities = f.identities := congrArg World.identities hg.world
  refine ⟨user, ?_, ?_, ?_⟩
  · change (g.resolver.resolve g.identities uid g.link).1 = .ok user
    rw [hresolver, hidentities]
    exact Resolver.resolve_again hl hg.link hu huser other
  · rw [hstore, Store.admits_congr hu, hadmits]
  · rw [hstore, Store.permits_congr hu hacl, hpermits]

/-- The writes that are taken. -/
def taken (requests : List (UInt32 × Patch)) : List Patch :=
  (requests.map Prod.snd).filter fun p => decide p.Fits

def writes (handle : Handle) (requests : List (UInt32 × Patch)) : List Move :=
  requests.map fun r => .ask (.write r.1 handle r.2.offset r.2.bytes)

/-- The same handle leads to the object with other contents, and everybody has kept their level. -/
structure Patched (f : Facade) (handle : Handle) (path : Path) (o : StoredObject) (ps : List Patch)
    (g : Facade) (o' : StoredObject) : Prop where
  opened : g.Opened handle path o'
  contents : o'.contents = o.contents.patched ps
  entitled : ∀ {uid level}, f.Entitled uid o level → g.Entitled uid o' level

theorem patched_write (h : f.Opened handle path o) (hu : f.Entitled uid o .write) (p : Patch) :
    ∃ o', Patched f handle path o (taken [(uid, p)])
      (write uid handle p.offset p.bytes f).2 o' := by
  have hopened : ∀ {s' o' g}, Holds { f.resolved uid with store := s' } (fun _ => True) g →
      s'.object? path = some o' →
      o'.kind = o.kind → g.Opened handle path o' := fun {s' o' g} hg ho hk => by
    have hstore : g.link.store = s' := congrArg World.store hg.world
    have hregistry : g.registry = f.registry := congrArg World.registry hg.world
    exact ⟨hstore ▸ hg.link, hregistry ▸ h.mapped, hstore ▸ ho, hk ▸ h.data⟩
  by_cases hp : p.Fits
  · have hg := (write_taken h hu hp f rfl).2
    have ho : (f.link.store.rewritten path.place (·.write p.offset p.bytes)).object? path =
        some { o with
          contents := o.contents.write p.offset p.bytes
          modifiedAt := f.link.store.clock + 1 } := by
      rw [Store.object?, Store.get?_rewritten,
        show f.link.store.objects.get? path.place = some o from h.there]
      exact congrArg some (if_pos rfl)
    refine ⟨_, hopened hg ho rfl, ?_, fun hv => hv.later h.link hg rfl rfl⟩
    rw [taken]
    simp [hp, Contents.patched]
  · have hg : Holds { f.resolved uid with store := f.link.store } (fun _ => True) _ :=
      (write_refused h hu hp f rfl).2
    refine ⟨o, hopened hg h.there rfl, ?_, fun hv => hv.later h.link hg rfl rfl⟩
    rw [taken]
    simp [hp, Contents.patched]

theorem patched_run (h : f.Opened handle path o) {requests : List (UInt32 × Patch)}
    (hu : ∀ r ∈ requests, f.Entitled r.1 o .write) :
    ∃ o', Patched f handle path o (taken requests) (f.run (writes handle requests)) o' := by
  induction requests generalizing f o with
  | nil => exact ⟨o, h, rfl, fun hv => hv⟩
  | cons r requests ih =>
    obtain ⟨o₁, hopened, hcontents, hentitled⟩ := patched_write h (hu r List.mem_cons_self) r.2
    obtain ⟨o₂, hlater⟩ := ih hopened fun r' hr' => hentitled (hu r' (List.mem_cons_of_mem _ hr'))
    have hrun : f.run (writes handle (r :: requests)) =
        (write r.1 handle r.2.offset r.2.bytes f).2.run (writes handle requests) :=
      congrArg (Facade.run · (writes handle requests))
        (state_of_answer (write r.1 handle r.2.offset r.2.bytes)
          (fun w => Answer.written w.1 w.2) f)
    refine ⟨o₂, hrun ▸ hlater.opened, ?_, fun hv => hrun ▸ hlater.entitled (hentitled hv)⟩
    rw [hlater.contents, hcontents, Contents.patched, Contents.patched, Contents.patched,
      ← List.foldl_append]
    congr 1
    exact (List.filter_append [r.2] (requests.map Prod.snd)).symm

theorem Patched.getElem?_slice {ps : List Patch} (h : Patched f handle path o ps g o')
    (offset count i : Nat) :
    ((o'.contents.toList.drop offset).take count)[i]? = if i <
      count then (Patch.last? ps (offset + i)).or
      (o.contents.toList[offset + i]?.or (zeroBelow (Patch.reach ps) (offset + i))) else none := by
  rw [List.getElem?_take, List.getElem?_drop, h.contents, Contents.getElem?_patched]

theorem patched_taken_swap {a b : UInt32 × Patch} (c : Contents) (h : a.2.Apart b.2) :
    (c.patched (taken [a, b])).toList = (c.patched (taken [b, a])).toList := by
  unfold taken
  by_cases ha : a.2.Fits
  · by_cases hb : b.2.Fits
    · simpa [ha, hb] using c.patched_swap h
    · simp [ha, hb]
  · by_cases hb : b.2.Fits <;> simp [ha, hb]

theorem refused_iff (h : f.Opened handle path o) (hu : f.Entitled uid o .write) (p : Patch) :
    (write uid handle p.offset p.bytes f).1 = .error (.fileTooLarge path.text) ↔
      Store.maxObjectSize < p.stop := by
  by_cases hp : p.Fits
  · have htaken := (write_taken h hu hp f rfl).1
    exact iff_of_false (fun he => by cases htaken.symm.trans he) (Nat.not_lt.2 hp)
  · exact iff_of_true (write_refused h hu hp f rfl).1 (Nat.not_le.1 hp)

/-- A handle leads to a data object over a link that nobody interferes with. Whoever may write to it
is refused exactly what would end behind the greatest size, which changes nothing, and lays
everything else over the contents; whoever may read it gets the part of any range that exists.
Worked out in words, with sums that are checked or saturated, both come to the same. After any
writes, whoever made them, each byte read is the one that the last of those taken put there, the old
one, or zero, and two writes that cover nothing together can be made in either order. -/
theorem contents_overlaid (h : f.Opened handle path o) :
    (∀ uid p, f.Entitled uid o .write →
      ((write uid handle p.offset p.bytes f).1 = .error (.fileTooLarge path.text) ↔
        Store.maxObjectSize < p.offset + p.bytes.length) ∧
      (Store.maxObjectSize < p.offset + p.bytes.length →
        (write uid handle p.offset p.bytes f).2.link.store = f.link.store) ∧
      (p.offset + p.bytes.length ≤ Store.maxObjectSize →
        (write uid handle p.offset p.bytes f).1 = .ok (p.bytes.length, .fileSync) ∧
        ∃ o', (write uid handle p.offset p.bytes f).2.link.store.object? path = some o' ∧
          Overlaid o.contents.toList p o'.contents.toList)) ∧
    (∀ uid offset count, f.Entitled uid o .read →
      (read uid handle offset count f).1 = .ok ((o.contents.toList.drop offset).take count)) ∧
    (∀ uid (offset count : UInt64),
      (f.Entitled uid o .write → ∀ bytes : List UInt8, bytes.length = count.toNat →
        ((write uid handle offset.toNat bytes f).1 = .error (.fileTooLarge path.text) ↔
          (Word.checkedSum offset count).filter
            (fun stop => decide (stop.toNat ≤ Store.maxObjectSize)) = none)) ∧
      (f.Entitled uid o .read → o.contents.size < Word.bound64 →
        let start := min offset.toNat o.contents.size
        (read uid handle offset.toNat count.toNat f).1 =
          .ok (o.contents.toList.extract start
            (min (Word.saturatedSum (.ofNat start) count).toNat o.contents.size)))) ∧
    (∀ requests, (∀ r ∈ requests, f.Entitled r.1 o .write) → ∀ uid,
      f.Entitled uid o .read → ∀ offset count,
      ∃ bytes, (read uid handle offset count (f.run (writes handle requests))).1 = .ok bytes ∧
        ∀ i, bytes[i]? = if i < count then (Patch.last? (taken requests) (offset + i)).or
          (o.contents.toList[offset + i]?.or
            (zeroBelow (Patch.reach (taken requests)) (offset + i))) else none) ∧
    (∀ a b, f.Entitled a.1 o .write → f.Entitled b.1 o .write → a.2.Apart b.2 →
      ∃ x y, (f.run (writes handle [a, b])).link.store.object? path = some x ∧
        (f.run (writes handle [b, a])).link.store.object? path = some y ∧
          x.contents.toList = y.contents.toList) := by
  refine ⟨fun uid p hu => ⟨refused_iff h hu p, fun hlarge => ?_, fun hp => ?_⟩,
    fun uid offset count hu => read_slice h hu offset count,
    fun uid offset count => ⟨fun hu bytes hlength => ?_, fun hu hsize => ?_⟩,
      fun requests hu uid hr offset count => ?_,
    fun a b ha hb hapart => ?_⟩
  · exact congrArg World.store (write_refused h hu (Nat.not_le.2 hlarge) f rfl).2.world
  · obtain ⟨o', hpatched⟩ := patched_write h hu p
    have hone : taken [(uid, p)] = [p] := by simp [taken, show p.Fits from hp]
    refine ⟨(write_taken h hu hp f rfl).1, o', hpatched.opened.there, ?_⟩
    rw [hpatched.contents, hone]
    exact Contents.overlaid_write o.contents p
  · rw [← Store.tooLarge_iff_checked, ← hlength]
    exact refused_iff h hu ⟨offset.toNat, bytes⟩
  · rw [read_slice h hu, ← Contents.read_eq, Contents.read_saturated hsize]
  · obtain ⟨o', hpatched⟩ := patched_run h hu
    exact ⟨_, read_slice hpatched.opened (hpatched.entitled hr) offset count,
      hpatched.getElem?_slice offset count⟩
  · have hboth : ∀ {x y : UInt32 × Patch}, f.Entitled x.1 o .write → f.Entitled y.1 o .write →
        ∀ r ∈ [x, y], f.Entitled r.1 o .write := fun hx hy r hr => by
      rcases List.mem_pair.1 hr with rfl | rfl
      · exact hx
      · exact hy
    obtain ⟨x, hx⟩ := patched_run h (hboth ha hb)
    obtain ⟨y, hy⟩ := patched_run h (hboth hb ha)
    refine ⟨x, y, hx.opened.there, hy.opened.there, ?_⟩
    rw [hx.contents, hy.contents]
    exact patched_taken_swap o.contents hapart

theorem hole_in_front_of_data : ∃ f o o', f.Opened 2 ⟨"/z/a"⟩ o ∧ f.Entitled 0 o .write ∧
    (write 0 2 5 [1, 2, 3] f).1 = .ok (3, .fileSync) ∧
    (write 0 2 5 [1, 2, 3] f).2.link.store.object? ⟨"/z/a"⟩ = some o' ∧
      Overlaid [] ⟨5, [1, 2, 3]⟩ o'.contents.toList := by
  have hchecks : (sampleMount .default).toOption.any (fun f =>
      let g := f.run [.ask (.create 0 1 "a" .regular)]
      decide (g.registry.pathOf? 2 = some ⟨"/z/a"⟩) &&
      decide ((resolve 0 g).1.toOption = some (Resolver.administrator sampleAccount)) &&
      decide ((g.link.store.admits sampleAccount).toOption = some ()) &&
      (g.link.store.object? ⟨"/z/a"⟩).any fun o =>
        !o.kind.isCollection && decide (o.contents.toList = []) &&
        g.link.store.permits "rods" o .write) = true := by decide +kernel
  obtain ⟨f, hm, hchecks⟩ := exists_of_any hchecks
  simp only [Bool.and_eq_true, decide_eq_true_eq] at hchecks
  obtain ⟨⟨⟨hmapped, huser⟩, hadmits⟩, hthere⟩ := hchecks
  obtain ⟨o, ho, hchecks⟩ := (Option.any_eq_true _ _).1 hthere
  simp only [Bool.and_eq_true, Bool.not_eq_true', decide_eq_true_eq] at hchecks
  obtain ⟨⟨hdata, hempty⟩, hpermits⟩ := hchecks
  have hrooted : (Store.new "z" "rods").Rooted := by decide +kernel
  have hserves : sampleLink.Serves (Store.new "z" "rods") := ⟨rfl, rfl, rfl, rfl⟩
  obtain ⟨hw, hf⟩ := shows_of_mount hserves hrooted .empty (.new _ _) hm
  obtain ⟨w, -, hg, -⟩ := run_agrees hw hf hf [.ask (.create 0 1 "a" .regular)] (by simp)
    (by simp [List.cons_eq_append_iff])
  have hopened : (f.run [.ask (.create 0 1 "a" .regular)]).Opened 2 ⟨"/z/a"⟩ o :=
    ⟨hg.link.store.symm ▸ hg.link, hmapped, ho, hdata⟩
  have hentitled : (f.run [.ask (.create 0 1 "a" .regular)]).Entitled 0 o .write :=
    ⟨_, eq_ok_of_toOption huser, eq_ok_of_toOption hadmits, hpermits⟩
  obtain ⟨hanswer, o', ho', hover⟩ :=
    ((contents_overlaid hopened).1 0 ⟨5, [1, 2, 3]⟩ hentitled).2.2 (by decide)
  exact ⟨_, o, o', hopened, hentitled, hanswer, ho', hempty ▸ hover⟩

end Facade
end StoreMount
