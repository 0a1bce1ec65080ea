import StoreMount.AllowList
import StoreMount.Proofs.Link
import StoreMount.Proofs.Store.Homes

/-!
# The allow-list over its history

Accounts come and go, metadata is set and removed, calls are planned to fail, and now and then the
list is read again. A reading that goes well replaces the whole table by what the store holds at
that moment, and one that fails leaves it alone. So what the list allows is told by the store of the
last reading that went well, whatever has happened to it since; without one, nothing is allowed.
-/
namespace StoreMount

def Store.Carries (s : Store) (name key value : String) : Prop :=
  ∃ r, s.users.get? name = some r ∧ (key, value) ∈ r.metadata

theorem Store.mem_usersWithMetadata {s : Store} {name key value : String} :
    (name, value) ∈ s.usersWithMetadata key ↔ s.Carries name key value := by
  unfold usersWithMetadata Carries
  rw [List.mem_mergeSort, List.mem_flatMap]
  constructor
  · rintro ⟨⟨holder, r⟩, hr, hpair⟩
    obtain ⟨⟨key', value'⟩, hfound, he⟩ := List.mem_map.1 hpair
    obtain ⟨hm, hkey⟩ := List.mem_filter.1 hfound
    obtain ⟨rfl, rfl⟩ := Prod.mk.inj he
    obtain rfl : key' = key := of_decide_eq_true hkey
    exact ⟨r, Table.get?_eq_some_iff.2 hr, hm⟩
  · rintro ⟨r, hr, hm⟩
    exact ⟨(name, r), Table.get?_eq_some_iff.1 hr,
      List.mem_map.2 ⟨_, List.mem_filter.2 ⟨hm, decide_eq_true rfl⟩, rfl⟩⟩

namespace AllowList

variable {a : AllowList} {l : Link}

theorem mem_collect {pairs : List (String × String)} {name : String} {base : Path} :
    base ∈ ((collect pairs).get? name).getD [] ↔
      ∃ value : String, base = ⟨value⟩ ∧ (name, value) ∈ pairs := by
  have hfold (t : Table String (List Path)) :
      base ∈ ((pairs.foldl (fun t e => t.insert e.1 ((t.get? e.1).getD [] ++ [⟨e.2⟩])) t).get?
        name).getD [] ↔
        base ∈ (t.get? name).getD [] ∨ ∃ value : String, base = ⟨value⟩ ∧
          (name, value) ∈ pairs := by
    induction pairs generalizing t with
    | nil => simp
    | cons e pairs ih =>
      obtain ⟨name', value⟩ := e
      rw [List.foldl_cons, ih, Table.get?_insert]
      by_cases hn : name = name'
      · subst hn
        simp [or_assoc, and_or_left, exists_or]
      · simp [hn]
  exact (hfold .empty).trans (by simp)

/-- The list holds what the store holds: every path that an account or group has under the key, and
nothing else. -/
def Mirrors (a : AllowList) (s : Store) : Prop :=
  ∀ name base, base ∈ (a.allowed.get? name).getD [] ↔
    ∃ value : String, base = ⟨value⟩ ∧ s.Carries name a.key value

theorem allows_eq_true {user : String} {groups : List String} {path : Path} :
    a.allows user groups path = true ↔
      ∃ subject ∈ user :: groups, ∃ base ∈ (a.allowed.get? subject).getD [],
        base.place <+: path.place := by
  simp only [allows, List.any_eq_true, Path.within_iff]

theorem Mirrors.allows_iff {s : Store} (h : a.Mirrors s) {user : String} {groups : List String}
    {path : Path} :
    a.allows user groups path = true ↔ ∃ subject ∈ user :: groups, ∃ value,
      s.Carries subject a.key value ∧ (⟨value⟩ : Path).place <+: path.place := by
  rw [allows_eq_true]
  constructor
  · rintro ⟨subject, hmem, base, hbase, hp⟩
    obtain ⟨value, rfl, hv⟩ := (h subject base).1 hbase
    exact ⟨subject, hmem, value, hv, hp⟩
  · rintro ⟨subject, hmem, value, hv, hp⟩
    exact ⟨subject, hmem, ⟨value⟩, (h subject ⟨value⟩).2 ⟨value, rfl, hv⟩, hp⟩

/-! ## One reading -/

def Reads (a : AllowList) (l : Link) : Except StoreError Unit × AllowList × Link → Prop
  | (.ok (), a', l') => a'.Mirrors l.store ∧ a'.key = a.key ∧ a'.account = a.account ∧
      l'.store = l.store
  | (.error _, a', l') => a' = a ∧ l'.store = l.store

theorem reads_receive (a : AllowList) (l : Link) : a.Reads l (a.receive l) := by
  have hentered := Link.keeps_enter a.account l
  unfold receive
  rcases he : (Link.enter a.account l : Except StoreError Session × Link) with ⟨e | session, l'⟩
    <;> rw [he] at hentered
  · exact ⟨rfl, hentered⟩
  · have hasked := Link.ask_triple session (.usersWithMetadata a.key)
      (fun s => .ok (s.usersWithMetadata a.key)) l.store l' hentered
    dsimp only [Link.usersWithMetadata]
    rcases hu :
      (Link.ask session (.usersWithMetadata a.key) (fun s => .ok (s.usersWithMetadata a.key)) l' :
      Except StoreError (List (String × String)) × Link) with ⟨e | pairs, l''⟩ <;> rw [hu] at hasked
    · exact ⟨rfl, (Link.store_close session l'').trans hasked⟩
    · obtain ⟨hstore, hpairs⟩ := hasked
      refine ⟨fun name base => ?_, rfl, rfl, (Link.store_close session l'').trans hstore⟩
      simp only [mem_collect, ← Except.ok.inj hpairs, Store.mem_usersWithMetadata]

theorem reads_refresh (a : AllowList) (l : Link) : a.Reads l (a.refresh l) := by
  have hasked := Link.keeps_announce a.account l
  unfold refresh
  rcases ha : (Link.announce a.account l : Except StoreError Unit × Link) with ⟨e | u, l'⟩
    <;> rw [ha] at hasked
  · exact ⟨rfl, hasked⟩
  · have hread := reads_receive a l'
    unfold Reads at hread ⊢
    rwa [show l'.store = l.store from hasked] at hread

theorem refresh_ok {s : Store} (h : s.admits a.account = .ok ()) (hl : l.Serves s) :
    (a.refresh l).1 = .ok () ∧ (a.refresh l).2.2.Serves s := by
  obtain ⟨session, l', hconnect, -, hl'⟩ := Link.connect_ok h hl
  have hasked : Gives (Link.Serves · s)
      (Link.ask session (.usersWithMetadata a.key) fun s => .ok (s.usersWithMetadata a.key))
      (.ok (s.usersWithMetadata a.key)) (Link.Serves · s) :=
        Link.ask_gives fun s => .ok (s.usersWithMetadata a.key)
  have hgives := hasked l' hl'
  rw [Link.connect, bind_apply] at hconnect
  unfold refresh
  rcases ha : (Link.announce a.account l : Except StoreError Unit × Link) with ⟨e | u, l₁⟩
  · rw [ha] at hconnect
    cases hconnect
  · rw [ha] at hconnect
    simp only [receive, hconnect, Link.usersWithMetadata]
    rcases hu :
      (Link.ask session (.usersWithMetadata a.key) (fun s => .ok (s.usersWithMetadata a.key)) l' :
      Except StoreError (List (String × String)) × Link) with ⟨e | pairs, l''⟩ <;> rw [hu] at hgives
    · cases hgives.1
    · exact ⟨rfl, hgives.2.close session⟩

/-! ## Runs -/

/-- An allow-list and the link on which it is read. -/
structure Upkeep where
  allowList : AllowList
  link : Link

inductive Upkeep.Step
  | change (c : Store.Change)
  | plan (faults : List Fault)
  | refresh

namespace Upkeep

def start (account : Account) (key : String) (link : Link) : Upkeep := ⟨.new account key, link⟩

def reading (u : Upkeep) : Except StoreError Unit := (u.allowList.refresh u.link).1

def step (u : Upkeep) : Step → Upkeep
  | .change c => { u with
      link := { u.link with server := { u.link.server with store := u.link.store.attempt c } } }
  | .plan faults => { u with link := { u.link with faults } }
  | .refresh => ⟨(u.allowList.refresh u.link).2.1, (u.allowList.refresh u.link).2.2⟩

def run (u : Upkeep) (steps : List Step) : Upkeep := steps.foldl step u

def Unread (u : Upkeep) (steps : List Step) : Prop :=
  ∀ before later, steps = before ++ .refresh :: later → (u.run before).reading ≠ .ok ()

def LastRead (u : Upkeep) (steps : List Step) (s : Store) : Prop :=
  ∃ before later, steps = before ++ .refresh :: later ∧ (u.run before).reading = .ok () ∧
    ((u.run before).step .refresh).Unread later ∧ (u.run before).link.store = s

variable {u : Upkeep} {steps : List Step}

theorem run_append (u : Upkeep) (steps later : List Step) :
    u.run (steps ++ later) = (u.run steps).run later :=
  List.foldl_append

theorem unread_nil (u : Upkeep) : u.Unread [] := fun _ _ he => absurd he (by simp)

theorem unread_cons {s : Step} :
    u.Unread (s :: steps) ↔ (s = .refresh → u.reading ≠ .ok ()) ∧ (u.step s).Unread steps := by
  constructor
  · exact fun h =>
      ⟨fun he => h [] steps (he ▸ rfl), fun before later he => h (s :: before) later (he ▸ rfl)⟩
  · rintro ⟨hs, hrest⟩ before later he
    cases before with
    | nil => exact hs (List.cons.inj he).1
    | cons first before =>
      obtain ⟨rfl, rfl⟩ := List.cons.inj he
      exact hrest before later rfl

theorem allowList_of_reading_error {e : StoreError} (h : u.reading = .error e) :
    (u.step .refresh).allowList = u.allowList := by
  have hread := reads_refresh u.allowList u.link
  unfold reading at h
  rcases hr : u.allowList.refresh u.link with ⟨x, a', l'⟩
  rw [hr] at h hread
  obtain rfl : x = .error e := h
  simpa only [step, hr] using hread.1

theorem mirrors_of_reading_ok (h : u.reading = .ok ()) :
    (u.step .refresh).allowList.Mirrors u.link.store ∧
      (u.step .refresh).allowList.key = u.allowList.key ∧
      (u.step .refresh).allowList.account = u.allowList.account := by
  have hread := reads_refresh u.allowList u.link
  unfold reading at h
  rcases hr : u.allowList.refresh u.link with ⟨x, a', l'⟩
  rw [hr] at h hread
  obtain rfl : x = .ok () := h
  simpa only [step, hr] using ⟨hread.1, hread.2.1, hread.2.2.1⟩

theorem settled_step (u : Upkeep) (s : Step) :
    (u.step s).allowList.key = u.allowList.key ∧
      (u.step s).allowList.account = u.allowList.account := by
  cases s with
  | change c => exact ⟨rfl, rfl⟩
  | plan faults => exact ⟨rfl, rfl⟩
  | refresh =>
    cases h : u.reading with
    | error e => exact allowList_of_reading_error h ▸ ⟨rfl, rfl⟩
    | ok x => exact (mirrors_of_reading_ok h).2

theorem settled_run (u : Upkeep) (steps : List Step) :
    (u.run steps).allowList.key = u.allowList.key ∧
      (u.run steps).allowList.account = u.allowList.account := by
  induction steps generalizing u with
  | nil => exact ⟨rfl, rfl⟩
  | cons s steps ih =>
    obtain ⟨hkey, haccount⟩ := ih (u.step s)
    exact ⟨hkey.trans (settled_step u s).1, haccount.trans (settled_step u s).2⟩

theorem allowList_of_unread (h : u.Unread steps) : (u.run steps).allowList = u.allowList := by
  induction steps generalizing u with
  | nil => rfl
  | cons s steps ih =>
    obtain ⟨hs, hrest⟩ := unread_cons.1 h
    refine (ih hrest).trans ?_
    cases s with
    | change c => rfl
    | plan faults => rfl
    | refresh =>
      cases hr : u.reading with
      | error e => exact allowList_of_reading_error hr
      | ok x => exact absurd hr (hs rfl)

theorem unread_or_lastRead (u : Upkeep) (steps : List Step) :
    u.Unread steps ∨ ∃ s, u.LastRead steps s := by
  induction steps generalizing u with
  | nil => exact .inl (unread_nil u)
  | cons s steps ih =>
    obtain hrest | ⟨st, before, later, rfl, hread, hlater, hst⟩ := ih (u.step s)
    · by_cases hs : s = .refresh ∧ u.reading = .ok ()
      · obtain ⟨rfl, hread⟩ := hs
        exact .inr ⟨_, [], steps, rfl, hread, hrest, rfl⟩
      · exact .inl (unread_cons.2 ⟨fun he hread => hs ⟨he, hread⟩, hrest⟩)
    · exact .inr ⟨st, s :: before, later, rfl, hread, hlater, hst⟩

theorem LastRead.mirrors {s : Store} (h : u.LastRead steps s) :
    (u.run steps).allowList.Mirrors s := by
  obtain ⟨before, later, rfl, hread, hlater, rfl⟩ := h
  have hrun : u.run (before ++ .refresh :: later) = ((u.run before).step .refresh).run later :=
    run_append ..
  rw [hrun, allowList_of_unread hlater]
  exact (mirrors_of_reading_ok hread).1

theorem not_allows_new {account : Account} {key : String} (user : String) (groups : List String)
    (path : Path) :
    (AllowList.new account key).allows user groups path = false := by
  rw [Bool.eq_false_iff]
  intro h
  obtain ⟨subject, -, base, hbase, -⟩ := allows_eq_true.1 h
  cases hbase

/-- However the store has changed and whichever readings have failed: the list allows a path to a
user with some groups if and only if one of them had, under the key and in the store of the last
reading that went well, a path that the asked one is at or below, component by component. A reading
that fails changes no answer; before the first that goes well every answer is no; and a reading that
nothing is planned to fail goes well as long as the store lets the account in. -/
theorem allows_as_last_read (account : Account) (key : String) (link : Link) (steps : List Step) :
    let start := start account key link
    let u := start.run steps
    (∀ user groups path, u.allowList.allows user groups path = true ↔
      ∃ s, start.LastRead steps s ∧ ∃ subject ∈ user :: groups, ∃ value,
        s.Carries subject key value ∧ (⟨value⟩ : Path).place <+: path.place) ∧
    (∀ e, u.reading = .error e → ∀ user groups path,
      (u.step .refresh).allowList.allows user groups path = u.allowList.allows user groups path) ∧
    (start.Unread steps → ∀ user groups path, u.allowList.allows user groups path = false) ∧
    ∀ s, u.link.Serves s → s.admits account = .ok () → u.reading = .ok () := by
  intro start u
  obtain ⟨hkey, haccount⟩ : u.allowList.key = key ∧ u.allowList.account = account :=
    settled_run start steps
  have hunread (h : start.Unread steps) : u.allowList = .new account key := allowList_of_unread h
  refine ⟨fun user groups path => ⟨fun h => ?_, ?_⟩, fun e he user groups path => ?_,
    fun h user groups path => ?_, fun s hl ha => (refresh_ok (haccount.symm ▸ ha) hl).1⟩
  · obtain hnone | ⟨s, hs⟩ := unread_or_lastRead start steps
    · rw [hunread hnone, not_allows_new] at h
      cases h
    · exact ⟨s, hs, hkey ▸ (LastRead.mirrors hs).allows_iff.1 h⟩
  · rintro ⟨s, hs, h⟩
    exact (LastRead.mirrors hs).allows_iff.2 (hkey.symm ▸ h)
  · rw [allowList_of_reading_error he]
  · rw [hunread h]
    exact not_allows_new user groups path

/-! A group loses its path after the list was read, and then no connection can be made any more. -/

def listedGroup : List Step :=
  [.change (.addUser "bob" .regular), .change (.addGroup "lab" ["bob"]),
    .change (.setMetadata "lab" "key" "/zone/./a/")]

def cutOff : List Step :=
  [.change (.removeMetadata "lab" "key"),
    .plan [⟨"connect", none, none, .connection "down"⟩], .refresh]

def sample : Upkeep :=
  start ⟨"", 0, "zone", "", "rods", "", "rods", .slash⟩ "key"
    (.ofServer (.ofStore (Store.new "zone" "rods")))

theorem outdated_list_stays :
    let u := sample.run (listedGroup ++ .refresh :: cutOff)
    u.reading = .error (.connection "down") ∧
    u.allowList.allows "bob" ["lab"] ⟨"/zone/a/b"⟩ = true ∧
    (u.step .refresh).allowList.allows "bob" ["lab"] ⟨"/zone/a/b"⟩ = true ∧
    u.allowList.allows "bob" ["lab"] ⟨"/zone/ab"⟩ = false := by
  intro u
  obtain ⟨hiff, hfailed, -⟩ :=
    allows_as_last_read ⟨"", 0, "zone", "", "rods", "", "rods", .slash⟩ "key"
    (.ofServer (.ofStore (Store.new "zone" "rods"))) (listedGroup ++ .refresh :: cutOff)
  have hdown : u.reading = .error (.connection "down") := by decide +kernel
  have hread : sample.LastRead (listedGroup ++ .refresh :: cutOff)
      (sample.run listedGroup).link.store := by
    refine ⟨listedGroup, cutOff, rfl, by decide +kernel, ?_, rfl⟩
    refine unread_cons.2 ⟨nofun, unread_cons.2 ⟨nofun, unread_cons.2 ⟨fun _ => ?_, unread_nil _⟩⟩⟩
    decide +kernel
  have hcarries : (sample.run listedGroup).link.store.Carries "lab" "key" "/zone/./a/" :=
    ⟨⟨.group, [], [("key", "/zone/./a/")]⟩, by decide +kernel, by simp⟩
  have hallowed : u.allowList.allows "bob" ["lab"] ⟨"/zone/a/b"⟩ = true :=
    (hiff "bob" ["lab"] ⟨"/zone/a/b"⟩).2 ⟨_, hread, "lab", by simp, _, hcarries, by decide +kernel⟩
  exact ⟨hdown, hallowed,
    (hfailed _ hdown "bob" ["lab"] ⟨"/zone/a/b"⟩).trans hallowed, by decide +kernel⟩

end Upkeep
end AllowList
end StoreMount
