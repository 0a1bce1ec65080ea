import StoreMount.Host
import StoreMount.Proofs.Sessions
import Mathlib.Data.Finset.Card
import Mathlib.Data.Finset.Option

/-!
# Sessions that are kept

A host keeps sessions under names until they are dropped. Each of them counts from its opening until
it is closed for the first time, however often that happens and whether or not it is dropped
afterwards. All other sessions are closed by whoever opens them, so the server counts those that are
kept and not closed.
-/
namespace StoreMount

open Link (Tidy)

/-- The sessions that are kept under names and those that have not been closed yet, which are as
many as the server counts. -/
structure Tally (v : Server) (kept : Table String Session) (live : Finset Nat) : Prop where
  count : v.openNow = live.card
  older : ∀ id ∈ live, id < v.opened
  given : ∀ name s, kept.get? name = some s → s.id < v.opened
  apart : ∀ name name' s s', kept.get? name = some s → kept.get? name' = some s' →
    s.id = s'.id → name = name'
  live_iff : ∀ name s, kept.get? name = some s → (s.id ∈ live ↔ s.closed = false)

namespace Tally

variable {v v' : Server} {kept kept' : Table String Session} {live : Finset Nat}
    {name : String} {s : Session}

theorem onward (h : Tally v kept live) (ho : v.opened ≤ v'.opened) (hn : v'.openNow = v.openNow) :
    Tally v' kept live where
  count := hn.trans h.count
  older id hid := Nat.lt_of_lt_of_le (h.older id hid) ho
  given name s hs := Nat.lt_of_lt_of_le (h.given name s hs) ho
  apart := h.apart
  live_iff := h.live_iff

theorem fewer (h : Tally v kept live)
    (hk : ∀ name s, kept'.get? name = some s → kept.get? name = some s) : Tally v kept' live where
  count := h.count
  older := h.older
  given name s hs := h.given name s (hk name s hs)
  apart name name' s s' hs hs' := h.apart name name' s s' (hk name s hs) (hk name' s' hs')
  live_iff name s hs := h.live_iff name s (hk name s hs)

theorem opened (h : Tally v kept live) :
    Tally { v with opened := v.opened + 1, openNow := v.openNow + 1 } kept
      (insert v.opened live) where
  count := by
    rw [Finset.card_insert_of_notMem fun hid => Nat.lt_irrefl _ (h.older _ hid), ← h.count]
  older id hid := by
    obtain rfl | hid := Finset.mem_insert.1 hid
    · exact Nat.lt_succ_self _
    · exact Nat.lt_succ_of_lt (h.older id hid)
  given name s hs := Nat.lt_succ_of_lt (h.given name s hs)
  apart := h.apart
  live_iff name s hs := by
    rw [Finset.mem_insert, or_iff_right (Nat.ne_of_lt (h.given name s hs))]
    exact h.live_iff name s hs

theorem opened_close (v : Server) (s : Session) : (v.close s).2.opened = v.opened := by
  unfold Server.close
  split <;> rfl

theorem openNow_close (h : Tally v kept live) (hs : kept.get? name = some s) :
    (v.close s).2.openNow = (live.erase s.id).card := by
  unfold Server.close
  cases hc : s.closed with
  | false =>
    rw [Finset.card_erase_of_mem ((h.live_iff name s hs).2 hc), ← h.count]
    rfl
  | true =>
    have hgone : s.id ∉ live := fun hid => by
      rw [(h.live_iff name s hs).1 hid] at hc
      cases hc
    rw [Finset.erase_eq_of_notMem hgone]
    exact h.count

theorem dropped (h : Tally v kept live) (hs : kept.get? name = some s) :
    Tally (v.close s).2 (kept.erase name) (live.erase s.id) := by
  have hkept : ∀ {name' s'}, (kept.erase name).get? name' = some s' →
      name' ≠ name ∧ kept.get? name' = some s' :=
    Table.get?_erase_eq_some_iff.1
  refine ⟨h.openNow_close hs, ?_, ?_, ?_, ?_⟩
  · exact fun id hid => opened_close v s ▸ h.older id (Finset.mem_of_mem_erase hid)
  · exact fun name' s' hs' => opened_close v s ▸ h.given name' s' (hkept hs').2
  · exact fun name' name'' s' s'' hs' hs'' =>
      h.apart name' name'' s' s'' (hkept hs').2 (hkept hs'').2
  · intro name' s' hs'
    obtain ⟨hne, hs'⟩ := hkept hs'
    rw [Finset.mem_erase, and_iff_right fun hid => hne (h.apart name' name s' s hs' hs hid)]
    exact h.live_iff name' s' hs'

theorem filed (h : Tally v kept live) (hs : s.id < v.opened)
    (hlive : s.id ∈ live ↔ s.closed = false)
    (hnew : ∀ name' s', name' ≠ name → kept.get? name' = some s' → s'.id ≠ s.id) :
    Tally v (kept.insert name s) live := by
  have hkept : ∀ {name' s'}, (kept.insert name s).get? name' = some s' →
      name' = name ∧ s = s' ∨ name' ≠ name ∧ kept.get? name' = some s' :=
        Table.get?_insert_eq_some_iff.1
  refine ⟨h.count, h.older, ?_, ?_, ?_⟩
  · intro name' s' hs'
    obtain ⟨-, rfl⟩ | ⟨-, hs'⟩ := hkept hs'
    · exact hs
    · exact h.given name' s' hs'
  · intro name' name'' s' s'' hs' hs'' hid
    rcases hkept hs' with ⟨rfl, rfl⟩ | ⟨hne', hold'⟩
      <;> rcases hkept hs'' with ⟨rfl, rfl⟩ | ⟨hne'', hold''⟩
    · rfl
    · exact absurd hid.symm (hnew name'' s'' hne'' hold'')
    · exact absurd hid (hnew name' s' hne' hold')
    · exact h.apart name' name'' s' s'' hold' hold'' hid
  · intro name' s' hs'
    obtain ⟨-, rfl⟩ | ⟨-, hs'⟩ := hkept hs'
    · exact hlive
    · exact h.live_iff name' s' hs'

theorem shut (h : Tally v kept live) (hs : kept.get? name = some s) :
    Tally (v.close s).2 (kept.insert name (v.close s).1) (live.erase s.id) := by
  have hclosed : (v.close s).1.id = s.id ∧ (v.close s).1.closed = true := by
    unfold Server.close
    split
    · exact ⟨rfl, ‹_›⟩
    · exact ⟨rfl, rfl⟩
  -- to close it and keep it is to drop it and to keep what is left of it under the same name
  have hfiled : Tally (v.close s).2 ((kept.erase name).insert name (v.close s).1)
      (live.erase s.id) := by
    refine (h.dropped hs).filed ?_ ?_ ?_ <;> rw [hclosed.1]
    · exact opened_close v s ▸ h.given name s hs
    · simp [hclosed.2]
    · intro name' s' hne hs' hid
      rw [Table.get?_erase_ne kept hne] at hs'
      exact hne (h.apart name' name s' s hs' hs hid)
  refine hfiled.fewer fun name' s' hs' => ?_
  rw [Table.get?_insert_eq_some_iff] at hs' ⊢
  exact hs'.imp_right fun hold => ⟨hold.1, Table.get?_erase_eq_some_iff.2 hold⟩

end Tally

namespace Host

/-- What can be done with the sessions that are kept under names, and with a facade in between. -/
inductive Command
  | opens (name : String) (account : Account)
  | closes (name : String) (account : Account)
  | drops (name : String)
  | mounts (options : Options)
  | asks (operation : Operation)

def obey (h : Host) : Command → Host
  | .opens name account => (h.openSession name account).2
  | .closes name account => (h.closeSession name account).2
  | .drops name => (h.dropSession name).2
  | .mounts options => (h.mount options).2
  | .asks operation => (h.operate (Facade.perform operation)).2

def keptId? (h : Host) (name : String) : Option Nat := (h.sessions.get? name).map Session.id

/-- The sessions that have been opened and not closed yet, after a command. Whatever is kept under a
name is closed by closing or dropping it and by opening another one in its place. -/
def stillOpen (h : Host) (live : Finset Nat) : Command → Finset Nat
  | .opens name account =>
    match h.link.server.connect account with
    | .error _ => live
    | .ok (session, _) => insert session.id live \ (h.keptId? name).toFinset
  | .closes name _ | .drops name => live \ (h.keptId? name).toFinset
  | .mounts _ | .asks _ => live

def obeyAll : Host → Finset Nat → List Command → Host × Finset Nat
  | h, live, [] => (h, live)
  | h, live, command :: commands => obeyAll (h.obey command) (h.stillOpen live command) commands

def Tallies (h : Host) (live : Finset Nat) : Prop := Tally h.link.server h.sessions live

variable {h : Host} {live : Finset Nat}

theorem opened_dropSession (h : Host) (name : String) :
    (h.dropSession name).2.link.server.opened = h.link.server.opened := by
  unfold Host.dropSession
  split
  · rfl
  · exact Tally.opened_close _ _

theorem kept_of_dropSession (h : Host) {name name' : String} {s : Session}
    (hs : (h.dropSession name).2.sessions.get? name' = some s) :
    h.sessions.get? name' = some s := by
  unfold Host.dropSession at hs
  split at hs
  · exact hs
  · exact (Table.get?_erase_eq_some_iff.1 hs).2

theorem Tallies.dropSession (ht : h.Tallies live) (name : String) :
    (h.dropSession name).2.Tallies (live \ (h.keptId? name).toFinset) := by
  unfold Host.dropSession keptId?
  cases hs : h.sessions.get? name with
  | none =>
    rw [Option.map_none, Option.toFinset_none, Finset.sdiff_empty]
    exact ht
  | some s =>
    rw [Option.map_some, Option.toFinset_some, Finset.sdiff_singleton_eq_erase]
    exact ht.dropped hs

theorem Tallies.openSession (ht : h.Tallies live) (name : String) (account : Account) :
    (h.openSession name account).2.Tallies (h.stillOpen live (.opens name account)) := by
  simp only [Host.openSession, stillOpen]
  cases hc : h.link.server.connect account with
  | error e => exact ht
  | ok c =>
    obtain ⟨s, v⟩ := c
    obtain ⟨rfl, rfl⟩ := Link.connect_eq_ok hc
    -- the new session is open when the one it replaces is dropped
    have hopened : (h.setServer _).Tallies _ := ht.opened
    refine (hopened.dropSession name).filed ?_ ?_ fun name' s' _ hs' => ?_
    · rw [opened_dropSession]
      exact Nat.lt_succ_self _
    · have hnew : h.link.server.opened ∉ (h.keptId? name).toFinset := fun hid => by
        obtain ⟨s, hs, he⟩ := Option.map_eq_some_iff.1 (Option.mem_toFinset.1 hid)
        exact Nat.ne_of_lt (ht.given name s hs) he
      exact iff_of_true (Finset.mem_sdiff.2 ⟨Finset.mem_insert_self _ _, hnew⟩) rfl
    · have hold := kept_of_dropSession _ hs'
      exact Nat.ne_of_lt (ht.given name' s' hold)

theorem Tallies.closeSession (ht : h.Tallies live) (name : String) (account : Account) :
    (h.closeSession name account).2.Tallies (live \ (h.keptId? name).toFinset) := by
  unfold Host.closeSession keptId?
  cases hs : h.sessions.get? name with
  | some s =>
    rw [Option.map_some, Option.toFinset_some, Finset.sdiff_singleton_eq_erase]
    exact ht.shut hs
  | none =>
    rw [Option.map_none, Option.toFinset_none, Finset.sdiff_empty]
    simp only [direct, hs]
    cases hc : h.link.server.connect account with
    | error e => exact ht
    | ok c =>
      obtain ⟨s, v⟩ := c
      obtain ⟨rfl, rfl⟩ := Link.connect_eq_ok hc
      exact ht.onward (Nat.le_succ _) rfl

theorem mount_tidy (h : Host) (options : Options) :
    Tidy none h.link (h.mount options).2.link ∧ (h.mount options).2.sessions = h.sessions := by
  unfold mount withCrew
  cases h.crew? with
  | none => exact ⟨.refl none h.link, rfl⟩
  | some crew =>
    have hmount := Facade.mount_tidy h.link h.identities crew.resolver crew.allowList options
    rcases hm : Facade.mount h.link h.identities crew.resolver crew.allowList
      options with ⟨e | facade, l⟩ <;> rw [hm] at hmount <;>
      simp only [hm] <;> exact ⟨hmount, rfl⟩

theorem operate_tidy (h : Host) (operation : Operation) :
    Tidy none h.link (h.operate (Facade.perform operation)).2.link ∧
    (h.operate (Facade.perform operation)).2.sessions = h.sessions := by
  unfold operate
  rcases h.mounted with _ | ⟨position, facade⟩
  · exact ⟨.refl none h.link, rfl⟩
  · dsimp only
    cases h.crews[position]? with
    | none => exact ⟨.refl none h.link, rfl⟩
    | some crew => exact ⟨Facade.perform_tidy operation
        ⟨h.link, h.identities, crew.resolver, crew.allowList, facade.options,
        facade.rootObjectId, facade.registry, facade.cache⟩, rfl⟩

theorem Tallies.of_tidy {h' : Host} (ht : h.Tallies live)
    (hl : Tidy none h.link h'.link ∧ h'.sessions = h.sessions) :
    h'.Tallies live := by
  obtain ⟨events, -, he⟩ := hl.1.written
  unfold Tallies
  rw [hl.2]
  exact ht.onward he.le hl.1.openNow

theorem Tallies.obey (ht : h.Tallies live) (command : Command) :
    (h.obey command).Tallies (h.stillOpen live command) := by
  cases command with
  | opens name account => exact ht.openSession name account
  | closes name account => exact ht.closeSession name account
  | drops name => exact ht.dropSession name
  | mounts options => exact ht.of_tidy (h.mount_tidy options)
  | asks operation => exact ht.of_tidy (h.operate_tidy operation)

theorem tallies_new (store : Store) (ids : Identities) (account : Account) (key : String) :
    (Host.new store ids account key).Tallies ∅ where
  count := rfl
  older id hid := absurd hid (Finset.notMem_empty id)
  given _ _ hs := nomatch hs
  apart _ _ _ _ hs := nomatch hs
  live_iff _ _ hs := nomatch hs

theorem Tallies.obeyAll (ht : h.Tallies live) (commands : List Command) :
    (h.obeyAll live commands).1.Tallies (h.obeyAll live commands).2 := by
  induction commands generalizing h live with
  | nil => exact ht
  | cons command commands ih => exact ih (ht.obey command)

end Host

/-- Whatever is asked of a facade, a resolver or an allow-list, in whatever state and whichever
calls fail, every session that is opened is closed once and not used afterwards, and no other
session is used or closed. The sessions that are kept count for as long as they are not closed, so
closing one never counts below zero. -/
theorem sessions_balanced :
    (∀ (operation : Operation) (f : Facade), f.link.Balances (Facade.perform operation f).2.link) ∧
    (∀ (l : Link) (ids : Identities) (r : Resolver) (a : AllowList) (options : Options),
      l.Balances (Facade.mount l ids r a options).2) ∧
    (∀ (r : Resolver) (ids : Identities) (uid : UInt32) (l : Link),
      l.Balances (r.resolve ids uid l).2.2) ∧
    (∀ (r : Resolver) (ids : Identities) (uids : List UInt32) (l : Link),
      l.Balances (Resolver.resolveInTurn ids uids r l).2.2) ∧
    (∀ (r : Resolver) (ids : Identities) (uids : List UInt32) (l : Link),
      l.Balances (r.resolveTogether ids uids l).2.2) ∧
    (∀ (a : AllowList) (l : Link), l.Balances (a.refresh l).2.2 ∧ l.Balances (a.receive l).2.2) ∧
    ∀ (store : Store) (ids : Identities) (account : Account) (key : String)
      (commands : List Host.Command),
      let (h, live) := (Host.new store ids account key).obeyAll ∅ commands
      h.link.server.openNow = live.card ∧
        ∀ name s, h.sessions.get? name = some s → s.closed = false → 0 < h.link.server.openNow := by
  refine ⟨fun operation f => (Facade.perform_tidy operation f).balances,
    fun l ids r a options => ?_, fun r ids uid l => ?_, fun r ids uids l => ?_,
    fun r ids uids l => ?_, fun a l => ⟨(a.refresh_tidy l).balances, (a.receive_tidy l).balances⟩,
    ?_⟩
  · exact (Facade.mount_tidy l ids r a options).balances
  · exact (r.resolve_tidy ids uid l).balances
  · exact (r.resolveInTurn_tidy ids uids l).balances
  · exact (r.resolveTogether_tidy ids uids l).balances
  · intro store ids account key commands
    have ht := (Host.tallies_new store ids account key).obeyAll commands
    refine ⟨ht.count, fun name s hs hc => ?_⟩
    rw [show _ = _ from ht.count]
    exact Finset.card_pos.2 ⟨s.id, (ht.live_iff name s hs).2 hc⟩

def Host.twoSessions : Host × Finset Nat :=
  let account : Account := ⟨"", 0, "zone", "", "rods", "", "rods", .slash⟩
  (Host.new (Store.new "zone" "rods") .empty account "key").obeyAll ∅
    [.opens "first" account, .opens "second" account, .closes "first" account,
      .mounts ⟨⟨"/zone"⟩, "zone", false, .default⟩,
      .closes "first" account, .asks (.getattr 0 1), .drops "first"]

theorem second_session_counts :
    Host.twoSessions.1.sessions.get? "second" = some ⟨1, "rods", false⟩ ∧ Host.twoSessions.2 = {1} ∧
    Host.twoSessions.1.link.server.openNow = 1 ∧ 0 < Host.twoSessions.1.link.server.openNow := by
  have hkept : Host.twoSessions.1.sessions.get? "second" = some ⟨1, "rods", false⟩ := by
    decide +kernel
  have hlive : Host.twoSessions.2 = {1} := by decide +kernel
  obtain ⟨hcount, hpositive⟩ := sessions_balanced.2.2.2.2.2.2 (Store.new "zone" "rods") .empty
    ⟨"", 0, "zone", "", "rods", "", "rods", .slash⟩ "key" _
  refine ⟨hkept, hlive, hcount.trans (congrArg Finset.card hlive), hpositive "second" _ hkept rfl⟩

end StoreMount
