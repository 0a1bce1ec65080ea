import StoreMount.AclExchange
import StoreMount.Proofs.Link

/-!
# The calls an action makes

Every call is written down on the link before it is made, failed or not. An action asks within a set
of paths if it only adds calls whose paths are in the set; on a link without faults it leaves none
behind either. Connecting, looking for accounts and closing name no path at all.
-/
namespace StoreMount

def Event.call? : Event → Option Call
  | .called _ call => some call
  | _ => none

namespace Link

def calls (l : Link) : List Call := l.trace.filterMap Event.call?

/-- Calls with paths in a set have been added, and no faults have come up. -/
structure Asked (Near : Path → Prop) (l l' : Link) : Prop where
  calls : ∃ made, l'.calls = l.calls ++ made ∧ ∀ c ∈ made, ∀ p ∈ c.paths, Near p
  faults : l.faults = [] → l'.faults = []

variable {Near : Path → Prop} {l l' l'' : Link} {ε α β : Type}

theorem Asked.refl (l : Link) : Asked Near l l := ⟨⟨[], by simp, by simp⟩, fun h => h⟩

theorem Asked.trans (h : Asked Near l l') (h' : Asked Near l' l'') : Asked Near l l'' where
  calls := by
    obtain ⟨made, hcalls, hnear⟩ := h.calls
    obtain ⟨made', hcalls', hnear'⟩ := h'.calls
    refine ⟨made ++ made', by rw [hcalls', hcalls, List.append_assoc], fun c hc => ?_⟩
    exact (List.mem_append.1 hc).elim (hnear c) (hnear' c)
  faults hf := h'.faults (h.faults hf)

theorem Asked.of_eq (hc : l'.calls = l.calls) (hf : l.faults = [] → l'.faults = []) :
    Asked Near l l' :=
  ⟨⟨[], by rw [hc, List.append_nil], by simp⟩, hf⟩

def Asks (Near : Path → Prop) (m : LinkM ε α) : Prop := ∀ l, Asked Near l (m l).2

namespace Asks

theorem of_pure {a : α} : Asks Near (pure a : LinkM ε α) := fun l => .refl l

theorem of_throw {e : ε} : Asks Near (throw e : LinkM ε α) := fun l => .refl l

theorem of_get : Asks Near (get : LinkM ε Link) := fun l => .refl l

theorem of_lift {x : Except ε α} : Asks Near (liftM x : LinkM ε α) := fun l => .refl l

theorem bind {m : LinkM ε α} {f : α → LinkM ε β} (hm : Asks Near m) (hf : ∀ a, Asks Near (f a)) :
    Asks Near (m >>= f) := by
  intro l
  have := hm l
  rw [bind_apply]
  rcases h : (m l : Except ε α × Link) with ⟨e | a, l'⟩ <;> rw [h] at this
  · exact this
  · exact this.trans (hf a l')

theorem failingAs {convert : StoreError → ε} {action : LinkM StoreError α} (h : Asks Near action) :
    Asks Near (failingAs convert action) := h

end Asks

/-! ## Sessions -/

theorem calls_record (l : Link) (e : Event) : (l.record e).calls = l.calls ++ e.call?.toList := by
  rw [calls, record, List.filterMap_append]
  cases h : e.call? <;> simp [calls, h]

@[simp] theorem calls_close (session : Session) (l : Link) : (l.close session).calls = l.calls := by
  rw [close, calls_record]
  exact List.append_nil _

theorem strike?_nil (method subject : String) : Fault.strike? [] method subject = none := rfl

theorem asks_check (method subject : String) : Asks Near (check method subject) := by
  intro l
  unfold check
  split
  · next e faults h => exact .of_eq rfl fun hf => by rw [hf, strike?_nil] at h; cases h
  · exact .refl l

theorem asks_record {e : Event} (h : e.call? = none) :
    Asks Near (modify (record e) : LinkM ε PUnit) := fun l =>
  .of_eq (by rw [modify_apply, calls_record, h]; exact List.append_nil _) fun hf => hf

theorem asks_announce (account : Account) : Asks Near (announce account) :=
  (asks_record rfl).bind fun _ => asks_check _ _

theorem asks_enter (account : Account) : Asks Near (enter account) := by
  intro l
  simp only [enter, bind_apply, get_apply, lift_apply]
  cases h : l.server.connect account with
  | error e => exact .refl l
  | ok c => exact .of_eq ((calls_record _ _).trans (List.append_nil _)) fun hf => hf

theorem asks_connect (account : Account) : Asks Near (connect account) :=
  (asks_announce account).bind fun _ => asks_enter account

theorem asks_during {account : Account} {convert : StoreError → ε} {body : Session → LinkM ε α}
    (h : ∀ session, Asks Near (body session)) : Asks Near (during account convert body) :=
  (Asks.failingAs (asks_connect account)).bind fun session l =>
    (h session l).trans (.of_eq (calls_close session _) fun hf => hf)

/-! ## Calls -/

theorem asks_perform {session : Session} {call : Call}
    {action : Store → Except StoreError (α × Store)} (h : ∀ p ∈ call.paths, Near p) :
    Asks Near (perform session call action) := by
  intro l
  have hrecorded : Asked Near l (l.record (.called session call)) :=
    ⟨⟨[call], calls_record l _, by simpa using h⟩, fun hf => hf⟩
  rw [perform_apply]
  cases hs : Fault.strike? l.faults call.method call.subject with
  | some struck => exact ⟨hrecorded.calls, fun hf => by rw [hf, strike?_nil] at hs; cases hs⟩
  | none =>
    dsimp only
    split
    · exact hrecorded
    · exact ⟨hrecorded.calls, hrecorded.faults⟩

theorem asks_stat {session : Session} {path : Path} (h : Near path) :
    Asks Near (stat session path) := by
  refine (asks_perform (by simpa [Call.paths] using h)).bind fun status =>
    Asks.of_get.bind fun l => ?_
  split <;> exact .of_pure

theorem asks_findUser (session : Session) (name : String) : Asks Near (findUser session name) :=
  (asks_perform (by simp [Call.paths])).bind fun _ => Asks.of_get.bind fun _ => .of_pure

theorem asks_toEntries (r : Resolver) (ids : Identities) (session : Session) (aces : List Ace) :
    Asks Near (AclExchange.toEntries r ids session aces) := by
  induction aces with
  | nil => exact .of_pure
  | cons ace aces ih =>
    refine Asks.bind ?_ fun entry => ih.bind fun entries => .of_pure
    unfold AclExchange.toEntry
    split
    · exact .of_pure
    · refine (asks_findUser session _).bind fun found => ?_
      split <;> exact .of_pure

theorem asks_load (admin : Account) (ids : Identities) (uid : UInt32) :
    Asks Near (Resolver.load admin ids uid) := by
  refine Asks.of_lift.bind fun person => asks_during fun session => ?_
  refine (Asks.failingAs (asks_findUser session _)).bind fun found => ?_
  cases found with
  | none => exact .of_throw
  | some _ => exact .of_pure

theorem asked_resolve (r : Resolver) (ids : Identities) (uid : UInt32) (l : Link) :
    Asked Near l (r.resolve ids uid l).2.2 := by
  have : Asked Near l (Resolver.load r.admin ids uid l).2 := asks_load r.admin ids uid l
  unfold Resolver.resolve
  split
  · exact .refl l
  · split <;> simp_all

end Link
end StoreMount
