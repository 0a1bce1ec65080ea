import StoreMount.Facade.Basic
import StoreMount.Proofs.Registry.Interleaving
import StoreMount.Proofs.Store.Shadows

/-!
# Store and registry in lockstep

What a handle means rests on three things: the store, the registry, and the listings that are kept,
since a listing hands out handles for its lines. They are in lockstep when every mapped path is
there in the store, or is the shadow of an object whose name is no text, and every kept listing is
right about the objects that carry its time. From a state in lockstep the facade moves on in a few
ways only: it hands out a handle for a path that is there or a shadow, keeps a listing that was just
made, or makes a change in the store, which for removals and moves is followed by the same change in
the registry. Each of these ways keeps the lockstep, and a handle that is mapped before and after
means the same object.
-/
namespace StoreMount

def Store.objectId? (s : Store) (p : Path) : Option Nat := (s.object? p).map StoredObject.id

theorem Store.objectId?_eq (s : Store) (p : Path) :
    s.objectId? p = (s.standing? p.place).map Prod.fst := by
  rw [Store.objectId?, Store.standing?, Option.map_map]
  rfl

structure Store.Sound (s : Store) : Prop where
  rooted : s.Rooted
  spelled : s.Spelled
  timed : Store.Timed s.objects s.clock

theorem Store.Reachable.sound {s : Store} (h : s.Reachable) (hs : s.Rooted) : s.Sound :=
  ⟨hs, h.spelled, h.timed⟩

theorem Store.Sound.effect {s s' : Store} (hs : s.Sound) (h : s.Effect s') : s'.Sound :=
  ⟨hs.rooted.effect h, hs.spelled.effect h, hs.timed.effect h⟩

structure Ground where
  store : Store
  registry : Registry
  listings : Table (String × Place) (Stamped Listing)

def Facade.ground (f : Facade) : Ground := ⟨f.link.server.store, f.registry, f.cache.listingFor⟩

namespace Ground

/-- Something stands at the path, or a listing may point there. -/
def Shown (g : Ground) (p : Path) : Prop :=
  g.store.standing? p.place ≠ none ∨ g.store.Shadow p.place

structure Lockstep (g : Ground) : Prop where
  sound : g.store.Sound
  inverse : g.registry.Inverse
  issued : ∀ h p, g.registry.pathOf? h = some p → h < g.registry.next
  present : ∀ h p, g.registry.pathOf? h = some p → g.Shown p
  listed : ∀ key l, g.listings.get? key = some l → g.store.Shows l.value.marker l.value.entries

/-- No handle is handed out again, and one that is mapped has been mapped all along, to the same
object if to any. -/
structure Continues (g g' : Ground) : Prop where
  next : g.registry.next ≤ g'.registry.next
  kept : ∀ h p', h < g.registry.next → g'.registry.pathOf? h = some p' →
    ∃ p, g.registry.pathOf? h = some p ∧ ∀ i, g.store.objectId? p = some i →
      g'.store.objectId? p' = some i
  named : g.store.Textual → g'.store.Textual

def Advances (g g' : Ground) : Prop := g.Lockstep → g'.Lockstep ∧ g.Continues g'

variable {g g' g'' : Ground}

theorem Continues.refl (g : Ground) : g.Continues g where
  next := Nat.le_refl _
  kept _ p' _ hp := ⟨p', hp, fun _ hi => hi⟩
  named := id

theorem Continues.trans (h : g.Continues g') (h' : g'.Continues g'') : g.Continues g'' where
  next := Nat.le_trans h.next h'.next
  kept handle p'' hlt hp'' := by
    obtain ⟨p', hp', he'⟩ := h'.kept handle p'' (Nat.lt_of_lt_of_le hlt h.next) hp''
    obtain ⟨p, hp, he⟩ := h.kept handle p' hlt hp'
    exact ⟨p, hp, fun i hi => he' i (he i hi)⟩
  named := h'.named ∘ h.named

theorem Advances.refl (g : Ground) : g.Advances g := fun h => ⟨h, .refl g⟩

theorem Advances.trans (h : g.Advances g') (h' : g'.Advances g'') : g.Advances g'' := fun hg =>
  ⟨(h' (h hg).1).1, (h hg).2.trans (h' (h hg).1).2⟩

theorem Lockstep.present_parent (hg : g.Lockstep) {p up : Path} (hp : g.Shown p)
    (hup : p.place.parent? = some up.place) : g.Shown up := by
  have hrooted : ∀ k, k.parent? = some up.place → g.store.standing? k ≠ none → g.Shown up :=
      fun k hk hthere => by
    obtain ⟨i, kind, hi, -⟩ := Store.rooted_iff.1 hg.sound.rooted k up.place hthere hk
    exact .inl (by simp [hi])
  rcases hp with hthere | ⟨k, n, -, hk, hthere⟩
  · exact hrooted p.place hup hthere
  · have hname : ∀ n : RawText, Place.parent? (k ++ [.name n]) = some k := fun n =>
      Place.parent?_append_singleton (.inr (by simp))
    rw [hk, hname] at hup
    exact hrooted _ ((hname n).trans hup) hthere

/-! ## The ways to move on -/

theorem Advances.handleFor {p : Path} (hp : g.Shown p) :
    g.Advances { g with registry := (g.registry.handleFor p).2 } := fun hg => by
  refine ⟨{ hg with inverse := ?_, issued := ?_, present := ?_ },
    Registry.next_handleFor .., ?_, id⟩
  · exact hg.inverse.handleFor p
  · intro h q hq
    rcases g.registry.pathOf?_handleFor p h with he | hnew
    · exact Nat.lt_of_lt_of_le (hg.issued h q (he ▸ hq)) (Registry.next_handleFor ..)
    · exact hnew.issued
  · intro h q hq
    rcases g.registry.pathOf?_handleFor p h with he | hnew
    · exact hg.present h q (he ▸ hq)
    · obtain rfl := Option.some.inj (hnew.mapped.symm.trans hq)
      exact hp
  · intro h q hlt hq
    rcases g.registry.pathOf?_handleFor p h with he | hnew
    · exact ⟨q, he ▸ hq, fun _ hi => hi⟩
    · exact absurd hlt (Nat.not_lt.2 hnew.fresh)

theorem Advances.keep {o : StoredObject} {p : Path} (ho : g.store.object? p = some o)
    (key : String × Place) (since : Nat) : g.Advances { g with
      listings := g.listings.insert key ⟨⟨g.store.children p.place, o.modifiedAt⟩, since⟩ } :=
    fun hg => by
  refine ⟨{ hg with listed := ?_ }, Nat.le_refl _, fun h q _ hq => ⟨q, hq, fun _ hi => hi⟩, id⟩
  intro key' l hl
  rw [Table.get?_insert] at hl
  split at hl
  · obtain rfl := Option.some.inj hl
    exact Store.shows_children hg.sound.timed ho
  · exact hg.listed key' l hl

theorem Lockstep.changed (hg : g.Lockstep) {s' : Store} (he : g.store.Effect s')
    (ht : g.store.Textual → s'.Textual) {r' : Registry} (hr : r'.Inverse)
    (hn : r'.next = g.registry.next)
    (hp : ∀ h p', r'.pathOf? h = some p' → ∃ p, g.registry.pathOf? h = some p ∧
      (g.store.standing? p.place ≠ none → s'.standing? p'.place = g.store.standing? p.place) ∧
      (g.store.standing? p.place = none → g.store.Shadow p.place → s'.Shadow p'.place)) :
    Lockstep { g with store := s', registry := r' } ∧
      g.Continues { g with store := s', registry := r' } := by
  refine ⟨⟨hg.sound.effect he, hr, ?_, ?_, ?_⟩, Nat.le_of_eq hn.symm, ?_, ht⟩
  · intro h p' hp'
    obtain ⟨p, hpath, -⟩ := hp h p' hp'
    exact Nat.lt_of_lt_of_eq (hg.issued h p hpath) hn.symm
  · intro h p' hp'
    obtain ⟨p, hpath, hthere, hshadow⟩ := hp h p' hp'
    by_cases hstands : g.store.standing? p.place = none
    · exact .inr (hshadow hstands ((hg.present h p hpath).resolve_left (· hstands)))
    · exact .inl (hthere hstands ▸ hstands)
  · exact fun key l hl => (hg.listed key l hl).evolves (.of_effect hg.sound.rooted he)
  · intro h p' _ hp'
    obtain ⟨p, hpath, hthere, -⟩ := hp h p' hp'
    refine ⟨p, hpath, fun i hi => ?_⟩
    rw [Store.objectId?_eq] at hi ⊢
    rw [hthere fun hn => by simp [hn] at hi, hi]

theorem Advances.settled {s' : Store} (he : g.store.Effect s') (ht : g.store.Textual → s'.Textual)
    (hs : ∀ k, g.store.standing? k ≠ none → s'.standing? k = g.store.standing? k) :
    g.Advances { g with store := s' } := fun hg =>
  hg.changed he ht hg.inverse rfl fun _ p hp => ⟨p, hp, hs _, fun _ hshadow =>
    hshadow.of_standing fun k hk => hs k hk ▸ hk⟩

theorem Advances.removed {p : Path} {r' : Registry} (hc : g.store.hasChildren p.place = false)
    (hp : p.Titled) (hr : g.registry.Inverse → r'.Inverse ∧ r'.next = g.registry.next ∧
      ∀ h q, r'.pathOf? h = some q → g.registry.pathOf? h = some q ∧ q.place ≠ p.place) :
    g.Advances { g with store := g.store.removed p.place, registry := r' } := fun hg => by
  obtain ⟨hinv, hnext, hpaths⟩ := hr hg.inverse
  refine hg.changed (.removed _ hc) (·.removed _) hinv hnext fun h q hq => ?_
  obtain ⟨hq, hne⟩ := hpaths h q hq
  exact ⟨q, hq,
    fun _ => by rw [Store.standing?_removed, if_neg hne], fun _ hshadow => hshadow.removed hp⟩

theorem Advances.renamed {source target : Path} (hm : g.store.Movable source.place target.place)
    (hsource : source.Titled) (htarget : target.Titled) :
    g.Advances { g with
      store := g.store.renamed source.place target.place
      registry := g.registry.relocated source target } := fun hg => by
  have ht : target.strictlyWithin source = false := Bool.eq_false_iff.2 fun h =>
    hm.outside (Path.strictlyWithin_iff.1 h).1
  have hrooted := hg.sound.rooted
  refine hg.changed (.renamed source target hm) (·.renamed hrooted hm htarget)
    (hg.inverse.moveTree ht)
    (hg.inverse.next_relocated ht) fun h q' hq' => ?_
  obtain ⟨q, hq, hqt, hmoved⟩ := hg.inverse.of_pathOf?_relocated ht hq'
  refine ⟨q, hq, ?_⟩
  rcases hmoved with ⟨hbelow, hplace⟩ | ⟨hw, rfl⟩
  · rw [hplace]
    refine ⟨fun _ => ?_, fun hnone hshadow => hshadow.moved hrooted hm hbelow fun he => ?_⟩
    · obtain ⟨r, hr⟩ := hbelow
      rw [← hr, Place.moved_append, hm.standing?_renamed_target hrooted]
    · obtain ⟨o, ho⟩ := hm.present
      rw [he, Store.standing?_eq_none_iff, ho] at hnone
      cases hnone
  · exact ⟨fun _ => by rw [hm.standing?_renamed_else hrooted hqt, if_neg hw],
      fun _ hshadow => hshadow.renamed hrooted hm hsource htarget hw hqt⟩

end Ground
end StoreMount
