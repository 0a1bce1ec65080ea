import StoreMount.Proofs.Facade.Atomicity
import StoreMount.Proofs.Registry.Freshness

/-!
# Handles that were given up

A facade enters no pair under a handle of its own choice, the root apart, and that one when it is
mounted. From then on its registry only goes onward: what it hands out begins at the next handle. A
handle that leads somewhere at one point of a run is below the next one from there on, so once it
leads nowhere it never leads anywhere again, whatever clients ask and whatever others do to the
store.
-/
namespace StoreMount

namespace Scene

theorem Step.onward {Near Below : Path → Prop} {s s' : Scene} (h : Step Near Below s s')
    (hs : s.registry.Inverse) :
    s.registry.Onward s'.registry := by
  cases h with
  | asked | changed | kept => exact .refl _
  | entered => exact Registry.onward_handleFor ..
  | gaveUp _ _ unmapped => exact Registry.onward_unmap unmapped
  | moved _ _ done => exact hs.onward_moveTree done

theorem invariant_onward (r : Registry) :
    Invariant (fun _ => True) (fun _ => True) fun s => s.registry.Inverse ∧ r.Onward s.registry :=
  .of_step fun h hs => ⟨Facade.invariant_inverse.step h hs.1, hs.2.trans (h.onward hs.1)⟩

end Scene

namespace Facade

variable {link : Link} {ids : Identities} {resolver : Resolver} {allowList : AllowList}
    {options : Options} {f : Facade}

theorem onward_runAmong (hf : f.registry.Inverse) (turns : List Turn) :
    (f.runAmong turns).registry.Inverse ∧ f.registry.Onward (f.runAmong turns).registry :=
  upheld_runAmong (Scene.invariant_onward f.registry) (fun _ _ _ _ _ hs _ => hs) ⟨hf, .refl _⟩

theorem Mounted.ahead {s : Store} (h : f.Mounted s options) : f.registry.Ahead := by
  have hroot : Registry.rootHandle < f.registry.next :=
    Nat.lt_of_lt_of_eq (Nat.lt_succ_self _) h.next.symm
  refine ⟨hroot, fun i p hp => ?_⟩
  rw [((h.paths i p).1 hp).1]
  exact hroot

/-- Whatever sections have had the registry, a handle that is now handed out for the first time is
above the root's and above every handle that one of them gave out. So in a run of a mounted facade
among others, a handle that led somewhere and then led nowhere never leads anywhere again. -/
theorem retired_handles_never_return :
    (∀ before : List Registry.Section, (∀ c ∈ before, c.InRange) → ∀ now,
      (Registry.Shared.empty.run before).Assigns now →
      ∃ h, ((Registry.Shared.empty.run before).step now).1 = some (.ok (some h)) ∧ 1 < h ∧
        ∀ earlier c later h', before = earlier ++ c :: later →
          (Registry.Shared.empty.run earlier).Issues h' c → h' < h) ∧
    ∀ {link : Link} {ids : Identities} {resolver : Resolver} {allowList : AllowList}
      {options : Options} {f : Facade},
      (mount link ids resolver allowList options).1 = .ok f →
      ∀ (earlier between later : List Turn) (h : Handle),
        (f.runAmong earlier).registry.pathOf? h ≠ none →
        (f.runAmong (earlier ++ between)).registry.pathOf? h = none →
          (f.runAmong (earlier ++ between ++ later)).registry.pathOf? h = none := by
  constructor
  · intro before hc now hnow
    have hahead :=
      (Registry.Shared.ahead_run (s := .empty) Registry.inverse_empty Registry.ahead_empty hc).1
    obtain ⟨h, hanswer, hle⟩ := hnow.answers
    refine ⟨h, hanswer, Nat.lt_of_lt_of_le hahead.root hle, ?_⟩
    rintro earlier c later h' rfl hissues
    exact Nat.lt_of_lt_of_le (hissues.lt_next_run hc) hle
  · intro link ids resolver allowList options f hm earlier between later h hmapped hgone
    have hmounted := mounted hm
    obtain ⟨hinverse, honward⟩ := onward_runAmong hmounted.inverse earlier
    obtain ⟨p, hp⟩ := Option.ne_none_iff_exists'.1 hmapped
    have hpassed : h < (f.runAmong earlier).registry.next :=
      (hmounted.ahead.onward honward).mapped h p hp
    rw [runAmong_append] at hgone
    rw [runAmong_append, runAmong_append]
    obtain ⟨hinverse', honward'⟩ := onward_runAmong hinverse between
    have hstill := Nat.lt_of_lt_of_le hpassed honward'.next
    exact (onward_runAmong hinverse' later).2.unmapped hstill hgone

/-! Between the two looks of one call, a pair is entered under a handle that was named, and then
given up. A client makes a directory, removes it and makes it again. -/

def sampleSections : List Registry.Section :=
  [.first (.handleFor ⟨"/z/a"⟩), .first (.map 7 ⟨"/z/b"⟩), .second 0, .first (.unmap 7 ⟨"/z/b"⟩)]

def remade : List Turn :=
  [.others (.createCollection "rods" ⟨"/z/b"⟩), .own (.ask (.mkdir 0 1 "a"))]

theorem remade_directory_has_new_handle :
    (∃ h, ((Registry.Shared.empty.run sampleSections).step (.first .allocate)).1 =
      some (.ok (some h)) ∧ 7 < h) ∧
    ∃ f, sampleMount .default = .ok f ∧
      (f.runAmong [.own (.ask (.mkdir 0 1 "a"))]).registry.pathOf? 2 = some ⟨"/z/a"⟩ ∧
      (f.runAmong ([.own (.ask (.mkdir 0 1 "a"))] ++ [.own (.ask (.remove 0 1 "a"))] ++
        remade)).registry.pathOf? 2 = none := by
  constructor
  · have hbound : (Registry.Shared.empty.run [.first (.handleFor ⟨"/z/a"⟩)]).Issues 7
      (.first (.map 7 ⟨"/z/b"⟩)) := .bound rfl
    have hrange : ∀ c ∈ sampleSections, c.InRange := by
      simp [sampleSections, Registry.Section.InRange, Registry.lastHandle]
    obtain ⟨h, hanswer, -, hearlier⟩ :=
      retired_handles_never_return.1 sampleSections hrange (.first .allocate) .allocate
    exact ⟨h, hanswer, hearlier _ _ _ 7 rfl hbound⟩
  · have hpaths : (sampleMount .default).toOption.any (fun f =>
        decide ((f.runAmong [.own (.ask (.mkdir 0 1 "a"))]).registry.pathOf? 2 = some ⟨"/z/a"⟩ ∧
          (f.runAmong ([.own (.ask (.mkdir 0 1 "a"))] ++
              [.own (.ask (.remove 0 1 "a"))])).registry.pathOf? 2 = none)) = true := by
      decide +kernel
    obtain ⟨f, hm, hpaths⟩ := exists_of_any hpaths
    obtain ⟨hmade, hremoved⟩ := of_decide_eq_true hpaths
    have hmapped : (f.runAmong [.own (.ask (.mkdir 0 1 "a"))]).registry.pathOf? 2 ≠
      none := by simp [hmade]
    exact ⟨f, hm, hmade, retired_handles_never_return.2 hm _ _ remade 2 hmapped hremoved⟩

end Facade
end StoreMount
