/-!
# Reasoning about actions

An action runs on a state and either answers or fails, leaving a state behind in both cases. A
triple says what holds afterwards, of the answer or of the failure, if something holds before. An
action keeps a view of the state if the view is the same afterwards, whatever happens, and it
sustains a condition if that holds again. It gives an outcome if what holds before settles how it
ends. What it takes for an action to succeed, and what comes of it then, can also be said exactly,
as a relation between views of the state; such relations are put together as the actions are.
-/
namespace StoreMount

variable {σ ε α β ν : Type}

def Triple (P : σ → Prop) (m : ExceptT ε (StateM σ) α) (Q : α → σ → Prop)
    (E : ε → σ → Prop) : Prop :=
  ∀ s, P s → match (m s : Except ε α × σ) with
    | (.ok a, s') => Q a s'
    | (.error e, s') => E e s'

def Keeps (view : σ → ν) (m : ExceptT ε (StateM σ) α) : Prop := ∀ s, view (m s).2 = view s

theorem eq_ok_of_map {x : Except ε α} {g : α → β} {b : β} (h : x.map g = .ok b) :
    ∃ a, x = .ok a ∧ g a = b := by
  cases x with
  | error e => cases h
  | ok a => exact ⟨a, rfl, Except.ok.inj h⟩

theorem bind_apply (m : ExceptT ε (StateM σ) α) (f : α → ExceptT ε (StateM σ) β) (s : σ) :
    (m >>= f) s = match (m s : Except ε α × σ) with
      | (.ok a, s') => f a s'
      | (.error e, s') => (.error e, s') := by
  change (match (m s : Except ε α × σ) with | (x, s') => (ExceptT.bindCont f x) s') = _
  rcases h : (m s : Except ε α × σ) with ⟨e | a, s'⟩ <;> rfl

theorem state_of_answer (m : ExceptT ε (StateM σ) α) (g : α → β) (s : σ) :
    ((do return g (← m) : ExceptT ε (StateM σ) β) s).2 = (m s).2 := by
  rw [bind_apply]
  rcases m s with ⟨e | a, s'⟩ <;> rfl

section Apply
variable (s : σ)

theorem pure_apply (a : α) : (pure a : ExceptT ε (StateM σ) α) s = (.ok a, s) := rfl
theorem get_apply : (get : ExceptT ε (StateM σ) σ) s = (.ok s, s) := rfl
theorem set_apply (s' : σ) : (set s' : ExceptT ε (StateM σ) PUnit) s = (.ok ⟨⟩, s') := rfl
theorem modify_apply (g : σ → σ) : (modify g : ExceptT ε (StateM σ) PUnit) s = (.ok ⟨⟩, g s) := rfl
theorem lift_apply (x : Except ε α) : (liftM x : ExceptT ε (StateM σ) α) s = (x, s) := rfl

end Apply

theorem tryCatch_apply (m : ExceptT ε (StateM σ) α) (handler : ε → ExceptT ε (StateM σ) α) (s : σ) :
    (tryCatch m handler) s = match (m s : Except ε α × σ) with
      | (.ok a, s') => (.ok a, s')
      | (.error e, s') => handler e s' := by
  change (ExceptT.tryCatch m handler) s = _
  rcases h : (m s : Except ε α × σ) with ⟨e | a, s'⟩
  · simp only [ExceptT.tryCatch, ExceptT.mk, bind, StateT.bind, h]
  · simp only [ExceptT.tryCatch, ExceptT.mk, bind, StateT.bind, h]
    rfl

variable {P P' : σ → Prop} {m : ExceptT ε (StateM σ) α} {f : α → ExceptT ε (StateM σ) β}
    {Q Q' : α → σ → Prop}
  {R : β → σ → Prop} {E E' : ε → σ → Prop} {view : σ → ν} {v : ν}

namespace Triple

theorem weaken (h : Triple P m Q E) (hP : ∀ s, P' s → P s) (hQ : ∀ a s, Q a s → Q' a s)
    (hE : ∀ e s, E e s → E' e s) :
    Triple P' m Q' E' := by
  intro s hs
  have := h s (hP s hs)
  split at this
  · exact hQ _ _ this
  · exact hE _ _ this

theorem and (h : Triple P m Q E) (h' : Triple P' m Q' E') :
    Triple (fun s => P s ∧ P' s) m (fun a s => Q a s ∧ Q' a s) (fun e s => E e s ∧ E' e s) := by
  intro s hs
  have := h s hs.1
  have := h' s hs.2
  rcases hm : (m s : Except ε α × σ) with ⟨e | a, s'⟩ <;> simp_all only [and_self]

theorem of_pure {a : α} (h : ∀ s, P s → Q a s) : Triple P (pure a : ExceptT ε (StateM σ) α) Q E := h

theorem of_throw {e : ε} (h : ∀ s, P s → E e s) :
    Triple P (throw e : ExceptT ε (StateM σ) α) Q E := h

theorem bind (hm : Triple P m Q E) (hf : ∀ a, Triple (Q a) (f a) R E) : Triple P (m >>= f) R E := by
  intro s hs
  have := hm s hs
  rw [bind_apply]
  rcases h : (m s : Except ε α × σ) with ⟨e | a, s'⟩ <;> rw [h] at this
  · exact this
  · exact hf a s' this

theorem of_get : Triple P (get : ExceptT ε (StateM σ) σ) (fun a s => a = s ∧ P s) E :=
  fun _ h => ⟨rfl, h⟩

theorem of_lift {x : Except ε α} :
    Triple P (liftM x : ExceptT ε (StateM σ) α) (fun a s => P s ∧ x = .ok a)
      (fun e s => P s ∧ x = .error e) := by
  intro s hs
  cases x <;> exact ⟨hs, rfl⟩

theorem of_catch {handler : ε → ExceptT ε (StateM σ) α} (hm : Triple P m Q E')
    (hh : ∀ e, Triple (E' e) (handler e) Q E) :
    Triple P (tryCatch m handler) Q E := by
  intro s hs
  have := hm s hs
  rw [tryCatch_apply]
  rcases h : (m s : Except ε α × σ) with ⟨e | a, s'⟩ <;> rw [h] at this
  · exact hh e s' this
  · exact this

theorem of_known {φ : Prop} (h : φ → Triple P m Q E) : Triple (fun s => P s ∧ φ) m Q E :=
  fun s hs => h hs.2 s hs.1

theorem trivial : Triple P m (fun _ _ => True) (fun _ _ => True) := by
  intro s _
  split <;> exact True.intro

theorem of_view {C : ν → Prop} (h : ∀ v, C v → Triple (view · = v) m Q E) :
    Triple (fun s => C (view s)) m Q E := fun s hs => h (view s) hs s rfl

theorem of_ok {C : α → Prop} (h : Triple P m (fun a _ => C a) (fun _ _ => True)) {s : σ} (hs : P s)
    {a : α} (ha : (m s : Except ε α × σ).1 = .ok a) : C a := by
  have := h s hs
  rcases hm : (m s : Except ε α × σ) with ⟨e | b, s'⟩ <;> rw [hm] at this ha
  · cases ha
  · cases ha
    exact this

end Triple

namespace Keeps

theorem triple (h : Keeps view m) (v : ν) :
    Triple (view · = v) m (fun _ s => view s = v) (fun _ s => view s = v) := by
  intro s hs
  have := h s
  rcases hm : (m s : Except ε α × σ) with ⟨e | a, s'⟩ <;> rw [hm] at this <;> exact this.trans hs

theorem of_pure {a : α} : Keeps view (pure a : ExceptT ε (StateM σ) α) := fun _ => rfl

theorem of_throw {e : ε} : Keeps view (throw e : ExceptT ε (StateM σ) α) := fun _ => rfl

theorem of_throw_bind {e : ε} :
    Keeps view ((throw e : ExceptT ε (StateM σ) α) >>= f) := fun _ => rfl

theorem of_get : Keeps view (get : ExceptT ε (StateM σ) σ) := fun _ => rfl

theorem of_lift {x : Except ε α} : Keeps view (liftM x : ExceptT ε (StateM σ) α) := fun _ => rfl

theorem of_modify {g : σ → σ} (h : ∀ s, view (g s) = view s) :
    Keeps view (modify g : ExceptT ε (StateM σ) PUnit) := h

theorem bind (hm : Keeps view m) (hf : ∀ a, Keeps view (f a)) : Keeps view (m >>= f) := by
  intro s
  have := hm s
  rw [bind_apply]
  rcases h : (m s : Except ε α × σ) with ⟨e | a, s'⟩ <;> rw [h] at this
  · exact this
  · exact (hf a s').trans this

theorem of_catch {handler : ε → ExceptT ε (StateM σ) α} (hm : Keeps view m)
    (hh : ∀ e, Keeps view (handler e)) :
    Keeps view (tryCatch m handler) := by
  intro s
  have := hm s
  rw [tryCatch_apply]
  rcases h : (m s : Except ε α × σ) with ⟨e | a, s'⟩ <;> rw [h] at this
  · exact (hh e s').trans this
  · exact this

theorem then_triple (hm : Keeps view m) (hE : ∀ e s, view s = v → E e s)
    (hf : ∀ a, Triple (view · = v) (f a) R E) : Triple (view · = v) (m >>= f) R E :=
  ((hm.triple v).weaken (fun _ h => h) (fun _ _ h => h) hE).bind hf

end Keeps

/-- A condition holds again however the action ends. -/
def Sustains (C : σ → Prop) (m : ExceptT ε (StateM σ) α) : Prop := ∀ s, C s → C (m s).2

namespace Sustains

variable {C : σ → Prop}

theorem of_keeps (h : Keeps view m) {C : ν → Prop} : Sustains (fun s => C (view s)) m := fun s hs =>
  (congrArg C (h s)).mpr hs

theorem bind (hm : Sustains C m) (hf : ∀ a, Sustains C (f a)) : Sustains C (m >>= f) := by
  intro s hs
  have := hm s hs
  rw [bind_apply]
  rcases h : (m s : Except ε α × σ) with ⟨e | a, s'⟩ <;> rw [h] at this
  · exact this
  · exact hf a s' this

theorem of_catch {handler : ε → ExceptT ε (StateM σ) α} (hm : Sustains C m)
    (hh : ∀ e, Sustains C (handler e)) :
    Sustains C (tryCatch m handler) := by
  intro s hs
  have := hm s hs
  rw [tryCatch_apply]
  rcases h : (m s : Except ε α × σ) with ⟨e | a, s'⟩ <;> rw [h] at this
  · exact hh e s' this
  · exact this

end Sustains

/-- The condition settles the outcome, and another condition holds afterwards. -/
def Gives (P : σ → Prop) (m : ExceptT ε (StateM σ) α) (r : Except ε α) (P' : σ → Prop) : Prop :=
  ∀ s, P s → (m s : Except ε α × σ).1 = r ∧ P' (m s).2

namespace Gives

variable {P'' : σ → Prop} {a : α} {e : ε} {r : Except ε β}

theorem of_pure : Gives P (pure a : ExceptT ε (StateM σ) α) (.ok a) P := fun _ h => ⟨rfl, h⟩

theorem of_throw : Gives P (throw e : ExceptT ε (StateM σ) α) (.error e) P := fun _ h => ⟨rfl, h⟩

theorem of_throw_bind : Gives P ((throw e : ExceptT ε (StateM σ) α) >>= f) (.error e) P :=
  fun _ h => ⟨rfl, h⟩

theorem of_lift {x : Except ε α} : Gives P (liftM x : ExceptT ε (StateM σ) α) x P :=
  fun _ h => ⟨rfl, h⟩

theorem of_modify {g : σ → σ} (h : ∀ s, P s → P' (g s)) :
    Gives P (modify g : ExceptT ε (StateM σ) PUnit) (.ok ⟨⟩) P' := fun s hs => ⟨rfl, h s hs⟩

theorem bind_ok {I : σ → Prop} (hm : Gives P m (.ok a) I) (hf : Gives I (f a) r P'') :
    Gives P (m >>= f) r P'' := by
  intro s hs
  obtain ⟨ha, hs'⟩ := hm s hs
  rw [bind_apply]
  rcases h : (m s : Except ε α × σ) with ⟨x, s'⟩
  rw [h] at ha hs'
  obtain rfl : x = .ok a := ha
  exact hf s' hs'

theorem bind_error (hm : Gives P m (.error e) P') : Gives P (m >>= f) (.error e) P' := by
  intro s hs
  obtain ⟨he, hs'⟩ := hm s hs
  rw [bind_apply]
  rcases h : (m s : Except ε α × σ) with ⟨x, s'⟩
  rw [h] at he hs'
  obtain rfl : x = .error e := he
  exact ⟨rfl, hs'⟩

theorem bind_get {f : σ → ExceptT ε (StateM σ) β} (h : ∀ s, P s → Gives P (f s) r P') :
    Gives P (get >>= f) r P' :=
  fun s hs => h s hs s hs

theorem triple {r : Except ε α} (h : Gives P m r P') :
    Triple P m (fun a s => r = .ok a ∧ P' s) (fun e s => r = .error e ∧ P' s) := by
  intro s hs
  obtain ⟨hr, hs'⟩ := h s hs
  rcases hm : (m s : Except ε α × σ) with ⟨e | a, s'⟩ <;> rw [hm] at hr hs' <;> exact ⟨hr.symm, hs'⟩

theorem then_triple (hm : Gives P m (.ok a) P') (hf : Triple P' (f a) R E) :
    Triple P (m >>= f) R E := by
  intro s hs
  obtain ⟨ha, hs'⟩ := hm s hs
  rw [bind_apply]
  rcases h : (m s : Except ε α × σ) with ⟨x, s'⟩
  rw [h] at ha hs'
  obtain rfl : x = .ok a := ha
  exact hf s' hs'

end Gives

inductive SameOutcome (rel : α → α → Prop) : Except ε α → Except ε α → Prop
  | ok {a b : α} (h : rel a b) : SameOutcome rel (.ok a) (.ok b)
  | error (e : ε) : SameOutcome rel (.error e) (.error e)

def Yields (rel : α → α → Prop) (P : σ → Prop) (m : ExceptT ε (StateM σ) α) (r : Except ε α)
    (P' : σ → Prop) : Prop :=
  ∀ s, P s → SameOutcome rel (m s : Except ε α × σ).1 r ∧ P' (m s).2

section Yields

variable {rel : α → α → Prop} {rel' : β → β → Prop} {P'' : σ → Prop}

theorem SameOutcome.refl (h : ∀ a, rel a a) (x : Except ε α) : SameOutcome rel x x := by
  cases x with
  | ok a => exact .ok (h a)
  | error e => exact .error e

theorem SameOutcome.join {x y z : Except ε α} (hx : SameOutcome rel x z) (hy : SameOutcome rel y z)
    (h : ∀ a b c, rel a c → rel b c → rel a b) : SameOutcome rel x y := by
  cases hx with
  | ok ha => cases hy with | ok hb => exact .ok (h _ _ _ ha hb)
  | error e => cases hy with | error _ => exact .error e

theorem Gives.yields {r : Except ε α} (h : Gives P m r P') (hrel : ∀ a, rel a a) :
    Yields rel P m r P' := fun s hs => by
  obtain ⟨hr, hs'⟩ := h s hs
  exact ⟨hr ▸ .refl hrel _, hs'⟩

theorem Gives.then_yields {a : α} {r : Except ε β} (hm : Gives P m (.ok a) P')
    (hf : Yields rel' P' (f a) r P'') :
    Yields rel' P (m >>= f) r P'' := by
  intro s hs
  obtain ⟨ha, hs'⟩ := hm s hs
  rw [bind_apply]
  rcases h : (m s : Except ε α × σ) with ⟨x, s'⟩
  rw [h] at ha hs'
  obtain rfl : x = .ok a := ha
  exact hf s' hs'

theorem Yields.map {r : Except ε α} (hm : Yields rel P m r P') {g : α → β}
    (hg : ∀ a b, rel a b → rel' (g a) (g b)) :
    Yields rel' P (do return g (← m)) (r.map g) P' := by
  intro s hs
  obtain ⟨ho, hs'⟩ := hm s hs
  rw [bind_apply]
  rcases h : (m s : Except ε α × σ) with ⟨x, s'⟩
  rw [h] at ho hs'
  cases ho with
  | ok ha => exact ⟨.ok (hg _ _ ha), hs'⟩
  | error e => exact ⟨.error e, hs'⟩

theorem Yields.bind_get {g : σ → ExceptT ε (StateM σ) α} {r : Except ε α}
    (h : ∀ s, P s → Yields rel P (g s) r P') :
    Yields rel P (get >>= g) r P' := fun s hs => h s hs s hs

end Yields

/-- From a state of this view, the action succeeds with exactly these answers, and the state is then
viewed like that. -/
def Meets (view : σ → ν) (v : ν) (m : ExceptT ε (StateM σ) α) (R : α → ν → Prop) : Prop :=
  ∀ s, view s = v → ∀ a v', (m s : Except ε α × σ).1 = .ok a ∧ view (m s).2 = v' ↔ R a v'

namespace Meets

variable {R : α → ν → Prop} {S : α → ν → β → ν → Prop} {a : α} {s : σ}

theorem congr {R' : α → ν → Prop} (h : Meets view v m R) (hR : ∀ a v', R a v' ↔ R' a v') :
    Meets view v m R' :=
  fun s hs a v' => (h s hs a v').trans (hR a v')

theorem of_pure : Meets view v (pure a : ExceptT ε (StateM σ) α) fun b v' => b = a ∧ v' = v := by
  rintro s rfl b v'
  rw [pure_apply, Except.ok.injEq, eq_comm, @eq_comm _ (view s)]

theorem of_throw {e : ε} : Meets view v (throw e : ExceptT ε (StateM σ) α) fun _ _ => False := by
  rintro s - a v'
  exact iff_of_false (fun h => by cases h.1) not_false

theorem of_modify {g : σ → σ} {v₁ : ν} (h : ∀ s, view s = v → view (g s) = v₁) :
    Meets view v (modify g : ExceptT ε (StateM σ) PUnit) fun _ v' => v' = v₁ := by
  rintro s hs - v'
  rw [modify_apply, h s hs]
  exact ⟨fun h => h.2.symm, fun h => ⟨rfl, h.symm⟩⟩

theorem bind (hm : Meets view v m R) (hf : ∀ a v', R a v' → Meets view v' (f a) (S a v')) :
    Meets view v (m >>= f) fun b v'' => ∃ a v', R a v' ∧ S a v' b v'' := by
  intro s hs b v''
  have hm := hm s hs
  rw [bind_apply]
  rcases h : (m s : Except ε α × σ) with ⟨e | a, s'⟩ <;> rw [h] at hm
  · refine iff_of_false (fun h => by cases h.1) ?_
    rintro ⟨a, v', ha, -⟩
    cases ((hm a v').2 ha).1
  · have ha : R a (view s') := (hm a _).1 ⟨rfl, rfl⟩
    refine (hf a _ ha s' rfl b v'').trans ⟨fun hb => ⟨a, _, ha, hb⟩, ?_⟩
    rintro ⟨a', v', ha', hb⟩
    obtain ⟨he, rfl⟩ := (hm a' v').2 ha'
    obtain rfl := Except.ok.inj he
    exact hb

theorem then_meets {m : ExceptT ε (StateM σ) PUnit} {f : PUnit → ExceptT ε (StateM σ) β} {C : Prop}
    {v₁ : ν} {R : β → ν → Prop} (hm : Meets view v m fun _ v' => C ∧ v' = v₁)
    (hf : Meets view v₁ (f ⟨⟩) R) :
    Meets view v (m >>= f) fun b v' => C ∧ R b v' := by
  refine (hm.bind (S := fun _ _ => R) ?_).congr fun b v' => ?_
  · rintro _ _ ⟨-, rfl⟩
    exact hf
  · exact ⟨fun ⟨_, _, ⟨hc, _⟩, hb⟩ => ⟨hc, hb⟩, fun ⟨hc, hb⟩ => ⟨⟨⟩, v₁, ⟨hc, rfl⟩, hb⟩⟩

theorem bind_get {f : σ → ExceptT ε (StateM σ) α} (h : ∀ s, view s = v → Meets view v (f s) R) :
    Meets view v (get >>= f) R := fun s hs => h s hs s hs

theorem ok_iff (h : Meets view (view s) m R) : (m s : Except ε α × σ).1 = .ok a ↔ ∃ v', R a v' :=
  ⟨fun ha => ⟨_, (h s rfl a _).1 ⟨ha, rfl⟩⟩, fun ⟨v', hv'⟩ => ((h s rfl a v').2 hv').1⟩

theorem holds (h : Meets view (view s) m R) (ha : (m s : Except ε α × σ).1 = .ok a) :
    R a (view (m s).2) :=
  (h s rfl a _).1 ⟨ha, rfl⟩

end Meets

def Observes (view : σ → ν) (v : ν) (m : ExceptT ε (StateM σ) α) (R : α → Prop) : Prop :=
  Meets view v m fun a v' => R a ∧ v' = v

namespace Observes

variable {R : α → Prop}

theorem congr {R' : α → Prop} (h : Observes view v m R) (hR : ∀ a, R a ↔ R' a) :
    Observes view v m R' :=
  Meets.congr h fun a _ => and_congr_left fun _ => hR a

theorem of_pure {a : α} : Observes view v (pure a : ExceptT ε (StateM σ) α) (· = a) := Meets.of_pure

theorem then_meets {S : α → β → ν → Prop} (hm : Observes view v m R)
    (hf : ∀ a, R a → Meets view v (f a) (S a)) :
    Meets view v (m >>= f) fun b v' => ∃ a, R a ∧ S a b v' := by
  refine (Meets.bind hm (S := fun a _ => S a) ?_).congr fun b v'' =>
    ⟨?_, fun ⟨a, ha, hb⟩ => ⟨a, v, ⟨ha, rfl⟩, hb⟩⟩
  · rintro a v' ⟨ha, rfl⟩
    exact hf a ha
  · rintro ⟨a, -, ⟨ha, rfl⟩, hb⟩
    exact ⟨a, ha, hb⟩

theorem then_known {a : α} {C : Prop} {R : β → ν → Prop}
    (hm : Observes view v m fun a' => C ∧ a' = a) (hf : Meets view v (f a) R) :
    Meets view v (m >>= f) fun b v' => C ∧ R b v' := by
  refine (hm.then_meets (S := fun _ => R) ?_).congr fun b v' => by simp
  rintro _ ⟨-, rfl⟩
  exact hf

theorem bind {S : α → β → Prop} (hm : Observes view v m R)
    (hf : ∀ a, R a → Observes view v (f a) (S a)) :
    Observes view v (m >>= f) fun b => ∃ a, R a ∧ S a b := by
  refine Meets.congr (hm.then_meets hf) fun b v' => ⟨?_, ?_⟩
  · rintro ⟨a, ha, hb, hv⟩
    exact ⟨⟨a, ha, hb⟩, hv⟩
  · rintro ⟨⟨a, ha, hb⟩, hv⟩
    exact ⟨a, ha, hb, hv⟩

theorem bind_get {f : σ → ExceptT ε (StateM σ) α} (h : ∀ s, view s = v → Observes view v (f s) R) :
    Observes view v (get >>= f) R := Meets.bind_get h

end Observes
end StoreMount
