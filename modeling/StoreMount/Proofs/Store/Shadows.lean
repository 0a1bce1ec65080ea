import StoreMount.Proofs.Store.Listings

/-!
# Names that are no text

A listing shows every name as a text. For a name that is no text the line points beside the object,
to a place where something else may stand, or nothing. Such places are shadows. Sessions that name
what they make and move by texts bring no shadows about, and those that are there stay, or move
along with the collection that they are in.
-/
namespace StoreMount

def Path.Titled (p : Path) : Prop := ∃ up, ∃ t : String, p.place = up ++ [.name t]

theorem Path.titled_child {name : String} (h : Spelling.Plain name) (base : Path) :
    (base.child name).Titled := ⟨base.place, name, Path.place_child h base⟩

theorem Path.Titled.text_of_eq {p : Path} (h : p.Titled) {up : Place} {n : RawText}
    (he : up ++ [.name n] = p.place) : n.text? ≠ none := by
  obtain ⟨up', t, hp⟩ := h
  obtain ⟨-, hlast⟩ := List.append_inj' (he.trans hp) rfl
  obtain rfl : n = t := Component.name.inj (List.singleton_inj.1 hlast)
  simp

def Component.isText : Component → Bool
  | .name n => n.text?.isSome
  | _ => true

namespace Store

variable {s s' : Store} {k : Place}

/-- What a listing shows of a child whose name is no text. -/
def Shadow (s : Store) (k : Place) : Prop :=
  ∃ up n, n.text? = none ∧ k = up ++ [.name n.shown] ∧ s.standing? (up ++ [.name n]) ≠ none

/-- All objects have names that are texts. -/
def Textual (s : Store) : Prop := ∀ up n, s.standing? (up ++ [.name n]) ≠ none → n.text? ≠ none

instance (s : Store) : Decidable s.Textual :=
  decidable_of_iff (∀ e ∈ s.objects.entries, ∀ c ∈ e.1.getLast?, c.isText = true) <| by
    refine ⟨fun h up n hs hn => ?_, fun h e he c hc => ?_⟩
    · obtain ⟨o, ho⟩ := Option.ne_none_iff_exists'.1 (mt standing?_eq_none_iff.2 hs)
      have := h _ (Table.get?_eq_some_iff.1 ho) (.name n) (by simp)
      simp [Component.isText, hn] at this
    · obtain ⟨up, hup⟩ := List.getLast?_eq_some_iff.1 hc
      cases c with
      | name n =>
        refine Option.isSome_iff_ne_none.2 (h up n fun hn => ?_)
        have ho :=
          Table.get?_eq_some_iff.2 (show (up ++ [.name n], e.2) ∈ s.objects.entries from hup ▸ he)
        simp [standing?_eq_none_iff.1 hn] at ho
      | _ => rfl

theorem Textual.not_shadow (h : s.Textual) : ¬s.Shadow k := fun ⟨up, n, hn, _, hs⟩ => h up n hs hn

theorem standing_or_shadow {n : RawText} (h : s.standing? (k ++ [.name n]) ≠ none) :
    s.standing? (k ++ [.name n.shown]) ≠ none ∨ s.Shadow (k ++ [.name n.shown]) := by
  cases ht : n.text? with
  | none => exact .inr ⟨k, n, ht, rfl, h⟩
  | some t =>
    obtain rfl := RawText.text?_eq_some_iff.1 ht
    rw [RawText.shown_ofString]
    exact .inl h

theorem Textual.of_standing (h : s.Textual)
    (hs : ∀ k, s'.standing? k ≠ none → s.standing? k ≠ none) :
    s'.Textual := fun up n hk => h up n (hs _ hk)

theorem Shadow.of_standing (h : s.Shadow k)
    (hs : ∀ k, s.standing? k ≠ none → s'.standing? k ≠ none) :
    s'.Shadow k := by
  obtain ⟨up, n, hn, hk, hthere⟩ := h
  exact ⟨up, n, hn, hk, hs _ hthere⟩

theorem Textual.inserted (h : s.Textual) {path : Path} (hp : path.Titled)
    (kind : ObjectKind) (owner : String) (contents : Contents) :
    (s.insertObject path.place kind owner contents).Textual := fun up n hk => by
  rw [standing?_insertObject] at hk
  split at hk
  · next he => exact hp.text_of_eq he
  · exact h up n hk

theorem Textual.removed (h : s.Textual) (place : Place) : (s.removed place).Textual :=
  h.of_standing fun k hk => by
    rw [standing?_removed] at hk
    split at hk
    · exact absurd rfl hk
    · exact hk

theorem Shadow.removed (h : s.Shadow k) {path : Path} (hp : path.Titled) :
    (s.removed path.place).Shadow k := by
  obtain ⟨up, n, hn, hk, hthere⟩ := h
  refine ⟨up, n, hn, hk, ?_⟩
  rwa [standing?_removed, if_neg fun he => hp.text_of_eq he hn]

section Renamed
variable {source target : Path}

theorem Textual.renamed (h : s.Textual) (hs : s.Rooted) (hm : s.Movable source.place target.place)
    (ht : target.Titled) : (s.renamed source.place target.place).Textual := fun up n hk => by
  by_cases hbelow : target.place <+: up ++ [.name n]
  · rcases List.prefix_concat_iff.1 hbelow with he | ⟨r, rfl⟩
    · exact ht.text_of_eq he.symm
    · rw [List.append_assoc, hm.standing?_renamed_target hs, ← List.append_assoc] at hk
      exact h _ n hk
  · rw [hm.standing?_renamed_else hs hbelow] at hk
    split at hk
    · exact absurd rfl hk
    · exact h up n hk

theorem Shadow.moved (h : s.Shadow k) (hs : s.Rooted) (hm : s.Movable source.place target.place)
    (hbelow : source.place <+: k) (hk : k ≠ source.place) :
    (s.renamed source.place target.place).Shadow (Place.moved source.place target.place k) := by
  obtain ⟨up, n, hn, rfl, hthere⟩ := h
  obtain ⟨r, rfl⟩ := (List.prefix_concat_iff.1 hbelow).resolve_left fun he => hk he.symm
  refine ⟨target.place ++ r, n, hn, ?_, ?_⟩
  · rw [List.append_assoc, Place.moved_append, List.append_assoc]
  · rwa [List.append_assoc, hm.standing?_renamed_target hs, ← List.append_assoc]

theorem Shadow.renamed (h : s.Shadow k) (hs : s.Rooted) (hm : s.Movable source.place target.place)
    (hsource : source.Titled) (htarget : target.Titled) (hks : ¬source.place <+: k)
    (hkt : ¬target.place <+: k) :
    (s.renamed source.place target.place).Shadow k := by
  obtain ⟨up, n, hn, rfl, hthere⟩ := h
  have houtside : ∀ {p : Path}, p.Titled → ¬p.place <+: up ++ [.name n.shown] →
      ¬p.place <+: up ++ [.name n] :=
    fun hp hout hin =>
        (List.prefix_concat_iff.1 hin).elim (fun he => hp.text_of_eq he.symm hn) fun hup =>
      hout (hup.trans (List.prefix_append ..))
  refine ⟨up, n, hn, rfl, ?_⟩
  rwa [hm.standing?_renamed_else hs (houtside htarget hkt), if_neg (houtside hsource hks)]

end Renamed
end Store
end StoreMount
