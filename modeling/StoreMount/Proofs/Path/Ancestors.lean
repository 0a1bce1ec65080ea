import StoreMount.Proofs.Path
import Mathlib.Data.List.Infix

/-!
# The paths above a path

Going up from an absolute path, one parent after the other, ends at the root. What is passed on the
way are the prefixes of its place, each once and the longer before the shorter.
-/
namespace StoreMount

theorem Spelling.length_parts_le (cs : List UInt8) : (parts cs).length ≤ cs.length := by
  induction cs with
  | nil => exact Nat.le_refl 0
  | cons c cs ih =>
    rw [parts, pieces]
    rw [parts] at ih
    split
    · exact Nat.le_succ_of_le ih
    · cases hp : pieces cs with
      | nil => exact absurd hp (pieces_ne_nil cs)
      | cons p ps =>
        rw [hp] at ih
        -- one more byte makes at most one more piece name something
        have hlonger : (((c :: p) :: ps).filterMap part?).length ≤
            (ps.filterMap part?).length + 1 := by
          rw [List.filterMap_cons]
          split <;> simp
        have hshorter : (ps.filterMap part?).length ≤ ((p :: ps).filterMap part?).length := by
          rw [List.filterMap_cons]
          split <;> simp
        exact Nat.le_trans hlonger (Nat.succ_le_succ (Nat.le_trans hshorter ih))

namespace Path

theorem length_place_le (p : Path) : p.place.length ≤ p.bytes.length + 1 := by
  have hparts := Spelling.length_parts_le p.bytes
  have hlead : (Spelling.lead p.bytes).length ≤ 1 := by
    unfold Spelling.lead
    split
    · exact Nat.le_refl 1
    · split <;> simp
  rw [place, List.length_append]
  omega

theorem places_go {fuel : Nat} {p : Path} (h : p.place.length ≤ fuel + 1)
    (habs : p.place.head? = some .root) :
    (ancestors.go fuel p).reverse.map place = p.place.inits.tail := by
  induction fuel generalizing p with
  | zero =>
    obtain ⟨rest, hp⟩ := List.head?_eq_some_iff.1 habs
    obtain rfl : rest = [] := List.eq_nil_of_length_eq_zero (by simpa [hp] using h)
    simp [ancestors.go, hp]
  | succ fuel ih =>
    obtain ⟨rest, hp⟩ := List.head?_eq_some_iff.1 habs
    rcases List.eq_nil_or_concat rest with rfl | ⟨up, c, rfl⟩
    · have hnone : p.parent? = none :=
        Option.map_eq_none_iff.1 ((place_parent? p).trans (by rw [hp]; rfl))
      simp [ancestors.go, hnone, hp]
    · have hup : p.place.parent? = some (.root :: up) := by
        rw [hp, List.concat_eq_append, ← List.cons_append]
        exact Place.parent?_append_singleton (.inl (List.cons_ne_nil _ _))
      obtain ⟨q, hq, hplace⟩ := Option.map_eq_some_iff.1 ((place_parent? p).trans hup)
      have hlonger : p.place = q.place ++ [c] := by
        rw [hp, hplace, List.concat_eq_append, List.cons_append]
      have hq' :=
        ih (p := q) (by rw [hlonger, List.length_append] at h; exact Nat.le_of_succ_le_succ h)
        (by rw [hplace]; rfl)
      have hne : q.place.inits ≠ [] :=
        List.ne_nil_of_mem ((List.mem_inits [] _).2 (List.nil_prefix))
      rw [ancestors.go, hq]
      simp only [List.reverse_cons, List.map_append, hq', List.map_cons, List.map_nil]
      rw [hlonger, List.inits_append, List.tail_append_of_ne_nil hne]
      rfl

theorem places_ancestors {p : Path} (habs : p.place.head? = some .root) :
    p.ancestors.reverse.map place = p.place.inits.tail := places_go (length_place_le p) habs

end Path
end StoreMount
