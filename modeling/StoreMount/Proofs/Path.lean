import StoreMount.Path
import StoreMount.Proofs.RawText
import Mathlib.Tactic.Common

/-!
# Places of paths that are built from other paths

Every path operation cuts or joins texts, but all that the store and the registry see of a path is
its place. Here each operation is described by what it does to places: the parent of a path is at
the parent place, a child with a plain name is one component further down, and a path that is
rebased has its leading components replaced. The two awkward spellings, a text that starts with a
slash and one that starts with a dot, are dealt with once and do not appear outside this module.
-/
namespace StoreMount
namespace Spelling

def SlashFree (ps : List (List UInt8)) : Prop := ∀ p ∈ ps, separator ∉ p

/-- A name that is one ordinary component, as names of listings and of requests are. -/
def Plain (name : RawText) : Prop := part? name.bytes = some (.name name) ∧ separator ∉ name.bytes

theorem plain_iff {name : RawText} :
    Plain name ↔ name.bytes ≠ [] ∧ name.bytes ≠ [dot] ∧ name.bytes ≠ [dot, dot] ∧
      separator ∉ name.bytes := by
  rw [Plain, part?]
  by_cases hb : blank name.bytes = true
  · have hdot : name.bytes = [] ∨ name.bytes = [dot] := of_decide_eq_true hb
    rw [if_pos hb]
    exact ⟨fun h => absurd h.1 (by simp), fun h => (hdot.elim h.1 h.2.1).elim⟩
  · have hdot : ¬(name.bytes = [] ∨ name.bytes = [dot]) := fun h => hb (decide_eq_true h)
    rw [not_or] at hdot
    rw [if_neg hb]
    by_cases hup : name.bytes = [dot, dot]
    · rw [if_pos hup]
      exact ⟨fun h => absurd h.1 (by simp), fun h => absurd hup h.2.2.1⟩
    · rw [if_neg hup]
      exact ⟨fun h => ⟨hdot.1, hdot.2, hup, h.2⟩, fun h => ⟨rfl, h.2.2.2⟩⟩

open RawText (ofString) in
theorem plain_of_ordinary {name : String}
    (h : ¬(name = "" ∨ name = "." ∨ name = ".." ∨ name.toList.contains '/')) :
    Plain name := by
  simp only [not_or, List.contains_iff_mem] at h
  obtain ⟨hempty, hdot, hup, hslash⟩ := h
  have hne : ∀ t : String, name ≠ t → (ofString name).bytes ≠ (ofString t).bytes := fun t ht he =>
    ht (RawText.ofString_inj.1 (congrArg RawText.mk he))
  refine plain_iff.2 ⟨hne "" hempty, hne "." hdot, hne ".." hup, fun hmem => hslash ?_⟩
  exact RawText.mem_toList_of_mem_ofString hmem (by decide)

theorem Plain.shown {name : RawText} (h : Plain name) : Plain name.shown := by
  obtain ⟨hempty, hdot, hup, hslash⟩ := plain_iff.1 h
  refine plain_of_ordinary ?_
  rw [List.contains_iff_mem]
  have hne : ∀ t : String, t.toList.all (·.toNat < 128) → name.shown = t → name = t := by
    intro t ht he
    rw [← he, RawText.ofString_shown_of_narrow]
    exact he ▸ fun ch hch => of_decide_eq_true (List.all_eq_true.1 ht ch hch)
  rintro (he | he | he | hmem)
  · exact hempty (congrArg RawText.bytes (hne "" rfl he))
  · exact hdot (congrArg RawText.bytes (hne "." rfl he))
  · exact hup (congrArg RawText.bytes (hne ".." rfl he))
  · exact hslash (RawText.mem_bytes_of_mem_shown hmem (by decide))

theorem slashFree_pieces (cs : List UInt8) : SlashFree (pieces cs) := by
  induction cs with
  | nil => simp [SlashFree, pieces]
  | cons c cs ih =>
    intro p hp
    simp only [pieces] at hp
    split at hp
    · rcases List.mem_cons.1 hp with rfl | hp
      · simp
      · exact ih p hp
    · next hc =>
      split at hp
      · obtain rfl := List.mem_singleton.1 hp
        simpa using Ne.symm hc
      · next q qs hq =>
        rcases List.mem_cons.1 hp with rfl | hp
        · have := ih q (hq ▸ List.mem_cons_self)
          simp [this, Ne.symm hc]
        · exact ih p (hq ▸ List.mem_cons_of_mem _ hp)

theorem SlashFree.mono {ps qs : List (List UInt8)} (h : SlashFree qs) (hs : ps ⊆ qs) :
    SlashFree ps :=
  fun p hp => h p (hs hp)

theorem pieces_unpieces {ps : List (List UInt8)} (hne : ps ≠ []) (h : SlashFree ps) :
    pieces (unpieces ps) = ps := by
  induction ps with
  | nil => exact absurd rfl hne
  | cons p ps ih =>
    have hp := pieces_of_plain (h p List.mem_cons_self)
    cases ps with
    | nil => simpa [unpieces] using hp
    | cons q ps =>
      rw [unpieces, pieces_append_slash, hp, ih (by simp) (h.mono (List.subset_cons_self ..))]
      rfl

theorem parts_unpieces {ps : List (List UInt8)} (h : SlashFree ps) :
    parts (unpieces ps) = ps.filterMap part? := by
  cases ps with
  | nil => rfl
  | cons p ps => rw [parts, pieces_unpieces (by simp) h]

theorem part?_ne_lead {p : List UInt8} {c : Component} (h : part? p = some c) :
    c ≠ .root ∧ c ≠ .here := by
  unfold part? at h
  split at h
  · cases h
  split at h
  all_goals
    obtain rfl := Option.some.inj h
    exact ⟨by simp, by simp⟩

theorem mem_parts {cs : List UInt8} {c : Component} (h : c ∈ parts cs) : c ≠ .root ∧ c ≠ .here := by
  obtain ⟨p, -, hp⟩ := List.mem_filterMap.1 h
  exact part?_ne_lead hp

theorem eq_of_part?_eq_name {p : List UInt8} {n : RawText}
    (h : part? p = some (.name n)) : n = ⟨p⟩ := by
  unfold part? at h
  split at h
  · cases h
  split at h <;> simp_all

theorem plain_of_mem_parts {cs : List UInt8} {n : RawText} (h : .name n ∈ parts cs) : Plain n := by
  obtain ⟨p, hp, hpart⟩ := List.mem_filterMap.1 h
  obtain rfl := eq_of_part?_eq_name hpart
  exact ⟨hpart, slashFree_pieces cs p hp⟩

/-! ## Cutting pieces -/

theorem filterMap_trimStart (ps : List (List UInt8)) :
    (trimStart ps).filterMap part? = ps.filterMap part? := by
  induction ps with
  | nil => rfl
  | cons p ps ih =>
    cases hb : blank p with
    | true => simpa [trimStart, hb, part?_of_blank hb] using ih
    | false => simp [trimStart, hb]

theorem filterMap_trimEnd (ps : List (List UInt8)) :
    (trimEnd ps).filterMap part? = ps.filterMap part? := by
  have h := congrArg List.reverse (filterMap_trimStart ps.reverse)
  simpa [trimStart, trimEnd, List.filterMap_reverse] using h

theorem blank_of_getLast?_trimEnd {ps : List (List UInt8)} {p : List UInt8}
    (h : (trimEnd ps).getLast? = some p) : blank p = false := by
  rw [trimEnd, List.getLast?_reverse] at h
  have := List.head?_dropWhile_not blank ps.reverse
  rw [h] at this
  simpa using this

theorem filterMap_dropLast (ps : List (List UInt8)) :
    (dropLast ps).filterMap part? = (ps.filterMap part?).dropLast := by
  rw [dropLast, filterMap_trimEnd, ← filterMap_trimEnd ps]
  rcases List.eq_nil_or_concat (trimEnd ps) with h | ⟨qs, q, h⟩
  · simp [h]
  · have hlast : (trimEnd ps).getLast? = some q := by simp [h]
    have hq : blank q = false := blank_of_getLast?_trimEnd hlast
    obtain ⟨c, hc⟩ : ∃ c, part? q = some c := by
      cases hp : part? q with
      | none => simp [part?_eq_none_iff.1 hp] at hq
      | some c => exact ⟨c, rfl⟩
    simp [h, List.filterMap_append, hc]

theorem filterMap_dropParts (n : Nat) (ps : List (List UInt8)) :
    (dropParts n ps).filterMap part? = (ps.filterMap part?).drop n := by
  induction n generalizing ps with
  | zero => rfl
  | succ n ih =>
    rw [dropParts, ih, ← filterMap_trimStart ps]
    cases h : trimStart ps with
    | nil => simp
    | cons p qs =>
      have hp : blank p = false := by
        have := List.head?_dropWhile_not blank ps
        rw [← trimStart, h] at this
        simpa using this
      cases hpart : part? p with
      | none => simp [part?_eq_none_iff.1 hpart] at hp
      | some c => simp [hpart]

theorem trimStart_subset (ps : List (List UInt8)) : trimStart ps ⊆ ps := List.dropWhile_subset _

theorem trimEnd_subset (ps : List (List UInt8)) : trimEnd ps ⊆ ps := fun p hp => by
  simpa using List.dropWhile_subset _ (List.mem_reverse.1 hp)

theorem dropLast_subset (ps : List (List UInt8)) : dropLast ps ⊆ ps :=
  List.Subset.trans (trimEnd_subset _)
    (List.Subset.trans (List.dropLast_subset _) (trimEnd_subset ps))

theorem dropParts_subset (n : Nat) (ps : List (List UInt8)) : dropParts n ps ⊆ ps := by
  induction n generalizing ps with
  | zero => exact List.Subset.refl _
  | succ n ih =>
    have htail := List.Subset.trans (List.tail_sublist _).subset (trimStart_subset ps)
    exact List.Subset.trans (ih _) htail

end Spelling

namespace Path
open Spelling

@[simp] theorem bytes_ofBytes (bs : List UInt8) : (ofBytes bs).bytes = bs := rfl

theorem eq_ofBytes (p : Path) : p = ofBytes p.bytes := rfl

/-! ## The three ways to start -/

theorem part?_dot : part? [dot] = none := by decide

theorem place_of_slash {p : Path} {cs : List UInt8} (h : p.bytes = separator :: cs) :
    p.place = .root :: parts cs := by
  have hp : parts (separator :: cs) = parts cs := parts_append_slash [] cs
  simp [place, h, lead, hp]

theorem bytes_of_absolute {p : Path} (h : p.absolute = true) :
    p.bytes = separator :: p.bytes.tail := by
  obtain ⟨cs, hcs⟩ := List.head?_eq_some_iff.1 (of_decide_eq_true h)
  rw [hcs, List.tail_cons]

theorem head?_of_not_absolute {p : Path} (h : ¬p.absolute = true) :
    p.bytes.head? ≠ some separator :=
  fun hs => h (decide_eq_true hs)

theorem pieces_of_dotted {p : Path} (h : p.dotted = true) :
    pieces p.bytes = [dot] :: (pieces p.bytes).tail := by
  obtain ⟨ps, hps⟩ := List.head?_eq_some_iff.1 (of_decide_eq_true h)
  rw [hps, List.tail_cons]

theorem head?_of_not_dotted {p : Path} (h : ¬p.dotted = true) :
    (pieces p.bytes).head? ≠ some [dot] :=
  fun hd => h (decide_eq_true hd)

theorem head?_of_pieces_dot {p : Path} {ps : List (List UInt8)} (h : pieces p.bytes = [dot] :: ps) :
    p.bytes.head? ≠ some separator := by
  intro hs
  cases hc : p.bytes with
  | nil => simp [hc] at hs
  | cons c cs =>
    obtain rfl : c = separator := by simpa [hc] using hs
    simp [hc, pieces] at h

theorem place_of_dot {p : Path} {ps : List (List UInt8)} (h : pieces p.bytes = [dot] :: ps) :
    p.place = .here :: ps.filterMap part? := by
  simp [place, lead, parts, h, head?_of_pieces_dot h, part?_dot]

theorem place_of_plain {p : Path} (hs : p.bytes.head? ≠ some separator)
    (hd : (pieces p.bytes).head? ≠ some [dot]) :
    p.place = parts p.bytes := by
  simp [place, lead, hs, hd]

theorem place_slash_unpieces {ps : List (List UInt8)} (h : SlashFree ps) :
    (ofBytes (separator :: unpieces ps)).place = .root :: ps.filterMap part? := by
  rw [place_of_slash (bytes_ofBytes _), parts_unpieces h]

theorem place_dot_unpieces {ps : List (List UInt8)} (h : SlashFree ps) :
    (ofBytes (unpieces ([dot] :: ps))).place = .here :: ps.filterMap part? := by
  refine place_of_dot ?_
  rw [bytes_ofBytes, pieces_unpieces (by simp)]
  intro q hq
  rcases List.mem_cons.1 hq with rfl | hq
  · decide
  · exact h q hq

theorem place_unpieces {ps : List (List UInt8)} (h : SlashFree ps)
    (hb : ∀ q, ps.head? = some q → blank q = false) :
    (ofBytes (unpieces ps)).place = ps.filterMap part? := by
  cases ps with
  | nil => decide +kernel
  | cons q ps =>
    have hp : pieces (ofBytes (unpieces (q :: ps))).bytes = q :: ps := by
      rw [bytes_ofBytes, pieces_unpieces (by simp) h]
    have hq := hb q rfl
    rw [place_of_plain, parts, hp]
    · intro hs
      cases hc : (ofBytes (unpieces (q :: ps))).bytes with
      | nil => simp [hc] at hs
      | cons c cs =>
        obtain rfl : c = separator := by simpa [hc] using hs
        rw [hc, pieces, if_pos rfl] at hp
        simp [← (List.cons.inj hp).1, blank] at hq
    · rw [hp]
      rintro ⟨⟩
      simp [blank] at hq

theorem blank_head_pieces {p : Path} (hne : p.bytes ≠ []) (hs : p.bytes.head? ≠ some separator)
    (hd : (pieces p.bytes).head? ≠ some [dot]) {q : List UInt8}
    (hq : (pieces p.bytes).head? = some q) :
    blank q = false := by
  cases hc : p.bytes with
  | nil => exact absurd hc hne
  | cons c cs =>
    have hslash : c ≠ separator := by simpa [hc] using hs
    rw [hc, pieces, if_neg hslash] at hq hd
    split at hq
    · next h => exact absurd h (pieces_ne_nil cs)
    · next r rs h =>
      rw [h] at hd
      obtain rfl := Option.some.inj hq
      refine decide_eq_false fun h => ?_
      rcases h with h | h
      · cases h
      · exact hd (congrArg some h)

theorem head?_trimEnd {ps : List (List UInt8)} {q : List UInt8} (h : (trimEnd ps).head? = some q) :
    ps.head? = some q := by
  obtain ⟨t, ht⟩ : trimEnd ps <+: ps := by
    have := List.dropWhile_suffix blank (l := ps.reverse)
    simpa [trimEnd] using List.reverse_prefix.2 this
  rw [← ht]
  cases hps : trimEnd ps with
  | nil => simp [hps] at h
  | cons a as => simpa [hps] using h

theorem head?_dropLast {ps : List (List UInt8)} {q : List UInt8}
    (h : (dropLast ps).head? = some q) :
    ps.head? = some q := by
  have h := head?_trimEnd h
  cases hps : trimEnd ps with
  | nil => simp [hps] at h
  | cons a as =>
    cases as with
    | nil => simp [hps] at h
    | cons b bs => exact head?_trimEnd (by simpa [hps] using h)

/-! ## Parents and remainders -/

theorem place_parent? (p : Path) : p.parent?.map Path.place = p.place.parent? := by
  unfold parent?
  -- the text starts with a slash, with a dot of its own, or with neither
  split
  · next ha =>
    rw [place_of_slash (bytes_of_absolute ha)]
    generalize p.bytes.tail = cs
    by_cases hp : parts cs = []
    · simp [hp, Place.parent?]
    · rw [if_neg hp, Option.map_some,
        place_slash_unpieces ((slashFree_pieces cs).mono (dropLast_subset _)), filterMap_dropLast]
      obtain ⟨c, ps, hc⟩ := List.exists_cons_of_ne_nil hp
      rw [parts] at hc
      simp [parts, hc, Place.parent?]
  · next ha =>
    have hs := head?_of_not_absolute ha
    split
    · next hdot =>
      have h := pieces_of_dotted hdot
      have hfree : SlashFree (pieces p.bytes).tail :=
        (slashFree_pieces p.bytes).mono ((List.tail_sublist _).subset)
      rw [place_of_dot h]
      generalize (pieces p.bytes).tail = rest at hfree
      by_cases hb : rest.all blank = true
      · have hn : rest.filterMap part? = [] := List.filterMap_eq_nil_iff.2 fun q hq =>
          part?_of_blank (List.all_eq_true.1 hb q hq)
        rw [if_pos hb, Option.map_some, place_empty, hn]
        rfl
      · have hn : rest.filterMap part? ≠ [] := fun hn => hb (List.all_eq_true.2 fun q hq =>
          part?_eq_none_iff.1 (List.filterMap_eq_nil_iff.1 hn q hq))
        rw [if_neg hb, Option.map_some, place_dot_unpieces (hfree.mono (dropLast_subset _)),
          filterMap_dropLast]
        obtain ⟨c, ps, hc⟩ := List.exists_cons_of_ne_nil hn
        simp [hc, Place.parent?]
    · next hdot =>
      have hd := head?_of_not_dotted hdot
      rw [place_of_plain hs hd]
      by_cases hp : parts p.bytes = []
      · simp [hp, Place.parent?]
      · rw [if_neg hp, Option.map_some]
        have hne : p.bytes ≠ [] := fun e => hp (by rw [e]; decide)
        rw [place_unpieces ((slashFree_pieces _).mono (dropLast_subset _))
          fun q hq => blank_head_pieces hne hs hd (head?_dropLast hq), filterMap_dropLast]
        have hroot : parts p.bytes ≠ [.root] := fun e =>
          (mem_parts (show Component.root ∈ parts p.bytes by simp [e])).1 rfl
        rw [← parts]
        unfold Place.parent?
        split <;> simp_all

theorem head?_trimStart {ps : List (List UInt8)} {q : List UInt8}
    (h : (trimStart ps).head? = some q) :
    blank q = false := by
  have := List.head?_dropWhile_not blank ps
  rw [← trimStart, h] at this
  simpa using this

theorem place_ofPiecesAfter {ps : List (List UInt8)} (h : SlashFree ps) (n : Nat) :
    (ofPiecesAfter n ps).place = (ps.filterMap part?).drop n := by
  have hfree : SlashFree (dropParts n ps) := h.mono (dropParts_subset ..)
  have htrimmed := hfree.mono (List.Subset.trans (trimEnd_subset _) (trimStart_subset _))
  rw [ofPiecesAfter, place_unpieces htrimmed fun q hq => head?_trimStart (head?_trimEnd hq),
    filterMap_trimEnd, filterMap_trimStart, filterMap_dropParts]

theorem place_textAfter (n : Nat) (p : Path) : (p.textAfter n).place = p.place.drop n := by
  unfold textAfter
  split
  · next ha =>
    have hfree := slashFree_pieces p.bytes.tail
    rw [place_of_slash (bytes_of_absolute ha)]
    cases n with
    | zero =>
      rw [if_pos rfl, place_slash_unpieces (hfree.mono (trimEnd_subset _)), filterMap_trimEnd]; rfl
    | succ n => rw [if_neg (by simp), place_ofPiecesAfter hfree, Nat.add_sub_cancel]; rfl
  · next ha =>
    have hs := head?_of_not_absolute ha
    have hfree := slashFree_pieces p.bytes
    split
    · next hdot =>
      have hfree : SlashFree (pieces p.bytes).tail := hfree.mono ((List.tail_sublist _).subset)
      rw [place_of_dot (pieces_of_dotted hdot)]
      cases n with
      | zero =>
        rw [if_pos rfl, place_dot_unpieces (hfree.mono (trimEnd_subset _)), filterMap_trimEnd]; rfl
      | succ n => rw [if_neg (by simp), place_ofPiecesAfter hfree, Nat.add_sub_cancel]; rfl
    · next hdot =>
      have hd := head?_of_not_dotted hdot
      rw [place_of_plain hs hd]
      cases n with
      | zero =>
        rw [if_pos rfl, List.drop_zero]
        by_cases hne : p.bytes = []
        · rw [hne]
          decide +kernel
        · rw [place_unpieces (hfree.mono (trimEnd_subset _))
            fun q hq => blank_head_pieces hne hs hd (head?_trimEnd hq), filterMap_trimEnd, parts]
      | succ n => rw [if_neg (by simp), place_ofPiecesAfter hfree, parts]

/-! ## Paths below other paths -/

theorem absolute_iff {p : Path} : p.absolute = true ↔ p.place.head? = some .root := by
  rw [absolute, decide_eq_true_iff]
  constructor
  · intro h
    cases hc : p.bytes with
    | nil => simp [hc] at h
    | cons c cs =>
      obtain rfl : c = separator := by simpa [hc] using h
      rw [place_of_slash hc, List.head?_cons]
  · intro h
    by_contra hs
    by_cases hd : (pieces p.bytes).head? = some [dot]
    · obtain ⟨ps, hps⟩ : ∃ ps, pieces p.bytes = [dot] :: ps := List.head?_eq_some_iff.1 hd
      simp [place_of_dot hps] at h
    · rw [place_of_plain hs hd] at h
      exact (mem_parts (List.mem_of_mem_head? h)).1 rfl

theorem parts_bytes {p : Path} (hr : p.place.head? ≠ some .root) (hh : p.place.head? ≠ some .here) :
    p.place = parts p.bytes := by
  refine place_of_plain (fun h => hr (absolute_iff.1 (by simpa [absolute] using h))) fun h => hh ?_
  obtain ⟨ps, hps⟩ := List.head?_eq_some_iff.1 h
  rw [place_of_dot hps, List.head?_cons]

theorem lead_append_slash {a : List UInt8} (h : a ≠ []) (b : List UInt8) :
    lead (a ++ separator :: b) = lead a := by
  have hp : (pieces a ++ pieces b).head? = (pieces a).head? := by
    obtain ⟨q, qs, hq⟩ := List.exists_cons_of_ne_nil (pieces_ne_nil a)
    simp [hq]
  have hc : (a ++ separator :: b).head? = a.head? := by
    obtain ⟨c, cs, rfl⟩ := List.exists_cons_of_ne_nil h
    rfl
  simp only [lead, pieces_append_slash, hp, hc]

theorem place_append_slash {p q : Path} {a b : List UInt8} (hp : p.bytes = a) (hne : a ≠ [])
    (hq : q.bytes = a ++ separator :: b) : q.place = p.place ++ parts b := by
  rw [place, place, hp, hq, lead_append_slash hne, parts_append_slash, List.append_assoc]

theorem place_join {base rest : Path} (hr : rest.place.head? ≠ some .root)
    (hh : rest.place.head? ≠ some .here) : (base.join rest).place = base.place ++ rest.place := by
  rw [join, if_neg fun h => hr (absolute_iff.1 h), parts_bytes hr hh]
  by_cases he : base.bytes = []
  · have hb : base = empty := base.eq_ofBytes.trans (congrArg ofBytes he)
    rw [if_pos (.inl he), he, List.nil_append, hb, place_empty, ← parts_bytes hr hh]
    rfl
  · by_cases hl : base.bytes.getLast? = some separator
    · obtain ⟨a, ha⟩ := List.getLast?_eq_some_iff.1 hl
      rw [if_pos (.inr hl)]
      have hc : (ofBytes (base.bytes ++ rest.bytes)).bytes = a ++ separator :: rest.bytes := by
        rw [bytes_ofBytes, ha, List.append_assoc]
        rfl
      cases a with
      | nil => rw [place_of_slash hc, place_of_slash ha]; rfl
      | cons c cs =>
        have hnil : parts [] = [] := by decide
        rw [place_append_slash (p := ofBytes (c :: cs)) (bytes_ofBytes _) (by simp) hc,
          place_append_slash (p := ofBytes (c :: cs)) (q := base) (bytes_ofBytes _)
            (by simp) ha, hnil,
          List.append_nil]
    · rw [if_neg (by simp [he, hl])]
      exact place_append_slash rfl he rfl

theorem place_of_plainName {name : RawText} (h : Plain name) :
    (⟨name⟩ : Path).place = [.name name] := by
  have hp : pieces name.bytes = [name.bytes] := pieces_of_plain h.2
  have hr : (⟨name⟩ : Path).bytes.head? ≠ some separator := fun e => h.2 (List.mem_of_mem_head? e)
  have hd : (pieces (⟨name⟩ : Path).bytes).head? ≠ some [dot] := by
    rw [bytes, hp, List.head?_cons, ne_eq, Option.some.injEq]
    exact (plain_iff.1 h).2.1
  rw [place_of_plain hr hd, bytes, parts, hp]
  simp [h.1]

theorem place_child {name : String} (h : Plain name) (base : Path) :
    (base.child name).place = base.place ++ [.name name] := by
  have hp := place_of_plainName h
  rw [child, place_join (by simp [hp]) (by simp [hp]), hp]

theorem plain_of_mem_place {p : Path} {n : RawText} (h : .name n ∈ p.place) : Plain n := by
  rcases List.mem_append.1 h with h | h
  · unfold lead at h
    split at h
    · simp at h
    · split at h <;> simp at h
  · exact plain_of_mem_parts h

theorem within_iff {p base : Path} : p.within base = true ↔ base.place <+: p.place :=
  List.isPrefixOf_iff_prefix

theorem strictlyWithin_iff {p base : Path} :
    p.strictlyWithin base = true ↔ base.place <+: p.place ∧ p.place ≠ base.place := by
  rw [strictlyWithin, Bool.and_eq_true, within_iff, decide_eq_true_iff]

theorem place_ne_head {p : Path} {n : Nat} (h : n ≠ 0) {c : Component}
    (hc : (p.place.drop n).head? = some c) :
    c ≠ .root ∧ c ≠ .here := by
  obtain ⟨m, rfl⟩ := Nat.exists_eq_succ_of_ne_zero h
  suffices hparts : c ∈ parts p.bytes from mem_parts hparts
  have hm : c ∈ p.place.drop (m + 1) := List.mem_of_mem_head? hc
  have hl : (lead p.bytes).length ≤ m + 1 := by
    unfold lead
    split
    · simp
    · split <;> simp
  rw [place, List.drop_append, List.drop_eq_nil_of_le hl, List.nil_append] at hm
  exact List.mem_of_mem_drop hm

theorem bytes_of_place_nil {p : Path} (h : p.place = []) : p.bytes = [] := by
  by_contra hne
  have hs : p.bytes.head? ≠ some separator := fun e => by
    obtain ⟨cs, hcs⟩ := List.head?_eq_some_iff.1 e
    simp [place_of_slash hcs] at h
  have hd : (pieces p.bytes).head? ≠ some [dot] := fun e => by
    obtain ⟨ps, hps⟩ := List.head?_eq_some_iff.1 e
    simp [place_of_dot hps] at h
  obtain ⟨q, qs, hq⟩ := List.exists_cons_of_ne_nil (pieces_ne_nil p.bytes)
  have hb : blank q = false := blank_head_pieces hne hs hd (by rw [hq, List.head?_cons])
  rw [place_of_plain hs hd, parts, hq, List.filterMap_eq_nil_iff] at h
  rw [part?_eq_none_iff.1 (h q List.mem_cons_self)] at hb
  cases hb

/-- Moving what stands at or below the source replaces its leading components. The hypothesis on the
target matters for the empty source alone, below which every path stands. -/
theorem place_rebase {p source target : Path} (hp : p.within source = true)
    (ht : target.strictlyWithin source = false) :
    (p.rebase source target).place = Place.moved source.place target.place p.place := by
  have hrest := place_textAfter source.place.length p
  simp only [rebase, below?, if_pos hp]
  rw [Place.moved, ← hrest]
  by_cases he : (p.textAfter source.place.length).bytes = []
  · have hn : (p.textAfter source.place.length).place = [] := by
      rw [show p.textAfter source.place.length = empty from congrArg ofBytes he, place_empty]
    rw [if_pos he, hn, List.append_nil]
  · rw [if_neg he]
    by_cases hs : source.place = []
    · have htn : target.place = [] := by
        by_contra hne
        refine absurd (strictlyWithin_iff.2 ⟨hs ▸ List.nil_prefix, hs ▸ hne⟩) (by simp [ht])
      have ht : target.bytes = [] := bytes_of_place_nil htn
      simp only [join, ht, true_or, if_true, List.nil_append, ← eq_ofBytes, ite_self, htn]
    · have hlen : source.place.length ≠ 0 := by simpa using hs
      refine place_join (fun h => ?_) fun h => ?_
      · exact (place_ne_head hlen (hrest ▸ h)).1 rfl
      · exact (place_ne_head hlen (hrest ▸ h)).2 rfl

end Path

namespace Place

theorem parent?_eq_some {k parent : Place} (h : k.parent? = some parent) :
    ∃ c, k = parent ++ [c] := by
  unfold parent? at h
  split at h
  · cases h
  · cases h
  · next hk _ =>
    obtain rfl := Option.some.inj h
    exact ⟨_, (List.dropLast_concat_getLast hk).symm⟩

theorem parent?_append_singleton {k : Place} {c : Component} (h : k ≠ [] ∨ c ≠ .root) :
    (k ++ [c]).parent? = some k := by
  unfold parent?
  split
  · simp_all
  · next he => cases k <;> simp_all
  · simp

theorem name?_append_singleton (k : Place) (n : RawText) : name? (k ++ [.name n]) = some n := by
  induction k with
  | nil => rfl
  | cons a k ih =>
    cases k with
    | nil => simp only [List.cons_append, List.nil_append, name?]
    | cons b k => simpa only [List.cons_append, name?] using ih

theorem name?_append_other {c : Component} (h : ∀ n, c ≠ .name n) (k : Place) :
    name? (k ++ [c]) = none := by
  induction k with
  | nil => cases c <;> simp_all [name?]
  | cons a k ih =>
    cases k with
    | nil => simp [name?]
    | cons b k => simpa only [List.cons_append, name?] using ih

theorem moved_append (source target rest : Place) :
    moved source target (source ++ rest) = target ++ rest := by
  simp [moved]

theorem moved_inj {source target k k' : Place} (hk : source <+: k) (hk' : source <+: k')
    (h : moved source target k = moved source target k') : k = k' := by
  obtain ⟨r, rfl⟩ := hk
  obtain ⟨r', rfl⟩ := hk'
  rw [moved_append, moved_append] at h
  rw [List.append_cancel_left h]

end Place

/-! ## At and below -/

namespace Path

/-- At or below a path, component by component. -/
def At (top p : Path) : Prop := top.place <+: p.place

def Below (top p : Path) : Prop := top.place <+: p.place ∧ p.place ≠ top.place

variable {top p q : Path}

theorem Below.at (h : top.Below p) : top.At p := h.1

theorem below_child (h : top.At p) {name : String} (hn : Spelling.Plain name) :
    top.Below (p.child name) := by
  rw [Below, place_child hn]
  refine ⟨h.trans (List.prefix_append ..), fun he => ?_⟩
  have := he ▸ h.length_le
  rw [List.length_append, List.length_singleton] at this
  exact absurd this (Nat.not_succ_le_self _)

theorem Below.parent (h : top.Below p) (hq : p.parent? = some q) : top.At q := by
  have hplace : p.place.parent? = some q.place := by rw [← place_parent?, hq, Option.map_some]
  obtain ⟨c, hc⟩ := Place.parent?_eq_some hplace
  have hat := h.1
  rw [hc] at hat
  exact (List.prefix_concat_iff.1 hat).resolve_left fun he => h.2 (hc.trans he.symm)

theorem Below.of_prefix (h : top.Below p) (hq : p.place <+: q.place) : top.Below q := by
  refine ⟨h.1.trans hq, fun he => h.2 (List.IsPrefix.eq_of_length_le ?_ ?_)⟩
  · exact he ▸ hq
  · exact h.1.length_le

theorem Below.not_prefix (h : top.Below p) : ¬p.place <+: top.place := fun hp =>
  (h.of_prefix hp).2 rfl

end Path
end StoreMount
