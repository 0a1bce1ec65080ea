import Mathlib.Tactic.Common
import StoreMount.Proofs.Toml.Text
import StoreMount.Text.Decimal
import StoreMount.Toml.Document

/-!
# Numbers and truth values are read back as they were written

A number that fits is read from the digits it is written with: they are all digits, there is no zero
too many before them, and they stand for the number. A scalar ends where a line does.
-/
namespace StoreMount

open Text.Decimal (digit? digitChar render)

namespace Toml.Scalar

/-! ## Digits -/

theorem digit?_eq_some {c : Char} {d : Nat} (h : digit? c = some d) :
    decimal c = true ∧ digitValue? 10 c = some d := by
  simp only [digit?, Option.ite_none_right_eq_some, Option.some.injEq] at h
  obtain ⟨⟨hlow, hhigh⟩, rfl⟩ := h
  have hdigit : decimal c = true := by simp [decimal, hlow, hhigh]
  have hsmall : c.toNat - 48 < 10 := by
    have : c.toNat ≤ 57 := hhigh
    omega
  exact ⟨hdigit, by simp [digitValue?, hdigit, hsmall]⟩

theorem decimal_digitChar (n : Nat) : decimal (digitChar n) = true :=
  (digit?_eq_some (Text.Decimal.digit?_digitChar n)).1

theorem digitValue?_digitChar (n : Nat) : digitValue? 10 (digitChar n) = some (n % 10) :=
  (digit?_eq_some (Text.Decimal.digit?_digitChar n)).2

theorem decimal_of_mem_render {n : Nat} {c : Char} (h : c ∈ render n) : decimal c = true := by
  induction n using Text.Decimal.render.induct with
  | case1 n hsmall =>
    rw [render, if_pos hsmall, List.mem_singleton] at h
    exact h ▸ decimal_digitChar n
  | case2 n hlarge ih =>
    rw [render, if_neg hlarge, List.mem_append, List.mem_singleton] at h
    exact h.elim ih fun h => h ▸ decimal_digitChar n

theorem digits?_append_digit {flag : Bool} {cs : List Char} {ds : List Nat} {c : Char} {d : Nat}
    (hbefore : digits? 10 flag cs = some ds) (hdigit : decimal c = true)
    (hlast : digitValue? 10 c = some d) :
    digits? 10 flag (cs ++ [c]) = some (ds ++ [d]) := by
  have hbar : c ≠ '_' := Text.ne_of_class hdigit rfl
  induction cs generalizing flag ds with
  | nil =>
    obtain ⟨rfl, rfl⟩ : flag = true ∧ ds = [] := by simpa [digits?, eq_comm] using hbefore
    simp [digits?, hbar, hlast]
  | cons x cs ih =>
    simp only [List.cons_append, digits?] at hbefore ⊢
    split_ifs at hbefore ⊢ with hunder
    · exact ih hbefore
    · obtain ⟨v, hvalue, hbefore⟩ := Option.bind_eq_some_iff.1 hbefore
      obtain ⟨rest, hfollowing, rfl⟩ := Option.map_eq_some_iff.1 hbefore
      simp [hvalue, ih hfollowing]

theorem digits?_render (n : Nat) :
    ∃ ds, digits? 10 false (render n) = some ds ∧ valueOf 10 ds = n := by
  induction n using Text.Decimal.render.induct with
  | case1 n hsmall =>
    have hbar : digitChar n ≠ '_' := Text.ne_of_class (decimal_digitChar n) rfl
    refine ⟨[n], ?_, by simp [valueOf]⟩
    rw [render, if_pos hsmall]
    simp [digits?, hbar, digitValue?_digitChar, Nat.mod_eq_of_lt hsmall]
  | case2 n hlarge ih =>
    obtain ⟨ds, hread, hvalue⟩ := ih
    rw [render, if_neg hlarge]
    refine ⟨_, digits?_append_digit hread (decimal_digitChar n) (digitValue?_digitChar n), ?_⟩
    simp only [valueOf, List.foldl_append, List.foldl_cons, List.foldl_nil] at hvalue ⊢
    omega

theorem head_render_ne_zero {n : Nat} (h : n ≠ 0) : (render n).head? ≠ some '0' := by
  induction n using Text.Decimal.render.induct with
  | case1 n hsmall =>
    have hvalue := Text.Decimal.digit?_digitChar n
    rw [render, if_pos hsmall, List.head?_cons]
    intro hzero
    rw [Option.some.inj hzero, Nat.mod_eq_of_lt hsmall] at hvalue
    exact h (Option.some.inj hvalue).symm
  | case2 n hlarge ih =>
    rw [render, if_neg hlarge]
    cases hfront : render (n / 10) with
    | nil => exact absurd hfront (Text.Decimal.render_ne_nil _)
    | cons c cs =>
      have ih := ih (by omega)
      rwa [hfront] at ih

theorem render_ne_zero_cons (n : Nat) (c : Char) (cs : List Char) : render n ≠ '0' :: c :: cs := by
  intro hwritten
  obtain rfl : n = 0 := by
    by_contra hpositive
    exact head_render_ne_zero hpositive (by rw [hwritten, List.head?_cons])
  simp [render] at hwritten

theorem wholeDigits?_render (n : Nat) : wholeDigits? (render n) = digits? 10 false (render n) := by
  unfold wholeDigits?
  split
  · next hwritten => exact absurd hwritten (render_ne_zero_cons n _ _)
  · rfl

theorem splitSign_render (n : Nat) : splitSign (render n) = (false, render n) := by
  unfold splitSign
  split
  · next hwritten =>
      exact absurd (decimal_of_mem_render (hwritten ▸ List.mem_cons_self)) (by decide)
  · next hwritten =>
      exact absurd (decimal_of_mem_render (hwritten ▸ List.mem_cons_self)) (by decide)
  · rfl

theorem fits_natCast {n : Nat} (h : n < Word.signedBound64) : fits n = some (n : Int) := by
  have hlow : -(Word.signedBound64 : Int) ≤ n :=
    Int.le_trans (Int.neg_nonpos_of_nonneg (Int.natCast_nonneg _)) (Int.natCast_nonneg n)
  exact if_pos ⟨hlow, Int.ofNat_lt.2 h⟩

theorem integer?_render {n : Nat} (h : n < Word.signedBound64) :
    integer? (render n) = some (n : Int) := by
  obtain ⟨ds, hread, hvalue⟩ := digits?_render n
  unfold integer?
  split
  · next hwritten => exact absurd hwritten (render_ne_zero_cons n _ _)
  · next hwritten => exact absurd hwritten (render_ne_zero_cons n _ _)
  · next hwritten => exact absurd hwritten (render_ne_zero_cons n _ _)
  · rw [splitSign_render]
    dsimp only
    rw [wholeDigits?_render, hread, Option.bind_some, hvalue]
    exact fits_natCast h

/-! ## Words -/

theorem ofWord?_render {n : Nat} (h : n < Word.signedBound64) :
    ofWord? (render n) = some (.integer n) := by
  have hdigits (letter : Char) (cs : List Char) (hother : decimal letter = false) : render n ≠
      letter :: cs :=
    fun hwritten =>
      Text.ne_of_class (decimal_of_mem_render (hwritten ▸ List.mem_cons_self)) hother rfl
  have htrue : render n ≠ "true".toList := hdigits 't' _ rfl
  have hfalse : render n ≠ "false".toList := hdigits 'f' _ rfl
  rw [ofWord?, if_neg htrue, if_neg hfalse, integer?_render h]

theorem ofWord?_flag (b : Bool) :
    ofWord? (if b then "true" else "false").toList = some (.boolean b) := by
  cases b <;> rfl

end Toml.Scalar

namespace Toml

theorem wordChar_of_decimal {c : Char} (h : Scalar.decimal c = true) : wordChar c = true := by
  simp [wordChar, bareKeyChar, h]

theorem scalar_word {word : List Char} (h : ∀ c ∈ word, wordChar c = true) (rest : List Char) :
    scalar (word ++ '\n' :: rest) = (Scalar.ofWord? word).map (·, '\n' :: rest) := by
  have hstop : ∀ c ∈ ('\n' :: rest).head?, wordChar c = false := by
    simp [wordChar, bareKeyChar, Scalar.decimal]
  have htaken := Text.takeWhile_word h hstop
  have hleft := Text.dropWhile_word h hstop
  simp only [scalar, htaken, hleft]
  split
  · next _ hblank => cases hblank
  · rfl

theorem value_word {word : List Char} {v : Value} (h : ∀ c ∈ word, wordChar c = true)
    (hread : Scalar.ofWord? word = some v) (depth : Nat) (rest : List Char) :
    value depth (word ++ '\n' :: rest) = some (v, '\n' :: rest) := by
  cases word with
  | nil => cases hread
  | cons c word =>
    have hfirst := h c List.mem_cons_self
    rw [List.cons_append, value]
    · rw [← List.cons_append, scalar_word h, hread, Option.map_some]
    all_goals exact fun _ hsame => Text.ne_of_class hfirst rfl (List.cons.inj hsame).1

/-- The opening quote of a string is all that decides how it is read. -/
theorem write_head (s : List Char) :
    (∃ cs, Text.write s = '"' :: cs) ∨ ∃ cs, Text.write s = '\'' :: cs := by
  unfold Text.write
  simp only
  split_ifs
  all_goals simp

theorem value_text (s : List Char) (depth : Nat) (rest : List Char) :
    value depth (Text.write s ++ '\n' :: rest) =
      some (.string (String.ofList s), '\n' :: rest) := by
  have hread : Text.read (Text.write s ++ '\n' :: rest) = some (s, '\n' :: rest) :=
    Text.read_write s (by simp) (by simp)
  obtain ⟨cs, hwritten⟩ | ⟨cs, hwritten⟩ := write_head s
  all_goals
    rw [hwritten] at hread ⊢
    rw [List.cons_append] at hread ⊢
    rw [value, hread, Option.map_some]

end Toml

end StoreMount
