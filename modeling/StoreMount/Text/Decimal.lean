import StoreMount.Word

/-!
# Decimal numbers

Numbers are written with the fewest digits and no sign. Reading takes an optional plus sign and any
number of leading zeros, and refuses everything else, a number at or past the bound included.
-/
namespace StoreMount.Text.Decimal

def digit? (c : Char) : Option Nat :=
  if '0' ≤ c ∧ c ≤ '9' then some (c.toNat - '0'.toNat) else none

def digitChar (n : Nat) : Char := Char.ofNat ('0'.toNat + n % 10)

def render (n : Nat) : List Char :=
  if n < 10 then [digitChar n] else render (n / 10) ++ [digitChar n]

def value? : Nat → List Char → Option Nat
  | acc, [] => some acc
  | acc, c :: cs =>
    match digit? c with
    | none => none
    | some d => value? (10 * acc + d) cs

def unsigned? : List Char → Option Nat
  | [] => none
  | c :: cs => value? 0 (c :: cs)

def read? (bound : Nat) (cs : List Char) : Option Nat :=
  let body := match cs with
    | '+' :: rest => unsigned? rest
    | _ => unsigned? cs
  body.filter fun n => decide (n < bound)

def read32? (text : String) : Option UInt32 := (read? Word.bound32 text.toList).map UInt32.ofNat

def render32 (n : UInt32) : String := String.ofList (render n.toNat)

theorem digit?_digitChar (n : Nat) : digit? (digitChar n) = some (n % 10) := by
  have h : n % 10 < 10 := Nat.mod_lt _ (by decide)
  unfold digitChar
  generalize n % 10 = m at h
  match m, h with
  | 0, _ | 1, _ | 2, _ | 3, _ | 4, _ | 5, _ | 6, _ | 7, _ | 8, _ | 9, _ => rfl

theorem value?_append (acc : Nat) (xs ys : List Char) :
    value? acc (xs ++ ys) = (value? acc xs).bind fun v => value? v ys := by
  induction xs generalizing acc with
  | nil => rfl
  | cons x xs ih =>
    simp only [List.cons_append, value?]
    cases digit? x with
    | none => rfl
    | some d => exact ih _

theorem value?_render (n : Nat) : value? 0 (render n) = some n := by
  induction n using render.induct with
  | case1 n h =>
    unfold render
    simp [h, value?, digit?_digitChar, Nat.mod_eq_of_lt h]
  | case2 n h ih =>
    unfold render
    simp only [h, if_false, value?_append, ih, Option.bind_some, value?, digit?_digitChar]
    congr 1
    omega

theorem render_ne_nil (n : Nat) : render n ≠ [] := by
  unfold render
  split <;> simp

theorem head_render (n : Nat) : (render n).head? ≠ some '+' := by
  induction n using render.induct with
  | case1 n h =>
    unfold render
    have hm := digit?_digitChar n
    simp only [h, if_true, List.head?_cons, ne_eq, Option.some.injEq]
    intro e
    rw [e] at hm
    simp [digit?] at hm
  | case2 n h ih =>
    unfold render
    simp only [h, if_false]
    cases hr : render (n / 10) with
    | nil => exact absurd hr (render_ne_nil _)
    | cons c cs => simpa [hr] using ih

theorem read?_render {bound n : Nat} (h : n < bound) : read? bound (render n) = some n := by
  have hv : unsigned? (render n) = some n := by
    cases hr : render n with
    | nil => exact absurd hr (render_ne_nil n)
    | cons c cs => simpa [unsigned?, hr] using value?_render n
  have hp := head_render n
  unfold read?
  split
  · next cs hcs => simp [hcs] at hp
  · simp [hv, h]

theorem read32?_render32 (n : UInt32) : read32? (render32 n) = some n := by
  have h : n.toNat < Word.bound32 := n.toNat_lt
  simp [read32?, render32, read?_render h]

end StoreMount.Text.Decimal
