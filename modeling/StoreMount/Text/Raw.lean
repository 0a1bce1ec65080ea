/-!
# Names and paths as bytes

What names and paths are made of is bytes. Most of them spell a text in UTF-8, but nothing asks them
to. What is shown of a byte string has the characters that its bytes spell, and a replacement
character for every longest part that begins a character and does not end it, or begins none.
-/
namespace StoreMount

structure RawText where
  bytes : List UInt8
deriving DecidableEq, Repr, Inhabited

namespace RawText

def ofString (s : String) : RawText := ⟨s.toList.flatMap String.utf8EncodeChar⟩

instance : Coe String RawText := ⟨ofString⟩

def replacement : Char := '\uFFFD'

/-- A character of which some bytes have been read: how many are to come after the next one, the
bounds of the next one, and what those read spell. -/
structure Begun where
  more : Nat
  least : Nat
  most : Nat
  spelled : Nat

/-- The bounds leave out characters that fewer bytes would spell, halves of pairs, and what no
character has. -/
def begin? (b : Nat) : Option Begun :=
  if 0xC2 ≤ b ∧ b ≤ 0xDF then some ⟨0, 0x80, 0xBF, b - 0xC0⟩
  else if b = 0xE0 then some ⟨1, 0xA0, 0xBF, 0⟩
  else if b = 0xED then some ⟨1, 0x80, 0x9F, 13⟩
  else if 0xE1 ≤ b ∧ b ≤ 0xEF then some ⟨1, 0x80, 0xBF, b - 0xE0⟩
  else if b = 0xF0 then some ⟨2, 0x90, 0xBF, 0⟩
  else if 0xF1 ≤ b ∧ b ≤ 0xF3 then some ⟨2, 0x80, 0xBF, b - 0xF0⟩
  else if b = 0xF4 then some ⟨2, 0x80, 0x8F, 4⟩
  else none

def Begun.spelling (c : Begun) (b : Nat) : Nat := c.spelled * 64 + b % 64

def start (b : Nat) : List Char × Option Begun :=
  if b < 0x80 then ([Char.ofNat b], none)
  else match begin? b with
    | some c => ([], some c)
    | none => ([replacement], none)

def step : Option Begun → Nat → List Char × Option Begun
  | none, b => start b
  | some c, b =>
    if c.least ≤ b ∧ b ≤ c.most then
      match c.more with
      | 0 => ([Char.ofNat (c.spelling b)], none)
      | n + 1 => ([], some ⟨n, 0x80, 0xBF, c.spelling b⟩)
    else (replacement :: (start b).1, (start b).2)

def decode : Option Begun → List UInt8 → List Char
  | none, [] => []
  | some _, [] => [replacement]
  | begun, b :: bs => (step begun b.toNat).1 ++ decode (step begun b.toNat).2 bs

def shown (t : RawText) : String := String.ofList (decode none t.bytes)

def text? (t : RawText) : Option String := if ofString t.shown = t then some t.shown else none

end RawText
end StoreMount
