import StoreMount.Text.Raw

/-!
# Paths of the store

A path is the row of bytes it was written with, and two rows name the same place when their
component lists agree: repeated slashes, a trailing slash and dots between slashes do not count,
except for the dot that starts a relative path. A double dot is a component like any other and is
never resolved, and the leading slash is a component of its own. The spelling is kept because
answers show it.

The main statements: the parts of two rows joined by a slash are the parts of the one followed by
the parts of the other (`Spelling.parts_append_slash`), so a name put below a path adds one
component, and taking the parent of a path drops one.
-/
namespace StoreMount

inductive Component
  | root
  | here
  | up
  | name (raw : RawText)
deriving DecidableEq, Repr, Inhabited

def Component.rank : Component → Nat
  | .root => 0
  | .here => 1
  | .up => 2
  | .name _ => 3

/-- Components compare by kind first; names compare byte by byte. -/
def Component.before : Component → Component → Bool
  | .name a, .name b => decide (a.bytes < b.bytes)
  | a, b => decide (a.rank < b.rank)

/-- A list of components is what two spellings of one path share. -/
abbrev Place := List Component

def Place.atMost : Place → Place → Bool
  | [], _ => true
  | _ :: _, [] => false
  | a :: as, b :: bs => if a = b then Place.atMost as bs else a.before b

namespace Place

def parent? : Place → Option Place
  | [] => none
  | [.root] => none
  | p => some p.dropLast

def name? : Place → Option RawText
  | [] => none
  | [.name n] => some n
  | [_] => none
  | _ :: b :: rest => name? (b :: rest)

def moved (source target p : Place) : Place := target ++ p.drop source.length

end Place

namespace Spelling

def separator : UInt8 := 0x2F
def dot : UInt8 := 0x2E

def pieces : List UInt8 → List (List UInt8)
  | [] => [[]]
  | c :: cs =>
    if c = separator then [] :: pieces cs
    else match pieces cs with
      | [] => [[c]]
      | p :: ps => (c :: p) :: ps

def unpieces : List (List UInt8) → List UInt8
  | [] => []
  | [p] => p
  | p :: q :: ps => p ++ separator :: unpieces (q :: ps)

def blank (piece : List UInt8) : Bool := decide (piece = [] ∨ piece = [dot])

def part? (piece : List UInt8) : Option Component :=
  if blank piece then none else if piece = [dot, dot] then some .up else some (.name ⟨piece⟩)

def parts (cs : List UInt8) : Place := (pieces cs).filterMap part?

def lead (cs : List UInt8) : Place :=
  if cs.head? = some separator then [.root]
  else if (pieces cs).head? = some [dot] then [.here]
  else []

def trimStart (ps : List (List UInt8)) : List (List UInt8) := ps.dropWhile blank
def trimEnd (ps : List (List UInt8)) : List (List UInt8) := (ps.reverse.dropWhile blank).reverse

def dropLast (ps : List (List UInt8)) : List (List UInt8) := trimEnd (trimEnd ps).dropLast

def dropParts : Nat → List (List UInt8) → List (List UInt8)
  | 0, ps => ps
  | n + 1, ps => dropParts n (trimStart ps).tail

theorem pieces_ne_nil (cs : List UInt8) : pieces cs ≠ [] := by
  cases cs with
  | nil => simp [pieces]
  | cons c cs =>
    simp only [pieces]
    split
    · simp
    · split <;> simp

theorem pieces_append_slash (a b : List UInt8) :
    pieces (a ++ separator :: b) = pieces a ++ pieces b := by
  induction a with
  | nil => simp [pieces]
  | cons c a ih =>
    by_cases hc : c = separator
    · simp [pieces, hc, ih]
    · simp only [List.cons_append, pieces, hc, if_false, ih]
      cases h : pieces a with
      | nil => exact absurd h (pieces_ne_nil a)
      | cons p ps => simp

theorem pieces_of_plain {cs : List UInt8} (h : separator ∉ cs) : pieces cs = [cs] := by
  induction cs with
  | nil => rfl
  | cons c cs ih =>
    have hc : c ≠ separator := fun e => h (by simp [e])
    have ht : separator ∉ cs := fun e => h (by simp [e])
    simp [pieces, hc, ih ht]

theorem parts_append_slash (a b : List UInt8) :
    parts (a ++ separator :: b) = parts a ++ parts b := by
  simp [parts, pieces_append_slash]

theorem part?_of_blank {p : List UInt8} (h : blank p = true) : part? p = none := if_pos h

theorem part?_eq_none_iff {p : List UInt8} : part? p = none ↔ blank p = true := by
  constructor
  · intro h
    unfold part? at h
    split at h
    · assumption
    · split at h <;> cases h
  · exact part?_of_blank

end Spelling

structure Path where
  raw : RawText
deriving DecidableEq, Repr, Inhabited

namespace Path
open Spelling

def bytes (p : Path) : List UInt8 := p.raw.bytes

def ofBytes (bs : List UInt8) : Path := ⟨⟨bs⟩⟩

def text (p : Path) : String := p.raw.shown

/-- Where the path points; paths with equal places are the same key everywhere. -/
def place (p : Path) : Place := lead p.bytes ++ parts p.bytes

def absolute (p : Path) : Bool := decide (p.bytes.head? = some separator)

def dotted (p : Path) : Bool := decide ((pieces p.bytes).head? = some [dot])

def empty : Path := ⟨""⟩
def slash : Path := ⟨"/"⟩

/-- Whether the other path is the same place or lies below the base. -/
def within (p base : Path) : Bool := base.place.isPrefixOf p.place

def strictlyWithin (p base : Path) : Bool := p.within base && decide (p.place ≠ base.place)

/-- Put a path below another one: an absolute path replaces the base. -/
def join (base rest : Path) : Path :=
  if rest.absolute then rest
  else if base.bytes = [] ∨ base.bytes.getLast? =
    some separator then ofBytes (base.bytes ++ rest.bytes)
  else ofBytes (base.bytes ++ separator :: rest.bytes)

def child (base : Path) (name : String) : Path := base.join ⟨name⟩

def parent? (p : Path) : Option Path :=
  if p.absolute then
    let ps := pieces p.bytes.tail
    if parts p.bytes.tail = [] then none else some (ofBytes (separator :: unpieces (dropLast ps)))
  else if p.dotted then
    let ps := (pieces p.bytes).tail
    if ps.all blank then some empty else some (ofBytes (unpieces ([dot] :: dropLast ps)))
  else
    let ps := pieces p.bytes
    if parts p.bytes = [] then none else some (ofBytes (unpieces (dropLast ps)))

def ofPiecesAfter (n : Nat) (ps : List (List UInt8)) : Path :=
  ofBytes (unpieces (trimEnd (trimStart (dropParts n ps))))

def textAfter (n : Nat) (p : Path) : Path :=
  if p.absolute then
    let ps := pieces p.bytes.tail
    if n = 0 then ofBytes (separator :: unpieces (trimEnd ps)) else ofPiecesAfter (n - 1) ps
  else if p.dotted then
    let ps := (pieces p.bytes).tail
    if n = 0 then ofBytes (unpieces ([dot] :: trimEnd ps)) else ofPiecesAfter (n - 1) ps
  else
    let ps := pieces p.bytes
    if n = 0 then ofBytes (unpieces (trimEnd ps)) else ofPiecesAfter n ps

def below? (p base : Path) : Option Path :=
  if p.within base then some (p.textAfter base.place.length) else none

/-- The path after what stood at or below `source` moved to `target`. -/
def rebase (p source target : Path) : Path :=
  match p.below? source with
  | none => p
  | some rest => if rest.bytes = [] then target else target.join rest

def ancestors (p : Path) : List Path := go p.bytes.length p
where
  go : Nat → Path → List Path
    | 0, q => [q]
    | fuel + 1, q =>
      match q.parent? with
      | none => [q]
      | some r => q :: go fuel r

theorem place_slash : slash.place = [.root] := by decide +kernel
theorem place_empty : empty.place = [] := by decide +kernel

end Path
end StoreMount
