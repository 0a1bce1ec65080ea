import StoreMount.Toml.Value
import StoreMount.Word

/-!
# Numbers, truth values and times of TOML

A scalar is one word. Decimal integers have no leading zeros; the other bases no sign; an underscore
stands between two digits. Integers fit 64 bits with sign, a float may not be too large for its
format, and the parts of a date or a time are in range.
-/
namespace StoreMount.Toml.Scalar

def decimal (c : Char) : Bool := decide ('0' ≤ c) && decide (c ≤ '9')

def digitValue? (base : Nat) (c : Char) : Option Nat :=
  let v? :=
    if decimal c then some (c.toNat - '0'.toNat)
    else if 'a' ≤ c ∧ c ≤ 'f' then some (c.toNat - 'a'.toNat + 10)
    else if 'A' ≤ c ∧ c ≤ 'F' then some (c.toNat - 'A'.toNat + 10)
    else none
  v?.filter fun v => decide (v < base)

def digits? (base : Nat) : Bool → List Char → Option (List Nat)
  | afterDigit, [] => if afterDigit then some [] else none
  | afterDigit, c :: cs =>
    if c = '_' then if afterDigit then digits? base false cs else none
    else (digitValue? base c).bind fun v => (digits? base true cs).map (v :: ·)

def valueOf (base : Nat) (ds : List Nat) : Nat := ds.foldl (fun n d => base * n + d) 0

def splitSign : List Char → Bool × List Char
  | '+' :: cs => (false, cs)
  | '-' :: cs => (true, cs)
  | cs => (false, cs)

def wholeDigits? (cs : List Char) : Option (List Nat) :=
  match cs with
  | '0' :: _ :: _ => none
  | _ => digits? 10 false cs

def fits (n : Int) : Option Int :=
  if -Word.signedBound64 ≤ n ∧ n < Word.signedBound64 then some n else none

def based? (base : Nat) (cs : List Char) : Option Int :=
  (digits? base false cs).bind fun ds => fits (valueOf base ds)

def integer? : List Char → Option Int
  | '0' :: 'x' :: cs => based? 16 cs
  | '0' :: 'o' :: cs => based? 8 cs
  | '0' :: 'b' :: cs => based? 2 cs
  | cs =>
    let (negative, body) := splitSign cs
    (wholeDigits? body).bind fun ds =>
      fits (if negative then -(valueOf 10 ds : Int) else valueOf 10 ds)

def cut (stop : Char → Bool) (cs : List Char) : List Char × List Char :=
  (cs.takeWhile fun c => !stop c, cs.dropWhile fun c => !stop c)

def floatBound : Nat := Nat.pow 2 1024 - Nat.pow 2 970

/-- Whether a decimal number is rounded past the largest finite float of 64 bits. -/
def overflows (mantissa : Nat) (exponent : Int) : Bool :=
  if mantissa = 0 then false
  else
    let size := (Nat.toDigits 10 mantissa).length
    if exponent + size > 310 then true
    else if exponent + size < 300 then false
    else if 0 ≤ exponent then decide (floatBound ≤ mantissa * Nat.pow 10 exponent.toNat)
    else decide (floatBound * Nat.pow 10 (-exponent).toNat ≤ mantissa)

/-- A finite float has a fraction, an exponent or both. Only positive numbers can be too large. -/
def float? (cs : List Char) : Option Unit :=
  let (negative, body) := splitSign cs
  if body = ['i', 'n', 'f'] ∨ body = ['n', 'a', 'n'] then some ()
  else
    let (whole, rest) := cut (fun c => c = '.' || c = 'e' || c = 'E') body
    (wholeDigits? whole).bind fun ws =>
      let (fraction?, rest) := match rest with
        | '.' :: cs =>
          let (f, rest) := cut (fun c => c = 'e' || c = 'E') cs
          (some f, rest)
        | _ => (none, rest)
      let fs? := match fraction? with
        | some f => digits? 10 false f
        | none => some []
      let es? : Option Int := match rest with
        | [] => if fraction?.isSome then some 0 else none
        | _ :: cs =>
          let (minus, ds) := splitSign cs
          (digits? 10 false ds).map fun ds =>
            if minus then -(valueOf 10 ds : Int) else valueOf 10 ds
      fs?.bind fun fs => es?.bind fun e =>
        if !negative && overflows (valueOf 10 (ws ++ fs)) (e - fs.length) then none else some ()

/-! Dates and times -/

def fixed? : Nat → List Char → Option (Nat × List Char)
  | n, cs =>
    let ds := cs.take n
    if ds.length = n ∧
      ds.all decimal then some (valueOf 10 (ds.map fun c => c.toNat - '0'.toNat), cs.drop n)
    else none

def leap (year : Nat) : Bool := year % 4 = 0 && (year % 100 ≠ 0 || year % 400 = 0)

def daysIn (year month : Nat) : Nat :=
  if month = 2 then if leap year then 29 else 28
  else if month = 4 ∨ month = 6 ∨ month = 9 ∨ month = 11 then 30
  else 31

def date? (cs : List Char) : Option (List Char) := do
  let (year, cs) ← fixed? 4 cs
  let '-' :: cs := cs | none
  let (month, cs) ← fixed? 2 cs
  let '-' :: cs := cs | none
  let (day, cs) ← fixed? 2 cs
  if 1 ≤ month ∧ month ≤ 12 ∧ 1 ≤ day ∧ day ≤ daysIn year month then some cs else none

def time? (cs : List Char) : Option (List Char) := do
  let (hour, cs) ← fixed? 2 cs
  let ':' :: cs := cs | none
  let (minute, cs) ← fixed? 2 cs
  let ':' :: cs := cs | none
  let (second, cs) ← fixed? 2 cs
  if 23 < hour ∨ 59 < minute ∨ 60 < second then none
  match cs with
  | '.' :: cs => if (cs.head?.map decimal).getD false then some (cs.dropWhile decimal) else none
  | _ => some cs

def offset? : List Char → Option Unit
  | [] => some ()
  | ['Z'] | ['z'] => some ()
  | c :: cs => do
    if c ≠ '+' ∧ c ≠ '-' then none
    let (hour, cs) ← fixed? 2 cs
    let ':' :: cs := cs | none
    let (minute, cs) ← fixed? 2 cs
    if hour ≤ 23 ∧ minute ≤ 59 ∧ cs = [] then some () else none

def datetime? (cs : List Char) : Option Unit :=
  match date? cs with
  | some [] => some ()
  | some (c :: cs) => if c = 'T' ∨ c = 't' ∨ c = ' ' then (time? cs).bind offset? else none
  | none => (time? cs).bind fun rest => if rest = [] then some () else none

def ofWord? (cs : List Char) : Option Value :=
  if cs = "true".toList then some (.boolean true)
  else if cs = "false".toList then some (.boolean false)
  else match integer? cs with
    | some n => some (.integer n)
    | none =>
      if (float? cs).isSome then some .float
      else if (datetime? cs).isSome then some .datetime
      else none

end StoreMount.Toml.Scalar
