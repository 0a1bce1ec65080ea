/-!
# Strings of TOML

There are four ways to write a string: between double quotes with escapes, between single quotes as
it is, and each of these with three quotes over several lines. A reader takes the text after the
opening quotes and gives the string and what follows the closing quotes.
-/
namespace StoreMount.Toml.Text

def plain (c : Char) : Bool := c = '\t' || (decide (' ' ≤ c) && c ≠ '\x7f')

def hexValue? (c : Char) : Option Nat :=
  if '0' ≤ c ∧ c ≤ '9' then some (c.toNat - '0'.toNat)
  else if 'a' ≤ c ∧ c ≤ 'f' then some (c.toNat - 'a'.toNat + 10)
  else if 'A' ≤ c ∧ c ≤ 'F' then some (c.toNat - 'A'.toNat + 10)
  else none

def hexNumber? (cs : List Char) : Option Nat :=
  cs.foldl (fun n? c => n?.bind fun n => (hexValue? c).map (16 * n + ·)) (some 0)

def scalar? (cs : List Char) : Option Char :=
  (hexNumber? cs).bind fun n => if n.isValidChar then some (Char.ofNat n) else none

def shortEscape? : Char → Option Char
  | 'b' => some '\x08'
  | 't' => some '\t'
  | 'n' => some '\n'
  | 'f' => some '\x0c'
  | 'r' => some '\r'
  | '"' => some '"'
  | '\\' => some '\\'
  | _ => none

def push (c : Char) (r : Option (List Char × List Char)) : Option (List Char × List Char) :=
  r.map fun (s, rest) => (c :: s, rest)

def basic : List Char → Option (List Char × List Char)
  | [] => none
  | '"' :: rest => some ([], rest)
  | '\\' :: 'u' :: a :: b :: c :: d :: rest =>
    (scalar? [a, b, c, d]).bind fun x => push x (basic rest)
  | '\\' :: 'U' :: a :: b :: c :: d :: e :: f :: g :: h :: rest =>
    (scalar? [a, b, c, d, e, f, g, h]).bind fun x => push x (basic rest)
  | '\\' :: c :: rest => (shortEscape? c).bind fun x => push x (basic rest)
  | c :: rest => if plain c then push c (basic rest) else none

def literal : List Char → Option (List Char × List Char)
  | [] => none
  | '\'' :: rest => some ([], rest)
  | c :: rest => if plain c then push c (literal rest) else none

def closing (quote : Char) (rest : List Char) : List Char × List Char :=
  let extra := (rest.takeWhile (· = quote)).length
  (List.replicate (min extra 2) quote, rest.drop (min extra 2))

def blank (c : Char) : Bool := c = ' ' || c = '\t'

def endsLine (cs : List Char) : Bool :=
  match cs.dropWhile blank with
  | '\n' :: _ => true
  | '\r' :: '\n' :: _ => true
  | _ => false

/-- Up to three closing double quotes. A backslash at the end of a line makes the reader skip blanks
and line ends up to the next character that is neither. -/
def longBasic (skipping : Bool) : List Char → Option (List Char × List Char)
  | [] => none
  | '\r' :: '\n' :: rest => if skipping then longBasic true rest
      else push '\n' (longBasic false rest)
  | '\n' :: rest => if skipping then longBasic true rest else push '\n' (longBasic false rest)
  | '"' :: '"' :: '"' :: rest => some (closing '"' rest)
  | '\\' :: 'u' :: a :: b :: c :: d :: rest =>
    (scalar? [a, b, c, d]).bind fun x => push x (longBasic false rest)
  | '\\' :: 'U' :: a :: b :: c :: d :: e :: f :: g :: h :: rest =>
    (scalar? [a, b, c, d, e, f, g, h]).bind fun x => push x (longBasic false rest)
  | '\\' :: c :: rest =>
    if endsLine (c :: rest) then longBasic true (c :: rest)
    else (shortEscape? c).bind fun x => push x (longBasic false rest)
  | c :: rest =>
    if skipping && blank c then longBasic true rest
    else if plain c then push c (longBasic false rest)
    else none

def longLiteral : List Char → Option (List Char × List Char)
  | [] => none
  | '\r' :: '\n' :: rest => push '\n' (longLiteral rest)
  | '\n' :: rest => push '\n' (longLiteral rest)
  | '\'' :: '\'' :: '\'' :: rest => some (closing '\'' rest)
  | c :: rest => if plain c then push c (longLiteral rest) else none

def afterOpening : List Char → List Char
  | '\n' :: rest => rest
  | '\r' :: '\n' :: rest => rest
  | cs => cs

def read : List Char → Option (List Char × List Char)
  | '"' :: '"' :: '"' :: rest => longBasic false (afterOpening rest)
  | '"' :: rest => basic rest
  | '\'' :: '\'' :: '\'' :: rest => longLiteral (afterOpening rest)
  | '\'' :: rest => literal rest
  | _ => none

/-! ## Writing

A string is written in the first of these ways that needs no escapes: between double quotes, between
single quotes, and the same with three quotes. When none will do, escapes are used. -/

def escaped (c : Char) : Bool := (decide (c ≤ '\x1f') && c ≠ '\t' && c ≠ '\n') || c = '\x7f'

def longestRun (q : Char) : Nat → List Char → Nat
  | run, [] => run
  | run, c :: cs => if c = q then longestRun q (run + 1) cs else max run (longestRun q 0 cs)

def upperHex (n : Nat) : Char :=
  if n < 10 then Char.ofNat ('0'.toNat + n) else Char.ofNat ('A'.toNat + (n - 10))

def hex4 (n : Nat) : List Char :=
  [upperHex (n / 4096 % 16), upperHex (n / 256 % 16), upperHex (n / 16 % 16), upperHex (n % 16)]

def escape (long : Bool) (c : Char) : List Char :=
  if c = '\x08' then ['\\', 'b']
  else if c = '\t' then ['\\', 't']
  else if c = '\n' then if long then ['\n'] else ['\\', 'n']
  else if c = '\x0c' then ['\\', 'f']
  else if c = '\r' then ['\\', 'r']
  else if c = '\\' then ['\\', '\\']
  else if escaped c then '\\' :: 'u' :: hex4 c.toNat
  else [c]

/-- Escape what has to be, and of a run of double quotes every one that would be the `limit + 1`st.
-/
def escapeAll (long : Bool) (limit : Nat) : Nat → List Char → List Char
  | _, [] => []
  | run, c :: cs =>
    if c = '"' then
      if run < limit then '"' :: escapeAll long limit (run + 1) cs
      else '\\' :: '"' :: escapeAll long limit 0 cs
    else escape long c ++ escapeAll long limit 0 cs

def write (s : List Char) : List Char :=
  let control := s.any escaped
  let slash := s.contains '\\'
  let doubles := longestRun '"' 0 s
  let singles := longestRun '\'' 0 s
  let lines := s.contains '\n'
  let tripled (q : Char) (body : List Char) : List Char :=
    q :: q :: q :: ((if lines then ['\n'] else []) ++ body ++ [q, q, q])
  if !control && !slash && doubles = 0 && !lines then '"' :: (escapeAll false 0 0 s ++ ['"'])
  else if !control && singles = 0 && !lines then '\'' :: (s ++ ['\''])
  else if !control && !slash && doubles ≤ 2 then tripled '"' (escapeAll true 2 0 s)
  else if !control && singles ≤ 2 then tripled '\'' s
  else if lines then tripled '"' (escapeAll true 2 0 s)
  else '"' :: (escapeAll false 0 0 s ++ ['"'])

end StoreMount.Toml.Text
