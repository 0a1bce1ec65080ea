import StoreMount.Toml.Scalar
import StoreMount.Toml.Text

/-!
# Reading TOML documents

A document is a row of lines: blank ones, comments, headers, and bindings of a key to a value. A
value may span lines when it is an array or a long string. Reading gives the tree of tables, or
nothing when the text is no document: when a line is malformed, a key is bound twice, or a table is
opened in a way that its origin forbids. Values nest no deeper than 79 levels, and no key has more
parts than that.
-/
namespace StoreMount.Toml

/-- A reader takes text from the front and gives what it read and the rest. -/
abbrev Reader (α : Type) := List Char → Option (α × List Char)

def nestingLimit : Nat := 79

def skipBlank (cs : List Char) : List Char := cs.dropWhile Text.blank

def newline? : List Char → Option (List Char)
  | '\n' :: rest => some rest
  | '\r' :: '\n' :: rest => some rest
  | _ => none

/-- What follows a comment; control characters end it early, and then no line end follows. -/
def skipComment : List Char → List Char
  | '#' :: rest => rest.dropWhile Text.plain
  | cs => cs

def lineEnd? (cs : List Char) : Option (List Char) :=
  match skipComment (skipBlank cs) with
  | [] => some []
  | cs => newline? cs

def skipSpace : Nat → List Char → List Char
  | 0, cs => cs
  | fuel + 1, cs =>
    match skipBlank cs with
    | '#' :: rest =>
      match newline? (rest.dropWhile Text.plain) with
      | some rest => skipSpace fuel rest
      | none => '#' :: rest
    | cs =>
      match newline? cs with
      | some rest => skipSpace fuel rest
      | none => cs

def bareKeyChar (c : Char) : Bool :=
  (decide ('A' ≤ c) && decide (c ≤ 'Z')) || (decide ('a' ≤ c) && decide (c ≤ 'z')) ||
    Scalar.decimal c
    || c = '_' || c = '-'

def simpleKey : Reader String
  | '"' :: rest => (Text.basic rest).map fun (s, rest) => (String.ofList s, rest)
  | '\'' :: rest => (Text.literal rest).map fun (s, rest) => (String.ofList s, rest)
  | cs =>
    let word := cs.takeWhile bareKeyChar
    if word = [] then none else some (String.ofList word, cs.dropWhile bareKeyChar)

def keyParts : Nat → Reader (List String)
  | 0, _ => none
  | n + 1, cs => do
    let (part, cs) ← simpleKey (skipBlank cs)
    match skipBlank cs with
    | '.' :: cs => (keyParts n cs).map fun (parts, cs) => (part :: parts, cs)
    | cs => some ([part], cs)

def key : Reader (List String × String) := fun cs => do
  let (parts, cs) ← keyParts nestingLimit cs
  let last ← parts.getLast?
  some ((parts.dropLast, last), cs)

def wordChar (c : Char) : Bool := bareKeyChar c || c = '+' || c = '.' || c = ':'

def scalar : Reader Value := fun cs =>
  let word := cs.takeWhile wordChar
  let rest := cs.dropWhile wordChar
  match (Scalar.date? word), rest with
  | some [], ' ' :: after =>
    if (after.head?.map Scalar.decimal).getD false then
      (Scalar.ofWord? (word ++ ' ' :: after.takeWhile wordChar)).map (·, after.dropWhile wordChar)
    else (Scalar.ofWord? word).map (·, rest)
  | _, _ => (Scalar.ofWord? word).map (·, rest)

def elements (element : Reader Value) : Nat → Reader (List Value)
  | 0, _ => none
  | fuel + 1, cs =>
    match skipSpace cs.length cs with
    | ']' :: rest => some ([], rest)
    | cs => do
      let (v, cs) ← element cs
      match skipSpace cs.length cs with
      | ',' :: cs => (elements element fuel cs).map fun (vs, cs) => (v :: vs, cs)
      | ']' :: cs => some ([v], cs)
      | _ => none

def binding (element : Reader Value) : Reader (List String × String × Value) := fun cs => do
  let ((keys, last), cs) ← key cs
  let '=' :: cs := cs | none
  let (v, cs) ← element (skipBlank cs)
  some ((keys, last, v), cs)

def inlineBindings (element : Reader Value) : Nat → Entries → Reader Entries
  | 0, _, _ => none
  | fuel + 1, es, cs => do
    let ((keys, last, v), cs) ← binding element cs
    let es ← es.bind keys last v
    match skipBlank cs with
    | ',' :: cs => inlineBindings element fuel es cs
    | '\x7d' :: cs => some (es, cs)
    | _ => none

def value : Nat → Reader Value
  | depth, cs =>
    match cs with
    | '"' :: _ | '\'' :: _ => (Text.read cs).map fun (s, rest) => (.string (String.ofList s), rest)
    | '[' :: rest =>
      match depth with
      | 0 => none
      | depth + 1 => (elements (value depth) rest.length rest).map fun (vs, rest) =>
        (.array false vs, rest)
    | '\x7b' :: rest =>
      match depth with
      | 0 => none
      | depth + 1 =>
        match skipBlank rest with
        | '\x7d' :: rest => some (.table .inlined [], rest)
        | rest =>
          (inlineBindings (value depth) (rest.length + 1) [] rest).map fun (es, rest) =>
            (.table .inlined es, rest)
    | _ => scalar cs

/-- The document so far: its root table and the keys that the last header named. -/
structure State where
  root : Entries
  header : List String

def header (row : Bool) (st : State) : Reader State := fun cs => do
  let ((keys, last), cs) ← key cs
  let rest ← match row, cs with
    | false, ']' :: rest => some rest
    | true, ']' :: ']' :: rest => some rest
    | _, _ => none
  let root ← if row then st.root.openRow keys last else st.root.openTable keys last
  some (⟨root, keys ++ [last]⟩, rest)

def statement (st : State) (cs : List Char) : Option (State × List Char) := do
  let (st, cs) ← match cs with
    | '[' :: '[' :: rest => header true st rest
    | '[' :: rest => header false st rest
    | _ => do
      let ((keys, last, v), cs) ← binding (value nestingLimit) cs
      let root ← st.root.bindUnder st.header keys last v
      some (⟨root, st.header⟩, cs)
  let cs ← lineEnd? cs
  some (st, cs)

def statements : Nat → State → List Char → Option State
  | 0, _, _ => none
  | fuel + 1, st, cs =>
    match skipBlank cs with
    | [] => some st
    | '#' :: rest =>
      match rest.dropWhile Text.plain with
      | [] => some st
      | cs => (newline? cs).bind (statements fuel st)
    | c :: rest =>
      if c = '\n' ∨ c = '\r' then (newline? (c :: rest)).bind (statements fuel st)
      else (statement st (c :: rest)).bind fun (st, cs) => statements fuel st cs

def read (text : String) : Option Entries :=
  let cs := match text.toList with
    | '\ufeff' :: cs => cs
    | cs => cs
  (statements (cs.length + 1) ⟨[], []⟩ cs).map State.root

end StoreMount.Toml
