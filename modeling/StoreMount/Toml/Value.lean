/-!
# TOML values

A document is a tree of tables. Each table remembers how it came to be, because that decides what
may be added to it later: a table that a header only passed through may still get a header of its
own, one made by dotted keys may get more dotted keys, and an inline table is closed. An array may
be a row of tables under repeated headers, and then it is its last table that is extended.
-/
namespace StoreMount.Toml

inductive Origin
  | implied
  | dotted
  | headed
  | inlined
deriving DecidableEq, Repr

def Origin.implicit : Origin → Bool
  | .implied | .dotted => true
  | .headed | .inlined => false

inductive Value
  | string (text : String)
  | integer (n : Int)
  | float
  | boolean (b : Bool)
  | datetime
  | array (ofTables : Bool) (elements : List Value)
  | table (origin : Origin) (entries : List (String × Value))
deriving Inhabited

abbrev Entries := List (String × Value)

namespace Entries

def get? (es : Entries) (key : String) : Option Value :=
  (es.find? fun e => decide (e.1 = key)).map Prod.snd

def set (es : Entries) (key : String) (v : Value) : Entries :=
  es.map fun e => if e.1 = key then (key, v) else e

def add (es : Entries) (key : String) (v : Value) : Entries := es ++ [(key, v)]

/-- Follow keys down from a table and change the table they lead to. Tables on the way are made if
they are missing; dotted keys may not pass through a table that has been named. The change is told
whether the table it is given was made by dotted keys. -/
def descend (dotted : Bool) (change : Bool → Entries → Option Entries) :
    List String → Bool → Entries → Option Entries
  | [], isDotted, es => change isDotted es
  | key :: keys, _, es =>
    match es.get? key with
    | none =>
      (descend dotted change keys dotted []).map fun sub =>
        es.add key (.table (if dotted then .dotted else .implied) sub)
    | some (.table .inlined _) => none
    | some (.table origin sub) =>
      if dotted && !origin.implicit then none
      else (descend dotted change keys (origin = .dotted) sub).map fun sub =>
        es.set key (.table origin sub)
    | some (.array true elements) =>
      match elements.getLast? with
      | some (.table origin sub) =>
        (descend dotted change keys false sub).map fun sub =>
          es.set key (.array true (elements.dropLast ++ [.table origin sub]))
      | _ => none
    | some _ => none

def bind (keys : List String) (key : String) (v : Value) (es : Entries) : Option Entries :=
  descend true (fun isDotted es =>
    if isDotted = keys.isEmpty then none
    else match es.get? key with
      | some _ => none
      | none => some (es.add key v)) keys false es

def openTable (keys : List String) (key : String) (es : Entries) : Option Entries :=
  descend false (fun _ es =>
    match es.get? key with
    | none => some (es.add key (.table .headed []))
    | some (.table .implied sub) => some (es.set key (.table .headed sub))
    | some _ => none) keys false es

def openRow (keys : List String) (key : String) (es : Entries) : Option Entries :=
  descend false (fun _ es =>
    match es.get? key with
    | none => some (es.add key (.array true [.table .headed []]))
    | some (.array true elements) =>
      some (es.set key (.array true (elements ++ [.table .headed []])))
    | some _ => none) keys false es

def bindUnder (header : List String) (keys : List String) (key : String) (v : Value)
    (es : Entries) :
    Option Entries :=
  descend false (fun _ es => bind keys key v es) header false es

end Entries
end StoreMount.Toml
