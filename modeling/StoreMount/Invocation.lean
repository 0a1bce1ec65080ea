import StoreMount.Path
import StoreMount.Text.Decimal

/-!
# Invocations

The words after the program's name ask for one of three commands. Options come before and after the
command's name; their value is the next word or follows an equals sign, and each may be given once
on either side. A value that is a word of its own does not start with a dash, unless it is a single
dash. What cannot be read asks for nothing and is refused as a whole.
-/
namespace StoreMount

inductive LogLevel
  | error
  | warn
  | info
  | debug
  | trace
deriving DecidableEq, Repr

inductive Command
  | init (host : String) (portNumber : UInt16) (zone : String) (mountPoint : Option Path)
      (proxyUser : String)
  | daemon (logDirectory : Option Path) (logLevel : LogLevel)
  | version
deriving DecidableEq, Repr

structure Invocation where
  configPath : Option Path
  command : Command
deriving DecidableEq, Repr

namespace Invocation

inductive Refusal
  | usage
  | help
deriving DecidableEq, Repr

abbrev Reading := Except Refusal

structure Scanned where
  values : List (String × String)
  rest : List String
deriving DecidableEq, Repr

def dashed (word : String) : Bool :=
  match word.toList with
  | '-' :: _ :: _ => true
  | _ => false

def long? (word : String) : Option (String × Option String) :=
  match word.toList with
  | '-' :: '-' :: c :: cs =>
    let body := c :: cs
    match body.dropWhile (· ≠ '=') with
    | [] => some (String.ofList body, none)
    | _ :: value => some (String.ofList (body.takeWhile (· ≠ '=')), some (String.ofList value))
  | _ => none

def Scanned.add (name value : String) (s : Scanned) : Reading Scanned :=
  if (s.values.lookup name).isSome then .error .usage
  else .ok { s with values := (name, value) :: s.values }

def scan (known : List String) : List String → Reading Scanned
  | [] => .ok ⟨[], []⟩
  | word :: words =>
    match long? word with
    | some (name, attached) =>
      if name = "help" ∧ attached = none then .error .help
      else if known.contains name then
        match attached, words with
        | some value, words => do (← scan known words).add name value
        | none, value :: words =>
          if dashed value then .error .usage else do (← scan known words).add name value
        | none, [] => .error .usage
      else .error .usage
    | none =>
      if word = "--" then if words = [] then .ok ⟨[], []⟩ else .error .usage
      else if word = "-h" then .error .help
      else if dashed word then .error .usage
      else .ok ⟨[], word :: words⟩

def Scanned.text (s : Scanned) (name default : String) : String :=
  (s.values.lookup name).getD default

def Scanned.path? (s : Scanned) (name : String) : Reading (Option Path) :=
  match s.values.lookup name with
  | none => .ok none
  | some "" => .error .usage
  | some text => .ok (some ⟨text⟩)

def portNumber? (text : String) : Option UInt16 :=
  match text.toList with
  | '-' :: digits => ((Text.Decimal.unsigned? digits).filter (· == 0)).map UInt16.ofNat
  | cs => (Text.Decimal.read? Word.bound16 cs).map UInt16.ofNat

/-- A level is given by its number or, in letters of either case, by its name. -/
def logLevel? (text : String) : Option LogLevel :=
  match Text.Decimal.read? Word.bound64 text.toList with
  | some 1 => some .error
  | some 2 => some .warn
  | some 3 => some .info
  | some 4 => some .debug
  | some 5 => some .trace
  | some _ => none
  | none =>
    match String.ofList (text.toList.map Char.toLower) with
    | "error" => some .error
    | "warn" => some .warn
    | "info" => some .info
    | "debug" => some .debug
    | "trace" => some .trace
    | _ => none

def optionsOf? : String → Option (List String)
  | "init" => some ["config-path", "host", "port", "zone", "mount-point", "proxy-user"]
  | "daemon" => some ["config-path", "log-dir", "log-level"]
  | "version" => some ["config-path"]
  | _ => none

def orRefuse {α : Type} : Option α → Reading α
  | some a => .ok a
  | none => .error .usage

def commandOf (name : String) (s : Scanned) : Reading Command :=
  match name with
  | "init" => do
    let portNumber ← orRefuse (portNumber? (s.text "port" "1247"))
    let mountPoint ← s.path? "mount-point"
    return .init (s.text "host" "localhost") portNumber (s.text "zone" "tempZone") mountPoint
      (s.text "proxy-user" "rods")
  | "daemon" => do
    let logDirectory ← s.path? "log-dir"
    let logLevel ← orRefuse (logLevel? (s.text "log-level" "info"))
    return .daemon logDirectory logLevel
  | "version" => return .version
  | _ => .error .usage

/-- Read the words; the directory given after the command's name counts over the one before it. -/
def read (words : List String) : Reading Invocation := do
  let before ← scan ["config-path"] words
  match before.rest with
  | [] => .error .usage
  | "help" :: _ => .error .help
  | name :: words =>
    let options ← orRefuse (optionsOf? name)
    let after ← scan options words
    if after.rest ≠ [] then .error .usage
    let outer ← before.path? "config-path"
    let inner ← after.path? "config-path"
    return ⟨inner.or outer, ← commandOf name after⟩

end Invocation
end StoreMount
