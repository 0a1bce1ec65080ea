import StoreMount.Config.Basic
import StoreMount.Toml.Document

/-!
# The configuration as a document

A configuration is written as a TOML document of three tables, every field under its key. Reading
takes each field from its key, or, where a list stands for a table, from its position; a field that
is not there gets its default, and keys that are not known are passed over. A time in the place of a
table names no field. A value of the wrong kind, or a number out of range, is refused.
-/
namespace StoreMount.Config

open Toml (Value Entries)

abbrev Fields := Nat → String → Option Value

def fieldsOf? : Value → Option Fields
  | .table _ entries => some fun _ key => Entries.get? entries key
  | .array _ elements => some fun position _ => elements[position]?
  | .datetime => some fun _ _ => none
  | _ => none

def field {α : Type} (found : Option Value) (default : α) (read : Value → Option α) : Option α :=
  match found with
  | none => some default
  | some v => read v

def string? : Value → Option String
  | .string text => some text
  | _ => none

def path? (v : Value) : Option Path := (string? v).map (⟨·⟩)

def boolean? : Value → Option Bool
  | .boolean b => some b
  | _ => none

def natural? (bound : Nat) : Value → Option Nat
  | .integer n => if 0 ≤ n ∧ n < bound then some n.toNat else none
  | _ => none

def word16? (v : Value) : Option UInt16 := (natural? Word.bound16 v).map UInt16.ofNat

def word64? (v : Value) : Option Nat := natural? Word.bound64 v

def server? (v : Value) : Option ServerSettings := do
  let fields ← fieldsOf? v
  let d := ServerSettings.default
  let portNumber ← field (fields 0 "port") d.portNumber word16?
  let mountPoint ← field (fields 1 "backend_mount_point") d.mountPoint path?
  let millis (position : Nat) (key : String) (default : Nat) : Option Nat :=
    field (fields position key) default word64?
  let userInformationRefresh ←
    millis 2 "user_information_refresh_time_in_milliseconds" d.userInformationRefresh
  let fileInformationRefresh ←
    millis 3 "file_information_refresh_time_in_milliseconds" d.fileInformationRefresh
  let userAccessRefresh ← millis 4 "user_access_refresh_time_in_milliseconds" d.userAccessRefresh
  let objectTypeRefresh ← millis 5 "object_type_refresh_time_in_milliseconds" d.objectTypeRefresh
  let userPermissionsRefresh ←
    millis 6 "user_permissions_refresh_time_in_milliseconds" d.userPermissionsRefresh
  let userTypeRefresh ← millis 7 "user_type_refresh_time_in_milliseconds" d.userTypeRefresh
  let listingRefresh ←
    millis 8 "list_operation_query_results_refresh_time_in_milliseconds" d.listingRefresh
  let allowListRefresh ← millis 9 "allowlist_refresh_time_in_milliseconds" d.allowListRefresh
  let allowOverwrite ← field (fields 10 "allow_overwrite_of_existing_files")
    d.allowOverwrite boolean?
  return { portNumber, mountPoint, userInformationRefresh, fileInformationRefresh, userAccessRefresh
           objectTypeRefresh, userPermissionsRefresh, userTypeRefresh, listingRefresh
           allowListRefresh, allowOverwrite }

def admin? (v : Value) : Option AdminCredentials := do
  let fields ← fieldsOf? v
  let d := AdminCredentials.default
  let username ← field (fields 0 "username") d.username string?
  let password ← field (fields 1 "password") d.password string?
  return { username, password }

def backend? (v : Value) : Option BackendSettings := do
  let fields ← fieldsOf? v
  let d := BackendSettings.default
  let host ← field (fields 0 "host") d.host string?
  let portNumber ← field (fields 1 "port") d.portNumber word16?
  let zone ← field (fields 2 "zone") d.zone string?
  let defaultResource ← field (fields 3 "default_resource") d.defaultResource string?
  let connectionTimeout ← field
    (fields 4 "connection_timeout_in_seconds") d.connectionTimeout word64?
  let allowListKey ← field (fields 5 "allowlist_attribute") d.allowListKey string?
  let admin ← field (fields 6 "proxy_admin_account") d.admin admin?
  return { host, portNumber, zone, defaultResource, connectionTimeout, allowListKey, admin }

def ofValue? (v : Value) : Option Config := do
  let fields ← fieldsOf? v
  let server ← field (fields 0 "nfs_server") .default server?
  let backend ← field (fields 1 "backend") .default backend?
  return { server, backend }

def parse (text : String) : Option Config :=
  (Toml.read text).bind fun entries => ofValue? (.table .headed entries)

/-! ## Writing -/

inductive Scalar
  | text (s : String)
  | path (p : Path)
  | number (n : Nat)
  | flag (b : Bool)
deriving DecidableEq, Repr

/-- The document as rows of keys and values under headers. -/
abbrev Section := String × List (String × Scalar)

def sections (c : Config) : List Section :=
  [("nfs_server",
    [("port", .number c.server.portNumber.toNat),
     ("backend_mount_point", .path c.server.mountPoint),
     ("user_information_refresh_time_in_milliseconds", .number c.server.userInformationRefresh),
     ("file_information_refresh_time_in_milliseconds", .number c.server.fileInformationRefresh),
     ("user_access_refresh_time_in_milliseconds", .number c.server.userAccessRefresh),
     ("object_type_refresh_time_in_milliseconds", .number c.server.objectTypeRefresh),
     ("user_permissions_refresh_time_in_milliseconds", .number c.server.userPermissionsRefresh),
     ("user_type_refresh_time_in_milliseconds", .number c.server.userTypeRefresh),
     ("list_operation_query_results_refresh_time_in_milliseconds", .number c.server.listingRefresh),
     ("allowlist_refresh_time_in_milliseconds", .number c.server.allowListRefresh),
     ("allow_overwrite_of_existing_files", .flag c.server.allowOverwrite)]),
   ("backend",
    [("host", .text c.backend.host),
     ("port", .number c.backend.portNumber.toNat),
     ("zone", .text c.backend.zone),
     ("default_resource", .text c.backend.defaultResource),
     ("connection_timeout_in_seconds", .number c.backend.connectionTimeout),
     ("allowlist_attribute", .text c.backend.allowListKey)]),
   ("backend.proxy_admin_account",
    [("username", .text c.backend.admin.username),
     ("password", .text c.backend.admin.password)])]

/-- A number has to fit a signed word of 64 bits, and a path has to be a text. -/
def Scalar.fits : Scalar → Bool
  | .number n => decide (n < Word.signedBound64)
  | .path p => p.raw.text?.isSome
  | _ => true

def writable (c : Config) : Bool := (sections c).all fun s => s.2.all fun row => row.2.fits

def writeScalar : Scalar → List Char
  | .text s => Toml.Text.write s.toList
  | .path p => Toml.Text.write p.text.toList
  | .number n => Text.Decimal.render n
  | .flag b => (if b then "true" else "false").toList

def writeSection (s : Section) : List Char :=
  '[' :: (s.1.toList ++ "]\n".toList ++
    s.2.flatMap fun e => e.1.toList ++ " = ".toList ++ writeScalar e.2 ++ ['\n'])

def writeSections : List Section → List Char
  | [] => []
  | [s] => writeSection s
  | s :: t :: rest => writeSection s ++ '\n' :: writeSections (t :: rest)

def render? (c : Config) : Option String :=
  if writable c then some (String.ofList (writeSections (sections c))) else none

end StoreMount.Config
