import StoreMount.Registry
import StoreMount.Store.Error
import StoreMount.Text.Decimal

/-!
# Failures of the facade

Each failure has a text and a POSIX error number. Failures of the store that have a counterpart in
the file world are reported as that; the others are failures of the backend.
-/
namespace StoreMount

inductive FacadeError
  | notFound (what : String)
  | alreadyExists (what : String)
  | permissionDenied (what : String)
  | unsupported (what : String)
  | notEmpty (what : String)
  | notADirectory (what : String)
  | isADirectory (what : String)
  | fileTooLarge (what : String)
  | unknownPrincipal (uid : UInt32)
  | backend (error : StoreError)
  | invariant (error : Registry.Error)
deriving DecidableEq, Repr

namespace FacadeError

def message : FacadeError → String
  | .notFound what => "no such entry: " ++ what
  | .alreadyExists what => "already exists: " ++ what
  | .permissionDenied what => "permission denied: " ++ what
  | .unsupported what => "operation not supported: " ++ what
  | .notEmpty what => "collection not empty: " ++ what
  | .notADirectory what => "not a directory: " ++ what
  | .isADirectory what => "is a directory: " ++ what
  | .fileTooLarge what => "file too large: " ++ what
  | .unknownPrincipal uid => "unknown principal: uid " ++ Text.Decimal.render32 uid
  | .backend error => "backend failure: " ++ error.message
  | .invariant error => "handle registry out of sync with backend: " ++ error.message

def errno : FacadeError → Nat
  | .notFound _ => 2
  | .alreadyExists _ => 17
  | .permissionDenied _ => 13
  | .unsupported _ => 95
  | .notEmpty _ => 39
  | .notADirectory _ => 20
  | .isADirectory _ => 21
  | .fileTooLarge _ => 27
  | .unknownPrincipal _ => 1
  | .backend _ => 5
  | .invariant _ => 5

def ofStore : StoreError → FacadeError
  | .notFound path => .notFound path.text
  | .alreadyExists path => .alreadyExists path.text
  | .notEmpty path => .notEmpty path.text
  | .permissionDenied path => .permissionDenied path.text
  | .notACollection path => .notADirectory path.text
  | .isACollection path => .isADirectory path.text
  | .tooLarge path => .fileTooLarge path.text
  | error => .backend error

def handleNotFound (handle : Handle) : FacadeError := .notFound s!"handle {handle}"

end FacadeError
end StoreMount
