import StoreMount.Path

/-!
# Failures of the store
-/
namespace StoreMount

inductive StoreError
  | notFound (path : Path)
  | alreadyExists (path : Path)
  | notEmpty (path : Path)
  | notACollection (path : Path)
  | isACollection (path : Path)
  | tooLarge (path : Path)
  | permissionDenied (path : Path)
  | unknownAccount (name : String)
  | connection (reason : String)
  | other (reason : String)
deriving DecidableEq, Repr

def StoreError.message : StoreError → String
  | .notFound path => s!"path not found: {path.text}"
  | .alreadyExists path => s!"path already exists: {path.text}"
  | .notEmpty path => s!"collection is not empty: {path.text}"
  | .notACollection path => s!"not a collection: {path.text}"
  | .isACollection path => s!"is a collection: {path.text}"
  | .tooLarge path => s!"object would exceed the size limit: {path.text}"
  | .permissionDenied path => s!"permission denied on {path.text}"
  | .unknownAccount name => s!"unknown account: {name}"
  | .connection reason => s!"connection failed: {reason}"
  | .other reason => s!"backend error: {reason}"

end StoreMount
