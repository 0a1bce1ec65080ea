import StoreMount.Config.Document
import StoreMount.Disk

/-!
# The directory that keeps the configuration

The configuration is kept in one file of one directory. Setting the directory up never touches a
file that is there already, and a configuration that is not valid is refused before anything is
made. What is loaded has been read and checked.
-/
namespace StoreMount

structure Home where
  directory : Path
  configPath : Path
  config : Config
deriving DecidableEq, Repr

namespace Home

inductive Error
  | notInitialized
  | alreadyInitialized
  | noHomeDirectory
  | missingFile (name : String)
  | invalid (error : Config.Invalid)
  | disk (trouble : Disk.Trouble)
  | unwritable
  | unreadable
deriving DecidableEq, Repr

def Error.message : Error → String
  | .notInitialized => "nfsrods directory not initialized. Run 'nfsrods init' first"
  | .alreadyInitialized => "nfsrods directory already initialized"
  | .noHomeDirectory => "no home directory found"
  | .missingFile name => s!"missing required file: {name}"
  | .invalid error => "invalid configuration: " ++ error.message
  | .disk _ => "IO error"
  | .unwritable => "TOML serialization error"
  | .unreadable => "TOML deserialization error"

def fileName : String := "config.toml"

def directoryFor (userHome chosen : Option Path) : Except Error Path :=
  match chosen, userHome with
  | some directory, _ => .ok directory
  | none, some home => .ok (home.child ".nfsrods")
  | none, none => .error .noHomeDirectory

def readConfig (text : String) : Except Error Config :=
  match Config.parse text with
  | none => .error .unreadable
  | some config => (config.validate.mapError .invalid).map fun _ => config

/-- Set a directory up; what was made on the way stays if a later step fails. -/
def init (d : Disk) (directory : Path) (config : Config) : Except Error Home × Disk :=
  let configPath := directory.child fileName
  if d.holds configPath then (.error .alreadyInitialized, d)
  else
    match config.validate with
    | .error e => (.error (.invalid e), d)
    | .ok () =>
      match d.makeDirectories directory with
      | .error e => (.error (.disk e), d)
      | .ok d =>
        match config.render? with
        | none => (.error .unwritable, d)
        | some text =>
          match d.writeText configPath text with
          | .error e => (.error (.disk e), d)
          | .ok d => (.ok ⟨directory, configPath, config⟩, d)

def load (d : Disk) (directory : Path) : Except Error Home :=
  let configPath := directory.child fileName
  if !d.holds directory then .error .notInitialized
  else if !d.holds configPath then .error (.missingFile fileName)
  else
    match d.readText configPath with
    | .error e => .error (.disk e)
    | .ok text => (readConfig text).map fun config => ⟨directory, configPath, config⟩

end Home
end StoreMount
