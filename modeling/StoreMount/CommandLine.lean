import StoreMount.Home
import StoreMount.Invocation
import StoreMount.Service

/-!
# The program

What a run of the program leaves behind: the disk after it, the code it ends with, and what it says.
The code is 0 after success, 1 after a failure that is explained, 2 if the words could not be read,
and 101 if the run broke off. The service ends as soon as it is ready, for it is told to: how long
it is left running in between changes nothing that a run leaves behind.
-/
namespace StoreMount.CommandLine

structure Outcome where
  code : UInt8
  output : String
  complaint : String
  ready : Bool
deriving DecidableEq, Repr

def Outcome.success (output : String) (ready : Bool) : Outcome := ⟨0, output, "", ready⟩
def Outcome.failure (reason : String) : Outcome := ⟨1, "", "Error: " ++ reason, false⟩
def Outcome.misuse : Outcome := ⟨2, "", "error: the command line could not be read", false⟩
def Outcome.brokenOff : Outcome := ⟨101, "", "", false⟩

def version : String := "nfsrods 0.1.0"

def usage : String :=
  "Expose a remote object store through a handle-based filesystem protocol\n\n" ++
  "Usage: nfsrods [--config-path <DIR>] <init|daemon|version> [OPTIONS]\n\n" ++
  "  init     [--host <HOST>] [--port <PORT>] [--zone <ZONE>] [--mount-point <PATH>] " ++
  "[--proxy-user <NAME>]\n" ++
  "  daemon   [--log-dir <DIR>] [--log-level <LEVEL>]\n" ++
  "  version"

def requested (host : String) (portNumber : UInt16) (zone : String) (mountPoint : Option Path)
    (proxyUser : String) : Config :=
  let d := Config.default
  { server := { d.server with mountPoint := mountPoint.getD ((Path.zoneRoot zone).child "home") }
    backend := { d.backend with
      host, portNumber, zone, admin := { d.backend.admin with username := proxyUser } } }

def announcement (home : Home) : String :=
  let b := home.config.backend
  let portNumber := b.portNumber.toNat
  s!"Initialized nfsrods directory at: {home.directory.text}\n" ++
  s!"- Config: {home.configPath.text}\n" ++
  s!"- Backend: {b.host}:{portNumber} (zone {b.zone})\n" ++
  s!"- Mount point: {home.config.server.mountPoint.text}\n" ++
  s!"- Proxy account: {b.admin.username}"

def setUp (d : Disk) (directory : Except Home.Error Path) (config : Config) : Outcome × Disk :=
  let explained (e : Home.Error) : Outcome := .failure ("init failed: " ++ e.message)
  match directory with
  | .error e => (explained e, d)
  | .ok directory =>
    match Home.init d directory config with
    | (.error e, d) => (explained e, d)
    | (.ok home, d) => (.success (announcement home) false, d)

def longestLifetime : Nat := 1000 * 365 * 24 * 3600 * 1000

def lifetimesHold (l : Lifetimes) : Bool :=
  [l.attributes, l.access, l.objectType, l.permissions, l.listing, l.userType].all
    fun t => decide (t ≤ longestLifetime)

def serve (config : Config) (store : Store) : Outcome :=
  match (Service.start config .host .asKept (Link.ofServer (Server.ofStore store))).1 with
  | .error e => .failure ("daemon failed: " ++ e.message)
  | .ok _ => if lifetimesHold config.lifetimes then .success "daemon ended" true else .brokenOff

/-- Run the service for a directory, over a store made for it. Logs that have no place to go break
the run off. -/
def runDaemon (d : Disk) (directory : Except Home.Error Path) (logDirectory : Option Path) :
    Outcome × Disk :=
  match directory.bind (Home.load d) with
  | .error e => (.failure ("state error: " ++ e.message), d)
  | .ok home =>
    match Service.seededStore home.config with
    | .error e => (.failure ("backend error: " ++ e.message), d)
    | .ok store =>
      match logDirectory.map d.makeDirectories with
      | none => (serve home.config store, d)
      | some (.ok d) => (serve home.config store, d)
      | some (.error _) => (.brokenOff, d)

def perform (d : Disk) (userHome : Option Path) (i : Invocation) : Outcome × Disk :=
  let directory := Home.directoryFor userHome i.configPath
  match i.command with
  | .init host portNumber zone mountPoint proxyUser =>
    setUp d directory (requested host portNumber zone mountPoint proxyUser)
  | .daemon logDirectory _ => runDaemon d directory logDirectory
  | .version => (.success version false, d)

/-- The paths that a run may look at or make, what is above a path before it. -/
def touched (userHome : Option Path) (i : Invocation) : List Path :=
  let above (p : Path) : List Path := p.ancestors.reverse.filter fun q => decide (q.bytes ≠ [])
  let kept := match Home.directoryFor userHome i.configPath with
    | .ok directory => above (directory.child Home.fileName)
    | .error _ => []
  match i.command with
  | .init .. => kept
  | .daemon logDirectory _ => kept ++ (logDirectory.map above).getD []
  | .version => []

def run (d : Disk) (userHome : Option Path) (words : List String) : Outcome × Disk :=
  match Invocation.read words with
  | .error .usage => (.misuse, d)
  | .error .help => (.success usage false, d)
  | .ok i => perform d userHome i

end StoreMount.CommandLine
