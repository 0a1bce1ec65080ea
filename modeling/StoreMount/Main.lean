import StoreMount.CommandLine

/-!
# The entry point

A run sees the disk as it was when it started: what is at the paths it may touch is read first, the
run is worked out, and what it made is written. A service that is ready lasts until its standard
input ends.
-/
namespace StoreMount.Main

def observe (d : Disk) (p : Path) : IO Disk := do
  match d.locate p with
  | .error _ => return d
  | .ok here =>
    try
      let found ← IO.FS.realPath p.text
      if ← found.isDir then return d.put here .directory
      else return d.put here (.file (← IO.FS.readFile found))
    catch _ => return d

def commit (before after : Disk) (p : Path) : IO Unit :=
  match before.holds p, after.find p with
  | false, .ok (_, .directory) => IO.FS.createDirAll p.text
  | false, .ok (_, .file text) => IO.FS.writeFile p.text text
  | _, _ => return ()

partial def awaitEnd (input : IO.FS.Stream) : IO Unit := do
  unless (← input.getLine).isEmpty do awaitEnd input

def report (o : CommandLine.Outcome) : IO UInt32 := do
  if o.ready then
    IO.println "adapter ready"
    awaitEnd (← IO.getStdin)
  if o.output ≠ "" then IO.println o.output
  if o.complaint ≠ "" then IO.eprintln o.complaint
  return o.code.toUInt32

def execute (words : List String) : IO UInt32 := do
  let userHome := ((← IO.getEnv "HOME").filter (· ≠ "")).map Path.mk
  let paths := match Invocation.read words with
    | .ok i => CommandLine.touched userHome i
    | .error _ => []
  let before ← paths.foldlM observe Disk.empty
  let (outcome, after) := CommandLine.run before userHome words
  paths.forM (commit before after)
  report outcome

end StoreMount.Main

def main (words : List String) : IO UInt32 := StoreMount.Main.execute words
