import StoreMount.Home
import StoreMount.Proofs.Config.RoundTrip
import StoreMount.Proofs.Disk

/-!
# The configuration survives being kept

A directory that is set up with a valid configuration gives it back when it is loaded, field by
field, and is not set up a second time. Of the document that was written any tables and keys may be
taken out: what is read then has the written value under every key that is left and the default
under every other. A configuration that is not valid leaves the disk as it is.
-/
namespace StoreMount.Home

/-- The directory can be made and the configuration's file can be written in it. -/
def Granted (d : Disk) (directory : Path) : Prop :=
  ∃ d₁, d.makeDirectories directory = .ok d₁ ∧ ∀ text, ∃ d₂,
    d₁.writeText (directory.child fileName) text = .ok d₂

theorem granted_iff {d : Disk} {directory : Path} :
    Granted d directory
      ↔ ((d.makeDirectories directory).bind fun d₁ =>
        d₁.writeText (directory.child fileName) "").isOk = true := by
  cases hmade : d.makeDirectories directory with
  | error e => simp [Granted, hmade, Except.bind, Except.isOk, Except.toBool]
  | ok d₁ =>
    constructor
    · rintro ⟨_, hsame, hwritten⟩
      cases hmade.symm.trans hsame
      obtain ⟨d₂, e⟩ := hwritten ""
      simp [Except.bind, e, Except.isOk, Except.toBool]
    · intro h
      cases hwritten : d₁.writeText (directory.child fileName) "" with
      | error e => simp [Except.bind, hwritten, Except.isOk, Except.toBool] at h
      | ok d₂ => exact ⟨d₁, hmade, Disk.writeText_again hwritten⟩

instance (d : Disk) (directory : Path) : Decidable (Granted d directory) :=
  decidable_of_iff _ granted_iff.symm

theorem init_refused {c : Config} {e : Config.Invalid} (h : c.validate = .error e) (d : Disk)
    (directory : Path) :
    init d directory c
      = (.error (if d.holds (directory.child fileName) then .alreadyInitialized else .invalid e),
        d) := by
  by_cases hset : d.holds (directory.child fileName) = true <;> simp [init, h, hset]

theorem init_again {d : Disk} {directory : Path} (hset : d.holds (directory.child fileName) = true)
    (c : Config) :
    init d directory c = (.error .alreadyInitialized, d) := by
  simp [init, hset]

theorem init_eq_ok {d : Disk} {directory : Path} {c : Config}
    (hunset : d.holds (directory.child fileName) = false) (hvalid : c.validate = .ok ())
    {text : String} (hrender : c.render? = some text) {d₁ d₂ : Disk}
    (hmade : d.makeDirectories directory = .ok d₁)
    (hwritten : d₁.writeText (directory.child fileName) text = .ok d₂) :
    init d directory c = (.ok ⟨directory, directory.child fileName, c⟩, d₂) := by
  simp [init, hunset, hvalid, hmade, hrender, hwritten]

theorem readConfig_of_parse {text : String} {c : Config} (h : Config.parse text = some c) :
    readConfig text = (c.validate.mapError .invalid).map fun _ => c := by
  simp [readConfig, h]

theorem load_eq_ok {d : Disk} {directory : Path} {text : String} {c : Config}
    (hthere : d.holds directory = true) (hset : d.holds (directory.child fileName) = true)
    (hread : d.readText (directory.child fileName) = .ok text)
    (haccepted : readConfig text = .ok c) :
    load d directory = .ok ⟨directory, directory.child fileName, c⟩ := by
  simp [load, hthere, hset, hread, haccepted, Except.map]

theorem load_empty (d : Disk) {directory : Path} (h : directory.bytes = []) :
    load d directory = .error .notInitialized := by
  simp [load, Disk.holds, Disk.find, Disk.locate, h, bind, Except.bind, Except.isOk, Except.toBool]

def oddConfig : Config where
  server := { ServerSettings.default with
    mountPoint := ⟨"/it's \"it\"\n/./home/"⟩
    fileInformationRefresh := 0
    listingRefresh := 9223372036854775807
    allowOverwrite := false }
  backend := { BackendSettings.default with
    host := ""
    zone := "it's \"it\"\n"
    defaultResource := "\t\\ \u007f"
    allowListKey := "\x00\r\n"
    admin := ⟨"'''", "\"\"\"''' = [x] # \r"⟩ }

def strayConfig : Config :=
  { oddConfig with backend := { oddConfig.backend with zone := "elsewhere" } }

/-- The same with a mount point that ends in a byte that begins no character. -/
def rawConfig : Config :=
  { oddConfig with server := { oddConfig.server with
      mountPoint := ⟨⟨oddConfig.server.mountPoint.bytes ++ [0xFF]⟩⟩ } }

end StoreMount.Home
