import StoreMount.AllowList
import StoreMount.Facade.Basic

/-!
# The configuration

What the service is told: where it listens, which collection it exports and how long it may remember
what it saw, and how it reaches the store. Every field has a default. Times are in milliseconds, the
connection timeout is in seconds. A configuration is valid when the timeout and the two refresh
intervals are positive and the exported collection lies in the zone.
-/
namespace StoreMount

structure ServerSettings where
  portNumber : UInt16
  mountPoint : Path
  userInformationRefresh : Nat
  fileInformationRefresh : Nat
  userAccessRefresh : Nat
  objectTypeRefresh : Nat
  userPermissionsRefresh : Nat
  userTypeRefresh : Nat
  listingRefresh : Nat
  allowListRefresh : Nat
  allowOverwrite : Bool
deriving DecidableEq, Repr

structure AdminCredentials where
  username : String
  password : String
deriving DecidableEq, Repr

structure BackendSettings where
  host : String
  portNumber : UInt16
  zone : String
  defaultResource : String
  connectionTimeout : Nat
  allowListKey : String
  admin : AdminCredentials
deriving DecidableEq, Repr

structure Config where
  server : ServerSettings
  backend : BackendSettings
deriving DecidableEq, Repr

def ServerSettings.default : ServerSettings where
  portNumber := 2049
  mountPoint := ⟨"/tempZone/home"⟩
  userInformationRefresh := 3600000
  fileInformationRefresh := 1000
  userAccessRefresh := 1000
  objectTypeRefresh := 300000
  userPermissionsRefresh := 300000
  userTypeRefresh := 300000
  listingRefresh := 30000
  allowListRefresh := 10000
  allowOverwrite := true

def AdminCredentials.default : AdminCredentials := ⟨"rods", "rods"⟩

def AdminCredentials.shown (a : AdminCredentials) : String :=
  "ProxyAdminAccount \x7b username: " ++ Text.Quoted.quote a.username ++ ", .. \x7d"

def BackendSettings.default : BackendSettings where
  host := "localhost"
  portNumber := 1247
  zone := "tempZone"
  defaultResource := "demoResc"
  connectionTimeout := 600
  allowListKey := AllowList.defaultKey
  admin := .default

namespace Config

def default : Config := ⟨.default, .default⟩

inductive Invalid
  | notPositive (key : String)
  | mountOutsideZone (mountPoint : Path) (zone : String)
deriving DecidableEq, Repr

def Invalid.message : Invalid → String
  | .notPositive key => s!"{key} must be positive"
  | .mountOutsideZone mountPoint zone =>
    s!"nfs_server.backend_mount_point {mountPoint.text} is outside zone {zone}"

/-- The first thing that is wrong, in the order timeout, intervals, mount point. -/
def validate (c : Config) : Except Invalid Unit :=
  if c.backend.connectionTimeout = 0 then
    .error (.notPositive "backend.connection_timeout_in_seconds")
  else if c.server.userInformationRefresh = 0 then
    .error (.notPositive "nfs_server.user_information_refresh_time_in_milliseconds")
  else if c.server.allowListRefresh = 0 then
    .error (.notPositive "nfs_server.allowlist_refresh_time_in_milliseconds")
  else if !c.server.mountPoint.within (Path.zoneRoot c.backend.zone) then
    .error (.mountOutsideZone c.server.mountPoint c.backend.zone)
  else .ok ()

def lifetimes (c : Config) : Lifetimes where
  attributes := c.server.fileInformationRefresh
  access := c.server.userAccessRefresh
  objectType := c.server.objectTypeRefresh
  permissions := c.server.userPermissionsRefresh
  listing := c.server.listingRefresh
  userType := c.server.userTypeRefresh

def options (c : Config) : Options where
  mountPoint := c.server.mountPoint
  zone := c.backend.zone
  allowOverwrite := c.server.allowOverwrite
  lifetimes := c.lifetimes

def adminAccount (c : Config) : Account where
  host := c.backend.host
  portNumber := c.backend.portNumber
  zone := c.backend.zone
  defaultResource := c.backend.defaultResource
  proxyUser := c.backend.admin.username
  proxyPassword := c.backend.admin.password
  clientUser := c.backend.admin.username
  home := (Path.zoneRoot c.backend.zone).child "home"

end Config
end StoreMount
