import StoreMount.Agenda
import StoreMount.Config.Basic

/-!
# The running service

A crew is a resolver and an allow-list with the jobs that keep them up to date: one that forgets
principals when the identity source has changed, one that reads the allow-list again. A job is done
at once when it is set up and then at every multiple of its interval.

Starting the service checks the configuration before anything else, so a configuration that is not
valid opens no session. The allow-list is read once on the way; if that fails the service starts all
the same.
-/
namespace StoreMount

structure Crew where
  resolver : Resolver
  allowList : AllowList

namespace Crew

def new (ids : Identities) (account : Account) (key : String) (visiting : Visiting) : Crew :=
  ⟨Resolver.new ids account visiting, AllowList.new account key⟩

def purge (crew : Crew) (ids : Identities) : Crew :=
  { crew with resolver := (crew.resolver.purgeIfChanged ids).2 }

def work (crew : Crew) (ids : Identities) (job : Job) (l : Link) : Crew × Link :=
  match job with
  | .purge => (crew.purge ids, l)
  | .refresh =>
    let (_, allowList, l) := crew.allowList.refresh l
    ({ crew with allowList }, l)

def receive (crew : Crew) (l : Link) : Crew × Link :=
  let (_, allowList, l) := crew.allowList.receive l
  ({ crew with allowList }, l)

end Crew

inductive ServiceError
  | config (error : Config.Invalid)
  | facade (error : FacadeError)
deriving DecidableEq, Repr

def ServiceError.message : ServiceError → String
  | .config error => "invalid configuration: invalid configuration: " ++ error.message
  | .facade error => "failed to start adapter: " ++ error.message

namespace Service

def start (config : Config) (ids : Identities) (visiting : Visiting) (l : Link) :
    Except ServiceError (Facade × Crew) × Link :=
  match config.validate with
  | .error e => (.error (.config e), l)
  | .ok () =>
    let crew := Crew.new ids config.adminAccount config.backend.allowListKey visiting
    let (crew, l) := crew.work ids .refresh l
    match Facade.mount l ids crew.resolver crew.allowList config.options with
    | (.error e, l) => (.error (.facade e), l)
    | (.ok facade, l) => (.ok (facade, crew), l)

def jobs (config : Config) : List (Job × Nat) :=
  [(.purge, config.server.userInformationRefresh), (.refresh, config.server.allowListRefresh)]

def seed (owner : String) (store : Store) (path : Path) : Except StoreError Store :=
  match store.addCollection path owner with
  | .ok store => .ok store
  | .error (.alreadyExists _) => .ok store
  | .error e => .error e

/-- Make every collection on the way to a path, the root excepted. -/
def seedChain (store : Store) (path : Path) (owner : String) : Except StoreError Store :=
  (path.ancestors.reverse.drop 1).foldlM (seed owner) store

def seededStore (config : Config) : Except StoreError Store :=
  let admin := config.backend.admin.username
  seedChain (Store.new config.backend.zone admin) config.server.mountPoint admin

end Service
end StoreMount
