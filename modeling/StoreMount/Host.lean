import StoreMount.Facade.Access
import StoreMount.Facade.Data
import StoreMount.Facade.Tree
import StoreMount.Resolver.Together
import StoreMount.Service

/-!
# A host with everything on it

The store behind its link, the identity source, a clock, and any number of crews. The first crew
stands by itself; each service that is started brings its own. At most one facade is mounted at a
time, over one of the crews. When time passes, the jobs of all crews are done in the order of their
alarms. Where connections take time, a job gives up its turn once, after asking for a connection,
and the jobs that wait for one go on in the reverse order.
-/
namespace StoreMount

structure Host where
  link : Link
  identities : Identities
  /-- Whether the identity source is one that nobody changes from here. -/
  identitiesFixed : Bool
  now : Nat
  crews : List Crew
  agenda : Agenda
  mounted : Option (Nat × Facade)
  running : Option Nat
  account : Account
  sessions : Table String Session

namespace Host

def new (store : Store) (ids : Identities) (account : Account) (key : String) : Host where
  link := Link.ofServer (Server.ofStore store)
  identities := ids
  identitiesFixed := false
  now := 0
  crews := [Crew.new ids account key .asKept]
  agenda := []
  mounted := none
  running := none
  account := account
  sessions := .empty

def crew? (h : Host) : Option Crew := h.crews.head?

def setCrew (h : Host) (position : Nat) (crew : Crew) : Host :=
  { h with crews := h.crews.set position crew }

def withCrew {α : Type} (h : Host) (default : α) (act : Crew → Link → α × Crew × Link) : α × Host :=
  match h.crew? with
  | none => (default, h)
  | some crew =>
    let (a, crew, link) := act crew h.link
    (a, { h with link }.setCrew 0 crew)

def changeIdentities (h : Host) (change : Identities → Identities) : Host :=
  if h.identitiesFixed then h else { h with identities := change h.identities }

/-! ## Direct use of the store -/

def changeStore (h : Host) (change : Store → Except StoreError Store) :
    Except StoreError Unit × Host :=
  match change h.link.server.store with
  | .ok store => (.ok (), { h with link := { h.link with server := { h.link.server with store } } })
  | .error e => (.error e, h)

def setServer (h : Host) (server : Server) : Host := { h with link := { h.link with server } }

def actingAs (h : Host) (user : String) (proxy : Option String) : Account :=
  let account := h.account.actingAs user
  match proxy with
  | some proxyUser => { account with proxyUser }
  | none => account

def dropSession (h : Host) (name : String) : Bool × Host :=
  match h.sessions.get? name with
  | none => (false, h)
  | some session =>
    (true, { h.setServer (h.link.server.close session).2 with sessions := h.sessions.erase name })

def openSession (h : Host) (name : String) (account : Account) : Except StoreError Unit × Host :=
  match h.link.server.connect account with
  | .error e => (.error e, h)
  | .ok (session, server) =>
    let h := ((h.setServer server).dropSession name).2
    (.ok (), { h with sessions := h.sessions.insert name session })

/-- Use the session kept under a name, or one that is opened for this and closed afterwards. -/
def direct {α : Type} (h : Host) (name : String) (account : Account)
    (act : String → Store → Except StoreError (α × Store)) : Except StoreError α × Host :=
  let perform (user : String) (h : Host) : Except StoreError α × Host :=
    match act user h.link.server.store with
    | .ok (a, store) => (.ok a, h.setServer { h.link.server with store })
    | .error e => (.error e, h)
  match h.sessions.get? name with
  | some session => perform session.user h
  | none =>
    match h.link.server.connect account with
    | .error e => (.error e, h)
    | .ok (session, server) =>
      let (answer, h) := perform session.user (h.setServer server)
      (answer, h.setServer (h.link.server.close session).2)

def closeSession (h : Host) (name : String) (account : Account) : Except StoreError Unit × Host :=
  match h.sessions.get? name with
  | none => h.direct name account fun _ store => .ok ((), store)
  | some session =>
    let (session, server) := h.link.server.close session
    (.ok (), { h.setServer server with sessions := h.sessions.insert name session })

/-! ## Facades -/

def mount (h : Host) (options : Options) : Except FacadeError Facade × Host :=
  h.withCrew (.error (.notFound "")) (fun crew link =>
      let (answer, link) := Facade.mount link h.identities crew.resolver crew.allowList options
      (answer, crew, link))
    |> fun (answer, h) =>
      match answer with
      | .ok facade => (answer, { h with mounted := some (0, facade) })
      | .error _ => (answer, h)

def operate {α : Type} (h : Host) (operation : FacadeM α) : Option (Except FacadeError α) × Host :=
  match h.mounted with
  | none => (none, h)
  | some (position, facade) =>
    match h.crews[position]? with
    | none => (none, h)
    | some crew =>
      let (answer, facade) := operation
        { facade with
          link := h.link, identities := h.identities
          resolver := crew.resolver, allowList := crew.allowList }
      (some answer,
        { h with link := facade.link, mounted := some (position, facade) }.setCrew position
          { crew with resolver := facade.resolver, allowList := facade.allowList })

/-! ## Services and jobs -/

def work (h : Host) (position : Nat) (job : Job) : Host :=
  match h.crews[position]? with
  | none => h
  | some crew =>
    let (crew, link) := crew.work h.identities job h.link
    { h with link }.setCrew position crew

def setAlarm (h : Host) (alarm : Alarm) : Host := { h with agenda := h.agenda.set alarm }

def setUp (h : Host) (position : Nat) (job : Job) (interval : Nat) : Host :=
  if interval = 0 then h else (h.work position job).setAlarm
    ⟨position, job, interval, h.now + interval⟩

def spawn (h : Host) (job : Job) (interval : Nat) : Host := h.setUp 0 job interval

def startService (h : Host) (config : Config) : Except ServiceError Facade × Host :=
  match Service.start config h.identities .asKept h.link with
  | (.error e, link) => (.error e, { h with link })
  | (.ok (facade, crew), link) =>
    let position := h.crews.length
    let h := { h with
      link, crews := h.crews ++ [crew]
      mounted := some (position, facade), running := some position }
    (.ok facade,
      (Service.jobs config).foldl (fun h (job, interval) => h.setUp position job interval) h)

def endJobs (h : Host) (position : Nat) : Nat × Host :=
  let (ended, agenda) := h.agenda.ofCrew position
  (ended.length, { h with agenda })

def stopService (h : Host) : Option Unit × Host :=
  match h.running with
  | none => (none, h)
  | some position => (some (), { (h.endJobs position).2 with running := none })

def ringInTurn (h : Host) (alarms : List Alarm) : Host :=
  alarms.foldl (fun h alarm => (h.work alarm.crew alarm.job).setAlarm alarm.again) h

def beginJob (h : Host) (waiting : List Alarm) (alarm : Alarm) : Host × List Alarm :=
  match alarm.job, h.crews[alarm.crew]? with
  | .refresh, some crew =>
    match Link.announce crew.allowList.account h.link with
    | (.error _, link) => ({ h with link }.setAlarm alarm.again, waiting)
    | (.ok (), link) => ({ h with link }, alarm :: waiting)
  | job, _ => ((h.work alarm.crew job).setAlarm alarm.again, waiting)

def finishJob (h : Host) (alarm : Alarm) : Host :=
  match h.crews[alarm.crew]? with
  | none => h.setAlarm alarm.again
  | some crew =>
    let (crew, link) := crew.receive h.link
    ({ h with link }.setCrew alarm.crew crew).setAlarm alarm.again

/-- Begin all jobs whose alarms go off, then go on with those that wait, the last one first. -/
def ringTogether (h : Host) (alarms : List Alarm) : Host :=
  let (h, waiting) := alarms.foldl (fun (h, waiting) alarm => h.beginJob waiting alarm) (h, [])
  waiting.foldl finishJob h

def runDue (slow : Bool) (limit : Nat) : Nat → Host → Host
  | 0, h => h
  | fuel + 1, h =>
    match h.agenda.next? with
    | none => h
    | some time =>
      if limit < time then h
      else
        let (alarms, agenda) := h.agenda.ringing time
        let h := { h with agenda }
        runDue slow limit fuel (if slow then h.ringTogether alarms else h.ringInTurn alarms)

/-- Let time pass; every job is done at each of its times on the way, the end included. In a slow
host connections take time. -/
def advance (h : Host) (slow : Bool) (span : Nat) : Host :=
  let limit := h.now + span
  { runDue slow limit (h.agenda.ringsWithin span + 1) h with now := limit }

end Host
end StoreMount
