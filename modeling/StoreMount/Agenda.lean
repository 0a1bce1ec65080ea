/-!
# What is due when

An agenda is the alarms of periodic jobs, in the order in which they were set. The earliest alarms
go off first, and alarms for the same time go off in the order in which they were set. A job sets
its next alarm when it is done, one interval after the time it was due, so an alarm that was set
long ago comes before one for the same time that was set just now.
-/
namespace StoreMount

inductive Job
  | purge
  | refresh
deriving DecidableEq, Repr

structure Alarm where
  crew : Nat
  job : Job
  interval : Nat
  due : Nat
deriving DecidableEq, Repr

def Alarm.again (alarm : Alarm) : Alarm := { alarm with due := alarm.due + alarm.interval }

abbrev Agenda := List Alarm

namespace Agenda

def set (agenda : Agenda) (alarm : Alarm) : Agenda := agenda ++ [alarm]

def next? : Agenda → Option Nat
  | [] => none
  | alarm :: rest =>
    match next? rest with
    | none => some alarm.due
    | some time => some (if alarm.due < time then alarm.due else time)

def ringing (agenda : Agenda) (time : Nat) : List Alarm × Agenda :=
  agenda.partition fun alarm => decide (alarm.due = time)

def ofCrew (agenda : Agenda) (crew : Nat) : List Alarm × Agenda :=
  agenda.partition fun alarm => decide (alarm.crew = crew)

/-- How often alarms go off within a span of time, at most. -/
def ringsWithin (agenda : Agenda) (span : Nat) : Nat :=
  agenda.foldl (fun n alarm => n + (span / alarm.interval + 1)) 0

end Agenda
end StoreMount
