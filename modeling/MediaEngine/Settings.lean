import MediaEngine.Schema.Record

/-!
# Settings of a queue

How many jobs run at once, how many may wait, how long a job may wait, and how many finished jobs are
remembered. The three counts are at least one; a timeout of zero or less means that jobs wait forever.
-/

namespace MediaEngine
open Schema

/-- The limits under which a queue works. -/
structure Settings where
  maxParallelJobs : Int
  maxQueueLength : Int
  queueTimeout : Int
  historyLimit : Int
  parallel_pos : 1 ≤ maxParallelJobs
  length_pos : 1 ≤ maxQueueLength
  history_pos : 1 ≤ historyLimit
  deriving DecidableEq

/-- A count, raised to one where it is less. -/
def atLeastOne (n : Int) : Int := if 1 ≤ n then n else 1

theorem one_le_atLeastOne (n : Int) : 1 ≤ atLeastOne n := by
  unfold atLeastOne
  split <;> omega

namespace Settings

/-- Settings from any four numbers, the counts raised to one. -/
def floored (parallel length timeout history : Int) : Settings where
  maxParallelJobs := atLeastOne parallel
  maxQueueLength := atLeastOne length
  queueTimeout := timeout
  historyLimit := atLeastOne history
  parallel_pos := one_le_atLeastOne parallel
  length_pos := one_le_atLeastOne length
  history_pos := one_le_atLeastOne history

def defaultParallel : Int := 1
def defaultLength : Int := 4
def defaultTimeout : Int := 180000
def defaultHistory : Int := 20

/-- The settings in force where none are given. -/
def default : Settings := floored defaultParallel defaultLength defaultTimeout defaultHistory

def parallelKey : Key := .only "max_parallel_jobs"
def lengthKey : Key := .only "max_queue_length"
def timeoutKey : Key := .only "queue_timeout_ms"
def historyKey : Key := .only "history_limit"

/-- The title of settings in reports. -/
def title : String := "QueueSettings"

/-- The settings of an object. -/
def readMembers (m : Members) : Checked Settings :=
  floored <$> withDefault parallelKey readInteger defaultParallel m
    <*> withDefault lengthKey readInteger defaultLength m
    <*> withDefault timeoutKey readInteger defaultTimeout m
    <*> withDefault historyKey readInteger defaultHistory m
    <* closed [parallelKey, lengthKey, timeoutKey, historyKey] m

/-- Settings read from a value; a void value means the defaults. -/
def read (v : Value) : Checked Settings :=
  if v.isVoid then .ok default else record title readMembers v

/-- Settings as a value. -/
def toValue (s : Settings) : Value :=
  .object [(parallelKey.name, .int s.maxParallelJobs), (lengthKey.name, .int s.maxQueueLength),
    (timeoutKey.name, .int s.queueTimeout), (historyKey.name, .int s.historyLimit)]

/-- The timeout in seconds. -/
def timeoutSeconds (s : Settings) : Except ArithmeticError Binary64 :=
  (Number.int s.queueTimeout).div (.float (Binary64.ofNat 1000))

/-- The timeout in whole seconds, half a second rounded up. -/
def timeoutWhole (s : Settings) : Except ArithmeticError Int :=
  return ((← Number.intQuotient s.queueTimeout 1000).add (.round false Binary64.one 2)).wholePart

/-- Whether jobs that wait too long are dropped. -/
def expires (s : Settings) : Bool := decide (0 < s.queueTimeout)

end Settings

end MediaEngine
