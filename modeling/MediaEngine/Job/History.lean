import MediaEngine.Job.Status
import MediaEngine.Moment.Reader
import MediaEngine.Value.Height

/-!
# The history of jobs

An entry tells how a job ended. A history holds the newest entries up to a limit, the newest first.
-/

namespace MediaEngine.Job
open Schema

/-- How a job ended. -/
structure Entry where
  jobId : String
  name : String
  status : Status
  outputPath : Option String
  errorMessage : Option String
  startedAt : Option Moment
  finishedAt : Option Moment
  metadata : Option Members
  level : Level
  message : Option String

namespace Entry

def jobIdKey : Key := .only "job_id"
def nameKey : Key := .only "name"
def statusKey : Key := .only "status"
def outputPathKey : Key := .only "output_path"
def errorMessageKey : Key := .only "error_message"
def startedAtKey : Key := .only "started_at"
def finishedAtKey : Key := .only "finished_at"
def metadataKey : Key := .only "metadata"
def levelKey : Key := .only "log_level"
def messageKey : Key := .only "message"

/-- The title of entries in reports. -/
def title : String := "JobHistoryEntry"

/-- The entry of an object. -/
def readMembers (m : Members) : Checked Entry :=
  Entry.mk <$> required jobIdKey readText m <*> required nameKey readText m
    <*> required statusKey (readMember Status.choices) m <*> nullable outputPathKey readText m
    <*> nullable errorMessageKey readText m <*> nullable startedAtKey Moment.read m
    <*> nullable finishedAtKey Moment.read m <*> nullable metadataKey readObject m
    <*> withDefault levelKey (readMember Level.choices) .info m <*> nullable messageKey readText m
    <* closed [jobIdKey, nameKey, statusKey, outputPathKey, errorMessageKey, startedAtKey,
      finishedAtKey, metadataKey, levelKey, messageKey] m

/-- An entry read from a value. -/
def read : Value → Checked Entry := record title readMembers

/-- An entry as a value. -/
def toValue (e : Entry) : Value :=
  .object [(jobIdKey.name, .text e.jobId), (nameKey.name, .text e.name),
    (statusKey.name, .text e.status.text), (outputPathKey.name, .textOr e.outputPath),
    (errorMessageKey.name, .textOr e.errorMessage), (startedAtKey.name, Moment.valueOr e.startedAt),
    (finishedAtKey.name, Moment.valueOr e.finishedAt),
    (metadataKey.name, .objectOr (e.metadata.map Value.finiteMembers)),
    (levelKey.name, .text e.level.text), (messageKey.name, .textOr e.message)]

/-- An entry as it is written. -/
def write (e : Entry) : Except HeightError Value :=
  writtenIf (e.metadata.all Members.areWritable) e.toValue

end Entry

/-- The newest entries, up to a limit of at least one. -/
structure History where
  limit : Nat
  entries : List Entry
  limit_pos : 0 < limit

namespace History

/-- How many entries a history holds that is not told its limit. -/
def defaultLimit : Int := 20

/-- A limit that no history can have: `2 ^ 63` entries and more. -/
def capacity : Int := Number.wordLimit

/-- An empty history with the limit raised to one; `none` beyond the capacity. -/
def empty? (limit : Int) : Option History :=
  if limit < capacity then some ⟨max 1 limit.toNat, [], by omega⟩ else none

/-- Adds an entry in front; the oldest entries beyond the limit are forgotten. -/
def record (h : History) (e : Entry) : History :=
  { h with entries := (e :: h.entries).take h.limit }

end History

end MediaEngine.Job
