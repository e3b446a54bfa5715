import SnapshotArchive.Session.Config
import SnapshotArchive.Session.Sidecar
import SnapshotArchive.Session.Writer

/-!
# `SnapshotArchive.Session.Basic` — writing an archive bit by bit

A session takes in snapshots, turns the pending ones into blocks at every flush, and ends once: it
builds the anomaly reports, offers them to its sink and takes no more snapshots. The bytes of all
flushes, with the end marker that a finish appends, make up one archive.

Every operation answers with a result or a fault, and leaves a session behind in either case. Ending a
session releases its context, whether or not the sink then takes the reports; what an open session has
and a closed one may lack is in the type (`Session.holdsContext`).

## Contents
- `Session`, `Session.writer`, `Session.fresh`, `Session.start`.
- `Session.add`, `Session.flush`, `Session.finalize`, `Session.finish`.
- `Call`, `Session.perform`, `Session.run`: sequences of operations.
- `encode`: a whole archive at once.
-/

namespace SnapshotArchive

/-- A session in progress. -/
structure Session where
  config : Config
  sink : Option Sink
  /-- Released when the session ends. -/
  context : Option Context
  time : Monitor
  value : Monitor
  pending : Array Snapshot := #[]
  headerWritten : Bool := false
  closed : Bool := false
  /-- Every sidecar that was offered to the sink, taken or not. -/
  offered : List Sidecar := []
  /-- The sidecar of a session that ended without a fault. -/
  sidecar : Option Sidecar := none
  telemetry : Telemetry := {}
  /-- An open session has its context. -/
  holdsContext : closed = false → context.isSome = true

namespace Session

/-- A closed session needs no context. -/
theorem holdsContext_closed : true = false → (none : Option Context).isSome = true :=
  fun h => absurd h.symm Bool.false_ne_true

/-- What writes the next blocks of an open session. A context that has been released is replaced by an empty one. -/
def writer (session : Session) : Writer where
  context := session.context.getD .withoutDictionary
  time := session.time
  value := session.value

/-- The run id of a column's report. -/
def columnRunId (config : Config) (column : Column) : String := config.runId ++ ":" ++ column.name

/-- The writer of a new session. -/
def initialWriter (config : Config) : Writer where
  context :=
    match config.contextMode with
    | .on => .withDictionary
    | .off => .withoutDictionary
  time := .new (columnRunId config .time) config.probeInterval
  value := .new (columnRunId config .value) config.probeInterval

/-- A new session. -/
def fresh (config : Config) (sink : Option Sink) : Session where
  config := config
  sink := sink
  context := some (initialWriter config).context
  time := (initialWriter config).time
  value := (initialWriter config).value
  holdsContext := fun _ => rfl

/-- Begin a session, if the configuration is valid. -/
def start (config : Config) (sink : Option Sink) : Except Fault Session := do
  config.validate
  return fresh config sink

/-! ## Operations -/

/-- Take in a snapshot. -/
def add (session : Session) (snapshot : Snapshot) : Except Fault Unit × Session :=
  if session.closed then (.error .addAfterFinalize, session)
  else (.ok (), { session with pending := session.pending.push snapshot })

/-- The bytes of all pending snapshots. The first flush also writes the file header. -/
def flush (session : Session) : Except Fault Bytes × Session :=
  if session.closed then (.error .flushAfterFinalize, session)
  else
    match session.context with
    | none => (.error .contextReleased, session)
    | some context =>
        let lead := if session.headerWritten then [] else FileHeader.print {}
        let writer : Writer := { context, time := session.time, value := session.value }
        let (written, writer) := writer.writeColumns (.ofSnapshots session.pending.toList)
        let telemetry := { session.telemetry with blocks := written.map Written.record }
        (.ok (lead ++ written.flatMap fun each => each.block.print),
          { session with
            context := some writer.context
            time := writer.time
            value := writer.value
            pending := #[]
            headerWritten := true
            telemetry := telemetry.setTotals [writer.time.tally, writer.value.tally]
            holdsContext := fun _ => rfl })

/-- End the session, which must not have pending snapshots. It is closed, its reports are made and its
    context is released before the sink is asked. If the sink refuses the sidecar, the session has ended
    all the same. -/
def finalize (session : Session) : Except Fault Unit × Session :=
  if session.closed then (.error .finalizedTwice, session)
  else if session.pending.size ≠ 0 then (.error (.unflushed session.pending.size), session)
  else
    let (timeReport, time) := session.time.report
    let (valueReport, value) := session.value.report
    let sidecar : Sidecar := {
      fileName := Sidecar.fileNameFor session.config.runId
      runId := session.config.runId
      time := timeReport
      value := valueReport }
    let ended := { session with
      time
      value
      closed := true
      context := none
      holdsContext := holdsContext_closed }
    match session.sink with
    | none => (.ok (), { ended with sidecar := some sidecar })
    | some sink =>
        let offered := { ended with offered := ended.offered ++ [sidecar] }
        match sink sidecar with
        | .error fault => (.error fault, offered)
        | .ok () =>
            (.ok (), { offered with
              sidecar := some sidecar
              telemetry := { ended.telemetry with sidecar := some sidecar.fileName } })

/-- Flush, end the session and terminate the archive. -/
def finish (session : Session) : Except Fault Bytes × Session :=
  match session.flush with
  | (.error fault, session) => (.error fault, session)
  | (.ok bytes, session) =>
      match session.finalize with
      | (.error fault, session) => (.error fault, session)
      | (.ok (), session) => (.ok (bytes ++ [endMarker]), session)

end Session

/-! ## Sequences of operations -/

/-- An operation on a session. -/
inductive Call where
  | add (snapshot : Snapshot)
  | flush
  | finalize
  | finish

namespace Session

/-- Perform an operation. Those that write nothing answer with no bytes. -/
def perform (session : Session) : Call → Except Fault Bytes × Session
  | .add snapshot =>
      let (reply, session) := session.add snapshot
      (reply.map fun _ => [], session)
  | .flush => session.flush
  | .finalize =>
      let (reply, session) := session.finalize
      (reply.map fun _ => [], session)
  | .finish => session.finish

/-- Perform operations one after another, whatever their outcome. -/
def run (session : Session) : List Call → List (Except Fault Bytes) × Session
  | [] => ([], session)
  | call :: calls =>
      let (reply, session) := session.perform call
      let (replies, session) := session.run calls
      (reply :: replies, session)

/-- Take in snapshots up to the first fault. -/
def addAll (session : Session) : List Snapshot → Except Fault Session
  | [] => .ok session
  | snapshot :: snapshots =>
      match session.add snapshot with
      | (.error fault, _) => .error fault
      | (.ok (), session) => session.addAll snapshots

end Session

/-- The archive of a list of snapshots. -/
def encode (config : Config) (snapshots : List Snapshot) (sink : Option Sink := none) :
    Except Fault Bytes := do
  let session ← Session.start config sink
  let session ← session.addAll snapshots
  session.finish.1

end SnapshotArchive
