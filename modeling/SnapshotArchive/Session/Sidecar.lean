import SnapshotArchive.Fault
import SnapshotArchive.Health.Report

/-!
# `SnapshotArchive.Session.Sidecar` — the anomaly report that goes beside an archive

When a session ends, the reports of both monitored columns are handed to a sink under a file name
of their own. A sink may refuse them.

## Contents
- `Sidecar`, `Sidecar.fileNameFor`.
- `Sink` and the sinks `Sink.memory`, `Sink.directory`, `Sink.missingDirectory`, `Sink.refusing`.
-/

namespace SnapshotArchive

/-- The reports of a session. -/
structure Sidecar where
  fileName : String
  runId : String
  time : Report
  value : Report
deriving DecidableEq

/-- The file name for the reports of a run. -/
def Sidecar.fileNameFor (runId : String) : String := "gics-anomalies." ++ runId ++ ".json"

/-- Where a sidecar goes: whether it is taken, or why it is not. -/
abbrev Sink := Sidecar → Except Fault Unit

namespace Sink

/-- Takes everything. -/
def memory : Sink := fun _ => .ok ()

/-- The most bytes in a file name. -/
def maxNameSize : Nat := 255

/-- Whether a directory can hold a file of this name: the name leads into no subdirectory, has no
    zero character and is not too long. -/
def isFileName (name : String) : Bool :=
  !name.contains '/' && !name.contains '\x00' && name.utf8ByteSize ≤ maxNameSize

/-- Writes files into an existing directory. -/
def directory : Sink := fun sidecar =>
  if isFileName sidecar.fileName then .ok () else .error .unwritableFile

/-- Writes files into a directory that does not exist. -/
def missingDirectory : Sink := fun _ => .error .unwritableFile

/-- Refuses everything. -/
def refusing (reason : String) : Sink := fun _ => .error (.sidecarRefused reason)

end Sink

end SnapshotArchive
