import SnapshotArchive.Fault

/-!
# `SnapshotArchive.Session.Config` — how a session writes

## Contents
- `ContextMode`: whether prices may use the shared dictionary.
- `Config`, `Config.validate`.
-/

namespace SnapshotArchive

/-- Whether price blocks may refer to the dictionary. -/
inductive ContextMode where
  | on
  | off
deriving DecidableEq

/-- The mode's name in documents. -/
def ContextMode.name : ContextMode → String
  | .on => "on"
  | .off => "off"

/-- How many blocks lie between two recovery probes, unless a configuration says otherwise. -/
def defaultProbeInterval : Nat := 4

/-- How a session writes, and the name of its run in reports. -/
structure Config where
  runId : String
  contextMode : ContextMode := .on
  probeInterval : Nat := defaultProbeInterval
deriving DecidableEq

/-- A probe interval of zero is refused first, then an empty run id. -/
def Config.validate (config : Config) : Except Fault Unit :=
  if config.probeInterval = 0 then .error .zeroProbeInterval
  else if config.runId.isEmpty then .error .emptyRunId
  else .ok ()

end SnapshotArchive
