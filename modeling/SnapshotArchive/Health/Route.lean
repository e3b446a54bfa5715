/-!
# `SnapshotArchive.Health.Route` — the two ways a block can go

A monitored block is either written with the codec chosen for it (the core path) or with the
column's fallback codec and without leaving a trace (the quarantine path).

## Contents
- `Path`, `Reason`, `Route`: the way, why it was taken, and both together.
-/

namespace SnapshotArchive

/-- The way a block goes. -/
inductive Path where
  | core
  | quarantine
deriving DecidableEq

/-- The path's name in reports. -/
def Path.name : Path → String
  | .core => "CORE"
  | .quarantine => "QUARANTINE"

/-- Why a block goes its way. -/
inductive Reason where
  /-- The block is noise. -/
  | entropyGate
  /-- The block compresses much worse than the baseline. -/
  | ratioDrop
  /-- The block holds many more distinct values than the baseline. -/
  | entropyBurst
  /-- The column is quarantined and the block is no probe. -/
  | quarantineActive
  /-- The block is the probe that ends the quarantine. -/
  | recoveryMatch
  /-- The probe succeeds, but more have to follow. -/
  | recoveryPending
  /-- The probe fails. -/
  | recoveryProbeFail
deriving DecidableEq

/-- The reason's name in reports. -/
def Reason.name : Reason → String
  | .entropyGate => "ENTROPY_GATE"
  | .ratioDrop => "RATIO_DROP"
  | .entropyBurst => "ENTROPY_BURST"
  | .quarantineActive => "QUARANTINE_ACTIVE"
  | .recoveryMatch => "RECOVERY_MATCH"
  | .recoveryPending => "RECOVERY_PENDING"
  | .recoveryProbeFail => "RECOVERY_PROBE_FAIL"

/-- A decision about a block. -/
structure Route where
  path : Path
  reason : Option Reason
deriving DecidableEq

namespace Route

/-- The ordinary way, which needs no reason. -/
def core : Route := { path := .core, reason := none }

/-- The ordinary way, taken again after a quarantine. -/
def recovered : Route := { path := .core, reason := some .recoveryMatch }

/-- The quarantine way. -/
def quarantine (reason : Reason) : Route := { path := .quarantine, reason := some reason }

/-- Whether the block is quarantined. -/
def isQuarantine (route : Route) : Bool := route.path = .quarantine

end Route

end SnapshotArchive
