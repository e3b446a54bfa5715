/-!
# `SnapshotArchive.Track` — wrapping differences and where they left off

Timestamps and prices are stored as differences. A `Track` is what must be remembered between two
blocks to go on: the last value and the step that led to it. First differences continue from the
last value; second differences are the differences of the first ones, continued from the last
step. All arithmetic wraps at 64 bits.

## Contents
- `differences` / `runningSums`: mutually inverse transforms of a list, given the value before it.
- `Track`, `Track.after`: the state, and the state past a list of values.
- `Track.firstDifferences` / `Track.sumFirst`, `Track.secondDifferences` / `Track.sumSecond`.
- `Track.afterSteps`, `Track.afterTurns`: the state of whoever adds the differences up again.
-/

namespace SnapshotArchive

/-- Each value less the one before it; `previous` stands before the first. -/
def differences (previous : Int64) : List Int64 → List Int64
  | [] => []
  | value :: values => (value - previous) :: differences value values

/-- Each sum of the steps so far, starting from `start`. -/
def runningSums (start : Int64) : List Int64 → List Int64
  | [] => []
  | step :: steps => (start + step) :: runningSums (start + step) steps

/-- The last value of a sequence and the step that led to it. -/
structure Track where
  last : Int64 := 0
  step : Int64 := 0
deriving DecidableEq

namespace Track

/-- The first differences of values that continue the track. -/
def firstDifferences (track : Track) (values : List Int64) : List Int64 :=
  differences track.last values

/-- The second differences of values that continue the track. -/
def secondDifferences (track : Track) (values : List Int64) : List Int64 :=
  differences track.step (track.firstDifferences values)

/-- The values with the given first differences. -/
def sumFirst (track : Track) (steps : List Int64) : List Int64 := runningSums track.last steps

/-- The values with the given second differences. -/
def sumSecond (track : Track) (turns : List Int64) : List Int64 :=
  track.sumFirst (runningSums track.step turns)

/-- The track past the values. -/
def after (track : Track) (values : List Int64) : Track where
  last := values.getLastD track.last
  step := (track.firstDifferences values).getLastD track.step

/-- The track past first differences, each of which is a step. -/
def afterSteps (track : Track) (steps : List Int64) : Track where
  last := (track.sumFirst steps).getLastD track.last
  step := steps.getLastD track.step

/-- The track past second differences, whose running sums are the steps. -/
def afterTurns (track : Track) (turns : List Int64) : Track :=
  track.afterSteps (runningSums track.step turns)

end Track

end SnapshotArchive
