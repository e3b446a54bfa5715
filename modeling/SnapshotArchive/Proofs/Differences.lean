import SnapshotArchive.Context

/-!
# `Proofs.Differences` — differences and sums, list after list

The values of a column come in pieces, and the differences of each piece continue from where the piece before it ended.
That the pieces do not show is a property of two transforms that carry a state: they undo each other, and what they
make of a list is what they make of its beginning and then, from the state after that, of its end. `Streams` says so for
any such pair. It is enough to show it of the way there; the way back inherits it.

## Contents
- **Transforms with a state.** `Streams`, `Streams.of_inverse`, `Streams.within`.
- **Differences.** `differences_runningSums`, `differences_append`.
- **The two orders.** `Track.after_append`; `Track.streams_first`, `Track.streams_second`.
- **Columns.** `Context.streams` and, from it, `Context.restore_residuals`, `Context.follow_residuals`,
  `Context.length_restore`; `Context.residuals_stream`.
-/

namespace SnapshotArchive

/-! ## Transforms with a state -/

/-- **Two transforms undo each other and stream.** `there` and `back` make lists of lists, from a state that `past`
    moves on by the list that goes `there`, and `behind` by the list that comes `back`. -/
structure Streams {σ : Type} (there back : σ → List Int64 → List Int64) (past behind : σ → List Int64 → σ) : Prop where
  back_there : ∀ s list, back s (there s list) = list
  there_back : ∀ s list, there s (back s list) = list
  behind_there : ∀ s list, behind s (there s list) = past s list
  past_back : ∀ s list, past s (back s list) = behind s list
  there_append : ∀ s front rest, there s (front ++ rest) = there s front ++ there (past s front) rest
  past_append : ∀ s front rest, past s (front ++ rest) = past (past s front) rest
  back_append : ∀ s front rest, back s (front ++ rest) = back s front ++ back (behind s front) rest
  behind_append : ∀ s front rest, behind s (front ++ rest) = behind (behind s front) rest

namespace Streams

variable {σ τ : Type} {there back : σ → List Int64 → List Int64} {past behind : σ → List Int64 → σ}

/-- **The way back streams because the way there does.** -/
theorem of_inverse (back_there : ∀ s list, back s (there s list) = list)
    (there_back : ∀ s list, there s (back s list) = list)
    (behind_there : ∀ s list, behind s (there s list) = past s list)
    (there_append : ∀ s front rest, there s (front ++ rest) = there s front ++ there (past s front) rest)
    (past_append : ∀ s front rest, past s (front ++ rest) = past (past s front) rest) :
    Streams there back past behind := by
  have past_back : ∀ s list, past s (back s list) = behind s list := by
    intro s list
    rw [← behind_there, there_back]
  have back_append : ∀ s front rest, back s (front ++ rest) = back s front ++ back (behind s front) rest := by
    intro s front rest
    -- the two pieces on the right go there as the two pieces on the left
    have hthere : there s (back s front ++ back (behind s front) rest) = front ++ rest := by
      rw [there_append, there_back, past_back, there_back]
    rw [← hthere, back_there]
  refine ⟨back_there, there_back, behind_there, past_back, there_append, past_append, back_append, ?_⟩
  intro s front rest
  rw [← past_back, back_append, past_append, past_back, past_back]

/-- What streams from a state streams from a larger state of which it is a part. -/
theorem within (h : Streams there back past behind) (get : τ → σ) (set : τ → σ → τ)
    (get_set : ∀ t s, get (set t s) = s) (set_set : ∀ t s s', set (set t s) s' = set t s') :
    Streams (fun t => there (get t)) (fun t => back (get t)) (fun t list => set t (past (get t) list))
      (fun t list => set t (behind (get t) list)) where
  back_there t list := h.back_there (get t) list
  there_back t list := h.there_back (get t) list
  behind_there t list := congrArg (set t) (h.behind_there (get t) list)
  past_back t list := congrArg (set t) (h.past_back (get t) list)
  there_append t front rest := by rw [get_set, h.there_append]
  past_append t front rest := by rw [get_set, set_set, h.past_append]
  back_append t front rest := by rw [get_set, h.back_append]
  behind_append t front rest := by rw [get_set, set_set, h.behind_append]

end Streams

/-! ## Differences -/

theorem getLastD_append {α : Type} (front rest : List α) (default : α) :
    (front ++ rest).getLastD default = rest.getLastD (front.getLastD default) := by
  induction front generalizing default with
  | nil => rfl
  | cons a front ih => rw [List.cons_append, List.getLastD_cons, List.getLastD_cons, ih]

theorem runningSums_differences (previous : Int64) (values : List Int64) :
    runningSums previous (differences previous values) = values := by
  induction values generalizing previous with
  | nil => rfl
  | cons value values ih =>
      have hsum : previous + (value - previous) = value := by
        rw [Int64.add_comm, Int64.sub_add_cancel]
      rw [differences, runningSums, hsum, ih]

theorem differences_runningSums (start : Int64) (steps : List Int64) :
    differences start (runningSums start steps) = steps := by
  induction steps generalizing start with
  | nil => rfl
  | cons step steps ih =>
      have hstep : start + step - start = step := by rw [Int64.add_comm, Int64.add_sub_cancel]
      rw [runningSums, differences, hstep, ih]

theorem length_differences (previous : Int64) (values : List Int64) :
    (differences previous values).length = values.length := by
  induction values generalizing previous with
  | nil => rfl
  | cons value values ih => rw [differences, List.length_cons, List.length_cons, ih]

theorem differences_append (previous : Int64) (front rest : List Int64) :
    differences previous (front ++ rest)
      = differences previous front ++ differences (front.getLastD previous) rest := by
  induction front generalizing previous with
  | nil => rfl
  | cons value front ih => rw [List.cons_append, differences, ih, List.getLastD_cons]; rfl

/-! ## The two orders -/

namespace Track

variable (track : Track) (values : List Int64)

theorem sumFirst_firstDifferences : track.sumFirst (track.firstDifferences values) = values :=
  runningSums_differences track.last values

theorem sumSecond_secondDifferences : track.sumSecond (track.secondDifferences values) = values := by
  rw [sumSecond, secondDifferences, runningSums_differences, sumFirst_firstDifferences]

theorem afterSteps_firstDifferences :
    track.afterSteps (track.firstDifferences values) = track.after values := by
  rw [afterSteps, sumFirst_firstDifferences, after]

theorem afterTurns_secondDifferences :
    track.afterTurns (track.secondDifferences values) = track.after values := by
  rw [afterTurns, secondDifferences, runningSums_differences, afterSteps_firstDifferences]

theorem firstDifferences_append (front rest : List Int64) :
    track.firstDifferences (front ++ rest)
      = track.firstDifferences front ++ (track.after front).firstDifferences rest :=
  differences_append track.last front rest

theorem secondDifferences_append (front rest : List Int64) :
    track.secondDifferences (front ++ rest)
      = track.secondDifferences front ++ (track.after front).secondDifferences rest := by
  rw [secondDifferences, firstDifferences_append, differences_append]
  rfl

theorem after_append (front rest : List Int64) : track.after (front ++ rest) = (track.after front).after rest := by
  rw [after, firstDifferences_append, getLastD_append, getLastD_append]
  rfl

theorem firstDifferences_sumFirst (steps : List Int64) : track.firstDifferences (track.sumFirst steps) = steps :=
  differences_runningSums track.last steps

theorem secondDifferences_sumSecond (turns : List Int64) : track.secondDifferences (track.sumSecond turns) = turns := by
  rw [secondDifferences, sumSecond, firstDifferences_sumFirst, differences_runningSums]

theorem streams_first : Streams firstDifferences sumFirst after afterSteps :=
  .of_inverse sumFirst_firstDifferences firstDifferences_sumFirst afterSteps_firstDifferences firstDifferences_append
    after_append

theorem streams_second : Streams secondDifferences sumSecond after afterTurns :=
  .of_inverse sumSecond_secondDifferences secondDifferences_sumSecond afterTurns_secondDifferences
    secondDifferences_append after_append

end Track

/-! ## Columns -/

namespace Context

/-- **The residuals of a column stream**, whatever the column and the codec. -/
theorem streams (column : Column) (codec : Codec) :
    Streams (residuals · column codec) (restore · column codec) (advance · column) (follow · column codec) := by
  have plain : Streams (fun (_ : Context) list => list) (fun _ list => list) (fun context _ => context)
      (fun context _ => context) :=
    .of_inverse (fun _ _ => rfl) (fun _ _ => rfl) (fun _ _ => rfl) (fun _ _ _ => rfl) (fun _ _ _ => rfl)
  cases column with
  | time =>
      exact Track.streams_second.within Context.time (fun context time => { context with time })
        (fun _ _ => rfl) (fun _ _ _ => rfl)
  | value =>
      have within_value {there back past behind} (h : Streams there back past behind) :=
        h.within Context.value (fun context value => { context with value }) (fun _ _ => rfl) (fun _ _ _ => rfl)
      cases codec with
      | rleDod | dodVarint => exact within_value Track.streams_second
      | varintDelta | bitpackDelta | rleZigzag | dictVarint => exact within_value Track.streams_first
  | snapshotLen | itemId | quantity => exact plain

variable (context : Context) (column : Column) (codec : Codec)

/-- **The values are restored from their residuals.** -/
theorem restore_residuals (values : List Int64) :
    context.restore column codec (context.residuals column codec values) = values :=
  (streams column codec).back_there context values

/-- **Following the residuals leads to where the values lead.** -/
theorem follow_residuals (values : List Int64) :
    context.follow column codec (context.residuals column codec values) = context.advance column values :=
  (streams column codec).behind_there context values

theorem length_residuals (values : List Int64) :
    (context.residuals column codec values).length = values.length := by
  cases column <;> simp only [residuals]
  case time => rw [Track.secondDifferences, length_differences, Track.firstDifferences, length_differences]
  case value =>
    split
    · rw [Track.secondDifferences, length_differences, Track.firstDifferences, length_differences]
    · rw [Track.firstDifferences, length_differences]

theorem length_restore (residuals : List Int64) :
    (context.restore column codec residuals).length = residuals.length := by
  have hback : context.residuals column codec (context.restore column codec residuals) = residuals :=
    (streams column codec).there_back context residuals
  rw [← length_residuals context column codec, hback]

/-- **Differences and sums of a column undo each other and stream.** Whatever the state, values are what their residuals
    restore and residuals are what is left of what they restore, the state past the ones is the state past the others,
    and a list in two pieces leaves what it leaves as a whole. The two columns that have a track leave each other's
    alone. The last part says which differences these are, on a list of one value: with the pieces, that is every
    list. -/
theorem residuals_stream (codec : Codec) :
    (∀ column, Streams (residuals · column codec) (restore · column codec) (advance · column) (follow · column codec)) ∧
      ∀ context : Context,
        (∀ list, context.advance .time list = { context with time := (context.advance .time list).time } ∧
          context.follow .time codec list = { context with time := (context.follow .time codec list).time } ∧
          context.advance .value list = { context with value := (context.advance .value list).value } ∧
          context.follow .value codec list = { context with value := (context.follow .value codec list).value }) ∧
        (∀ list, context.residuals .value codec list =
          if codec.isSecondOrder then differences context.value.step (context.residuals .value .varintDelta list)
          else context.residuals .value .varintDelta list) ∧
        ∀ value, context.residuals .time codec [value] = [value - context.time.last - context.time.step] ∧
          (context.advance .time [value]).time = { last := value, step := value - context.time.last } ∧
          context.residuals .value .varintDelta [value] = [value - context.value.last] ∧
          (context.advance .value [value]).value = { last := value, step := value - context.value.last } := by
  refine ⟨fun column => streams column codec, ?_⟩
  intro context
  refine ⟨?_, fun list => rfl, fun value => ⟨rfl, rfl, rfl, rfl⟩⟩
  intro list
  refine ⟨rfl, rfl, rfl, ?_⟩
  cases codec <;> rfl

end Context

end SnapshotArchive
