import Mathlib.Data.List.Dedup
import Mathlib.Data.List.Forall2
import SnapshotArchive.Proofs.Reassembly
import SnapshotArchive.Proofs.Replay
import SnapshotArchive.Statistics

/-!
# `Proofs.Content` — what is written depends on nothing but content

A snapshot is handed in as a map without an order, and the run that takes it in has a name. Neither leaves a trace in
the bytes.

The items of a map are listed in any order and sorted by their ids before anything else is done with them. No two have
the same id, so there is one sorted list for each map (`Draft.snapshot`), whatever was set in which order and set again.
The only other sets are those of the values and of the steps of a block, and all that is asked of them is their size.

The name of a run is carried along by its monitors, its reports and its sidecar, and read by nobody: taking it off
before an operation or after it comes to the same (`Session.perform_anonymous`), and so it does for a whole run.

## Contents
- **Distinct values.** `distinctCount_eq_length`, the size of a set of values.
- **Maps.** `lookup_insertEntry`, `mem_iff_lookup`; `Snapshot.ext_get?` and `Snapshot.get?_ofEntries`.
- **Drafts.** `Draft` and `Draft.snapshot`; `Draft.snapshot_eq`, `Draft.same_iff`.
- **Names.** `Monitor.anonymous`, `Writer.anonymous`; the steps `Monitor.update_anonymous`,
  `Writer.writeMonitored_anonymous`, the run `Writer.writeChunks_anonymous`.
- **Sessions.** `Session.anonymous`; the step `Session.perform_anonymous`, the run `Session.run_anonymous`.
- **Main result.** `Request.Same`, `Session.run_alike`, `Session.run_of_same_content`.
-/

namespace SnapshotArchive

/-! ## Distinct values -/

/-- In an ordered list, every value but the repeats is a new one. -/
theorem repeatCount_add_length_dedup {values : List Int64} (h : values.Pairwise (· ≤ ·)) :
    repeatCount values + values.dedup.length = values.length := by
  induction values with
  | nil => rfl
  | cons value values ih =>
      obtain ⟨hvalue, hvalues⟩ := List.pairwise_cons.mp h
      have hrest := ih hvalues
      cases values with
      | nil => rfl
      | cons next values =>
          have hstep : repeatCount (value :: next :: values)
              = repeatCount (next :: values) + if next = value then 1 else 0 := by
            simp [repeatCount, List.countP_cons]
          -- an equal value can only stand right behind
          have hknown : value ∈ next :: values ↔ next = value := by
            constructor
            · intro hmem
              rcases List.mem_cons.mp hmem with rfl | hmem
              · rfl
              · have hle : next ≤ value := (List.pairwise_cons.mp hvalues).1 value hmem
                exact Int64.le_antisymm hle (hvalue next List.mem_cons_self)
            · rintro rfl
              exact List.mem_cons_self
          by_cases hrepeat : next = value
          · rw [List.dedup_cons_of_mem (hknown.mpr hrepeat), hstep, if_pos hrepeat, List.length_cons]
            omega
          · rw [List.dedup_cons_of_notMem (mt hknown.mp hrepeat), hstep, if_neg hrepeat, List.length_cons,
              List.length_cons]
            omega

/-- **The distinct values are as many as the set of the values has elements**, in whatever order these are listed. -/
theorem distinctCount_eq_length {set values : List Int64} (hnodup : set.Nodup)
    (hmem : ∀ value, value ∈ set ↔ value ∈ values) : distinctCount values = set.length := by
  have hperm := perm_sortStable (fun a b : Int64 => decide (a < b)) values
  have hsorted : (sortStable (fun a b => decide (a < b)) values).Pairwise (· ≤ ·) :=
    pairwise_sortStable (fun value => value) values
  have hset : (sortStable (fun a b => decide (a < b)) values).dedup.Perm set := by
    apply (List.perm_ext_iff_of_nodup (List.nodup_dedup _) hnodup).mpr
    intro value
    rw [List.mem_dedup, hperm.mem_iff, hmem]
  have hcount := repeatCount_add_length_dedup hsorted
  rw [hset.length_eq, hperm.length_eq] at hcount
  unfold distinctCount
  omega

/-! ## Maps -/

section Lookup

variable {id : Int64} {item : Item} {entries others : List Entry}

theorem lookup_insertEntry (id other : Int64) (item : Item) (entries : List Entry) :
    (insertEntry id item entries).lookup other = if other = id then some item else entries.lookup other := by
  induction entries with
  | nil => rw [insertEntry, lookup_cons_key]
  | cons entry entries ih =>
      obtain ⟨key, found⟩ := entry
      unfold insertEntry
      split
      · rw [lookup_cons_key]
      · split
        · rename_i hsame
          simp only [lookup_cons_key, hsame]
          split <;> rfl
        · rename_i hsame
          simp only [lookup_cons_key, ih]
          by_cases hkey : other = key
          · rw [if_pos hkey, if_neg (fun hid => hsame (hid.symm.trans hkey)), if_pos hkey]
          · rw [if_neg hkey, if_neg hkey]

theorem mem_iff_lookup (h : (entries.map (·.1)).Nodup) : (id, item) ∈ entries ↔ entries.lookup id = some item := by
  induction entries with
  | nil => simp
  | cons entry entries ih =>
      obtain ⟨key, found⟩ := entry
      obtain ⟨hnew, hrest⟩ := List.nodup_cons.mp h
      rw [lookup_cons_key, List.mem_cons, ih hrest]
      by_cases hkey : id = key
      · subst hkey
        have hnone : entries.lookup id ≠ some item := by
          intro hsome
          exact hnew (List.mem_map.mpr ⟨(id, item), (ih hrest).mpr hsome, rfl⟩)
        simp [hnone, eq_comm]
      · simp [hkey]

theorem Ascending.nodup_keys (h : Ascending entries) : (entries.map (·.1)).Nodup := by
  apply List.pairwise_map.mpr
  apply h.imp
  intro first second hlt heq
  rw [heq] at hlt
  exact Int64.lt_irrefl hlt

/-- **Ascending lists are equal if they hold the same.** -/
theorem Ascending.eq_of_mem_iff (h : Ascending entries) (h' : Ascending others)
    (hmem : ∀ entry, entry ∈ entries ↔ entry ∈ others) : entries = others := by
  have hperm : entries.Perm others :=
    (List.perm_ext_iff_of_nodup (h.nodup_keys.of_map _) (h'.nodup_keys.of_map _)).mpr hmem
  apply hperm.eq_of_pairwise _ h h'
  intro first second _ _ hlt hgt
  exact absurd hgt (Int64.lt_asymm hlt)

end Lookup

namespace Snapshot

theorem get?_insert (snapshot : Snapshot) (id other : Int64) (item : Item) :
    (snapshot.insert id item).get? other = if other = id then some item else snapshot.get? other :=
  lookup_insertEntry id other item snapshot.items

theorem mem_items_iff {snapshot : Snapshot} {id : Int64} {item : Item} :
    (id, item) ∈ snapshot.items ↔ snapshot.get? id = some item :=
  mem_iff_lookup snapshot.ascending.nodup_keys

/-- **A snapshot is determined by its timestamp and its map.** -/
theorem ext_get? {snapshot other : Snapshot} (htime : snapshot.timestamp = other.timestamp)
    (hget : ∀ id, snapshot.get? id = other.get? id) : snapshot = other := by
  apply Snapshot.ext htime
  apply snapshot.ascending.eq_of_mem_iff other.ascending
  rintro ⟨id, item⟩
  rw [mem_items_iff, mem_items_iff, hget]

end Snapshot

/-- The item that was set last for an id. -/
def lastItem? (settings : List Entry) (id : Int64) : Option Item :=
  settings.foldl (fun found entry => if id = entry.1 then some entry.2 else found) none

namespace Snapshot

/-- **Of the items set for an id, a snapshot has the last.** -/
theorem get?_ofEntries (timestamp : Int64) (settings : List Entry) (id : Int64) :
    (ofEntries timestamp settings).get? id = lastItem? settings id := by
  suffices hfold : ∀ snapshot : Snapshot,
      (settings.foldl (fun snapshot entry => snapshot.insert entry.1 entry.2) snapshot).get? id
        = settings.foldl (fun found entry => if id = entry.1 then some entry.2 else found) (snapshot.get? id) from
    hfold (empty timestamp)
  induction settings with
  | nil =>
      intro snapshot
      rfl
  | cons entry settings ih =>
      intro snapshot
      rw [List.foldl_cons, List.foldl_cons, ih, get?_insert]

theorem timestamp_ofEntries (timestamp : Int64) (settings : List Entry) :
    (ofEntries timestamp settings).timestamp = timestamp := by
  suffices hfold : ∀ snapshot : Snapshot,
      (settings.foldl (fun snapshot entry => snapshot.insert entry.1 entry.2) snapshot).timestamp
        = snapshot.timestamp from
    hfold (empty timestamp)
  induction settings with
  | nil =>
      intro snapshot
      rfl
  | cons entry settings ih =>
      intro snapshot
      rw [List.foldl_cons, ih]
      rfl

end Snapshot

/-! ## Drafts -/

/-- Entries by ascending id. -/
def sortById (entries : List Entry) : List Entry :=
  sortStable (fun a b => decide (a.1 < b.1)) entries

/-- Sorting entries of different ids makes them ascend. -/
theorem ascending_sortById {entries : List Entry} (h : (entries.map (·.1)).Nodup) :
    Ascending (sortById entries) := by
  have hle : (sortById entries).Pairwise fun a b => a.1 ≤ b.1 := pairwise_sortStable (·.1) entries
  have hne : (sortById entries).Pairwise fun a b => a.1 ≠ b.1 := by
    apply List.pairwise_map.mp
    exact ((perm_sortStable _ entries).map _).nodup_iff.mpr h
  apply (hle.and hne).imp
  intro a b hab
  exact Int64.lt_of_le_of_ne hab.1 hab.2

/-- A snapshot as it is handed in: a timestamp and a map from ids to items. It remembers how its items were set, and it
    lists them, each id once, in an order of its own that is no one's choice. -/
structure Draft where
  timestamp : Int64
  settings : List Entry
  listing : List Entry
  nodup : (listing.map (·.1)).Nodup
  lookup_listing : ∀ id, listing.lookup id = lastItem? settings id

namespace Draft

/-- What is written of a draft: the entries that it lists, by ascending id. -/
def snapshot (draft : Draft) : Snapshot where
  timestamp := draft.timestamp
  items := sortById draft.listing
  ascending := ascending_sortById draft.nodup

theorem get?_snapshot (draft : Draft) (id : Int64) : draft.snapshot.get? id = lastItem? draft.settings id := by
  rw [← draft.lookup_listing]
  ext item
  rw [← Snapshot.mem_items_iff, ← mem_iff_lookup draft.nodup]
  exact (perm_sortStable _ draft.listing).mem_iff

/-- **Neither the order of the settings nor that of the listing shows** in what is written. -/
theorem snapshot_eq (draft : Draft) : draft.snapshot = .ofEntries draft.timestamp draft.settings := by
  apply Snapshot.ext_get?
  · rw [Snapshot.timestamp_ofEntries]
    rfl
  · intro id
    rw [get?_snapshot, Snapshot.get?_ofEntries]

/-- The drafts are equal as timestamped maps. -/
structure Same (draft other : Draft) : Prop where
  timestamp : draft.timestamp = other.timestamp
  items : ∀ id, lastItem? draft.settings id = lastItem? other.settings id

/-- **Equal maps, and no others, are written alike.** -/
theorem same_iff {draft other : Draft} : draft.Same other ↔ draft.snapshot = other.snapshot := by
  constructor
  · intro h
    apply Snapshot.ext_get? h.timestamp
    intro id
    rw [get?_snapshot, get?_snapshot, h.items]
  · intro h
    refine ⟨congrArg Snapshot.timestamp h, ?_⟩
    intro id
    rw [← get?_snapshot, ← get?_snapshot, h]

theorem nodup_of_perm_items {snapshot : Snapshot} {listing : List Entry} (h : listing.Perm snapshot.items) :
    (listing.map (·.1)).Nodup :=
  (h.map _).nodup_iff.mpr snapshot.ascending.nodup_keys

/-- The draft that lists the items of a snapshot in some order. -/
def ofListing (timestamp : Int64) (settings listing : List Entry)
    (h : listing.Perm (Snapshot.ofEntries timestamp settings).items) : Draft where
  timestamp := timestamp
  settings := settings
  listing := listing
  nodup := nodup_of_perm_items h
  lookup_listing := by
    intro id
    ext item
    rw [← mem_iff_lookup (nodup_of_perm_items h), h.mem_iff, Snapshot.mem_items_iff, Snapshot.get?_ofEntries]

end Draft

/-! ## Names -/

namespace Monitor

/-- The monitor without its name. -/
def anonymous (monitor : Monitor) : Monitor := { monitor with runId := "" }

@[simp] theorem nextIndex_anonymous (monitor : Monitor) : monitor.anonymous.nextIndex = monitor.nextIndex := rfl

@[simp] theorem route_anonymous (monitor : Monitor) (metrics : Metrics) (probeRatio : Float) (index : Nat) :
    monitor.anonymous.route metrics probeRatio index = monitor.route metrics probeRatio index := rfl

@[simp] theorem step_anonymous (monitor : Monitor) (outcome : Outcome) (ratio uniqueRatio : Float) :
    monitor.anonymous.step outcome ratio uniqueRatio =
      ((monitor.step outcome ratio uniqueRatio).1, (monitor.step outcome ratio uniqueRatio).2.anonymous) := by
  unfold step
  have hphase : monitor.anonymous.phase = monitor.phase := rfl
  rw [hphase]
  cases monitor.phase with
  | normal => cases outcome.route.path <;> rfl
  | quarantined reference streak segment => cases outcome.route.path <;> rfl

@[simp] theorem update_anonymous (monitor : Monitor) (metrics : Metrics) (outcome : Outcome) :
    monitor.anonymous.update metrics outcome =
      ((monitor.update metrics outcome).1, (monitor.update metrics outcome).2.anonymous) := by
  unfold update
  simp only [step_anonymous]
  split <;> rfl

end Monitor

/-- The report without its name. -/
def Report.anonymous (report : Report) : Report := { report with runId := "" }

@[simp] theorem Monitor.report_anonymous (monitor : Monitor) :
    monitor.anonymous.report = (monitor.report.1.anonymous, monitor.report.2.anonymous) := by
  unfold report
  have hphase : monitor.anonymous.phase = monitor.phase := rfl
  rw [hphase]
  cases monitor.phase <;> rfl

namespace Writer

variable (writer : Writer)

/-- The writer with monitors that have no names. -/
def anonymous : Writer :=
  { writer with time := writer.time.anonymous, value := writer.value.anonymous }

@[simp] theorem monitor_anonymous (column : Column) :
    writer.anonymous.monitor column = (writer.monitor column).anonymous := by
  unfold monitor
  split <;> rfl

@[simp] theorem context_anonymous : writer.anonymous.context = writer.context := rfl

@[simp] theorem setMonitor_anonymous (context : Context) (column : Column) (monitor : Monitor) :
    { writer.anonymous with context }.setMonitor column monitor.anonymous
      = ({ writer with context }.setMonitor column monitor).anonymous := by
  unfold setMonitor
  split <;> rfl

theorem writeMonitored_anonymous (column : Column) (values : List Int64) :
    writer.anonymous.writeMonitored column values =
      ((writer.writeMonitored column values).1, (writer.writeMonitored column values).2.anonymous) := by
  simp [writeMonitored]

theorem writeChunk_anonymous (column : Column) (values : List Int64) :
    writer.anonymous.writeChunk column values =
      ((writer.writeChunk column values).1, (writer.writeChunk column values).2.anonymous) := by
  unfold writeChunk
  split
  · exact writer.writeMonitored_anonymous column values
  · rfl

theorem writeChunks_anonymous (chunks : List (Column × List Int64)) :
    writer.anonymous.writeChunks chunks =
      ((writer.writeChunks chunks).1, (writer.writeChunks chunks).2.anonymous) := by
  induction chunks generalizing writer with
  | nil => rfl
  | cons chunk chunks ih =>
      obtain ⟨column, values⟩ := chunk
      rw [writeChunks_cons, writeChunk_anonymous, writeChunks_cons]
      simp only [ih]

end Writer

/-! ## Sessions -/

/-- The sidecar of a run without a name. -/
def Sidecar.anonymous (sidecar : Sidecar) : Sidecar where
  fileName := fileNameFor ""
  runId := ""
  time := sidecar.time.anonymous
  value := sidecar.value.anonymous

/-- No sidecar is refused. -/
def TakesAll (sink : Option Sink) : Prop :=
  ∀ taker sidecar, sink = some taker → taker sidecar = .ok ()

namespace Session

/-- The session as it would be if its run had no name and it had no sink. -/
def anonymous (session : Session) : Session :=
  { session with
    config := { session.config with runId := "" }
    sink := none
    time := session.time.anonymous
    value := session.value.anonymous
    offered := []
    sidecar := session.sidecar.map Sidecar.anonymous
    telemetry := { session.telemetry with sidecar := none } }

variable (session : Session)

theorem add_anonymous (snapshot : Snapshot) :
    session.anonymous.add snapshot = ((session.add snapshot).1, (session.add snapshot).2.anonymous) := by
  cases hclosed : session.closed with
  | true =>
      have hclosed' : session.anonymous.closed = true := hclosed
      rw [add_of_closed hclosed, add_of_closed hclosed']
  | false =>
      have hclosed' : session.anonymous.closed = false := hclosed
      rw [add_of_isOpen hclosed, add_of_isOpen hclosed']
      rfl

theorem writer_anonymous : session.anonymous.writer = session.writer.anonymous := rfl

theorem flush_anonymous :
    session.anonymous.flush = (session.flush.1, session.flush.2.anonymous) := by
  cases hclosed : session.closed with
  | true =>
      have hclosed' : session.anonymous.closed = true := hclosed
      rw [flush_of_closed hclosed, flush_of_closed hclosed']
  | false =>
      have hclosed' : session.anonymous.closed = false := hclosed
      rw [flush_of_isOpen hclosed, flush_of_isOpen hclosed', writer_anonymous]
      simp only [Writer.writeColumns, Writer.writeChunks_anonymous]
      rfl

theorem sidecarOf_anonymous : session.anonymous.sidecarOf = session.sidecarOf.anonymous := by
  simp [sidecarOf, anonymous, Sidecar.anonymous]

theorem ended_anonymous : session.anonymous.ended = session.ended.anonymous := by
  simp [ended, anonymous]

variable {session}

theorem finalize_anonymous (htakes : TakesAll session.sink) :
    session.anonymous.finalize = (session.finalize.1, session.finalize.2.anonymous) := by
  cases hclosed : session.closed with
  | true =>
      have hclosed' : session.anonymous.closed = true := hclosed
      rw [finalize_of_closed hclosed, finalize_of_closed hclosed']
  | false =>
      have hclosed' : session.anonymous.closed = false := hclosed
      by_cases hpending : session.pending = #[]
      · have hpending' : session.anonymous.pending = #[] := hpending
        rw [finalize_of_flushed hclosed' hpending', finalize_of_flushed hclosed hpending, ended_anonymous,
          sidecarOf_anonymous]
        cases hsink : session.sink with
        | none => rfl
        | some taker =>
            simp only [htakes taker _ hsink]
            rfl
      · have hpending' : session.anonymous.pending ≠ #[] := hpending
        rw [finalize_of_pending hclosed hpending, finalize_of_pending hclosed' hpending']
        rfl

theorem finish_anonymous (htakes : TakesAll session.sink) :
    session.anonymous.finish = (session.finish.1, session.finish.2.anonymous) := by
  have hflushed : TakesAll session.flush.2.sink := by
    rw [sink_flush]
    exact htakes
  unfold finish
  rw [flush_anonymous]
  rcases hflush : session.flush with ⟨fault | bytes, flushed⟩
  · rfl
  · rw [hflush] at hflushed
    simp only [finalize_anonymous hflushed]
    rcases flushed.finalize with ⟨fault | done, ended⟩ <;> rfl

theorem perform_anonymous (htakes : TakesAll session.sink) (call : Call) :
    session.anonymous.perform call = ((session.perform call).1, (session.perform call).2.anonymous) := by
  cases call with
  | add snapshot =>
      unfold perform
      simp only [add_anonymous]
  | flush => exact session.flush_anonymous
  | finalize =>
      unfold perform
      simp only [finalize_anonymous htakes]
  | finish => exact finish_anonymous htakes

/-- **A run is what it would be without a name and a sink**, as long as no sidecar is refused. -/
theorem run_anonymous (htakes : TakesAll session.sink) (calls : List Call) :
    session.anonymous.run calls = ((session.run calls).1, (session.run calls).2.anonymous) := by
  induction calls generalizing session with
  | nil => rfl
  | cons call calls ih =>
      have hnext : TakesAll (session.perform call).2.sink := by
        rw [sink_perform]
        exact htakes
      simp only [run_cons, perform_anonymous htakes, ih hnext]

end Session

/-! ## Main result -/

/-- An operation on a session, with the snapshot as it is handed in. -/
inductive Request where
  | add (draft : Draft)
  | flush
  | finalize
  | finish

namespace Request

/-- The operation on what is written of the draft. -/
def call : Request → Call
  | .add draft => .add draft.snapshot
  | .flush => .flush
  | .finalize => .finalize
  | .finish => .finish

/-- The requests are of one kind, and hand in equal maps. -/
inductive Same : Request → Request → Prop where
  | add {draft other : Draft} (h : draft.Same other) : Same (.add draft) (.add other)
  | flush : Same .flush .flush
  | finalize : Same .finalize .finalize
  | finish : Same .finish .finish

theorem Same.call {request other : Request} (h : request.Same other) : request.call = other.call := by
  cases h with
  | add h => exact congrArg Call.add (Draft.same_iff.mp h)
  | flush | finalize | finish => rfl

theorem map_call_of_same {requests others : List Request} (h : List.Forall₂ Same requests others) :
    requests.map Request.call = others.map Request.call := by
  induction h with
  | nil => rfl
  | cons hfirst _ ih => rw [List.map_cons, List.map_cons, hfirst.call, ih]

end Request

namespace Session

/-- Without name and sink, sessions of the same settings start alike. -/
theorem anonymous_start {config other : Config} (hmode : config.contextMode = other.contextMode)
    (hinterval : config.probeInterval = other.probeInterval) (sink sink' : Option Sink) :
    (fresh config sink).anonymous = (fresh other sink').anonymous := by
  cases config
  cases other
  simp only at hmode hinterval
  subst hmode hinterval
  rfl

/-- Two runs of the same operations differ in name and sink only. -/
theorem run_alike {config other : Config} (hmode : config.contextMode = other.contextMode)
    (hinterval : config.probeInterval = other.probeInterval) {sink sink' : Option Sink}
    (htakes : TakesAll sink) (htakes' : TakesAll sink') (calls : List Call) :
    let session := fresh config sink
    let session' := fresh other sink'
    (session.run calls).1 = (session'.run calls).1 ∧
      (session.run calls).2.anonymous = (session'.run calls).2.anonymous := by
  intro session session'
  have hrun : session.anonymous.run calls = ((session.run calls).1, (session.run calls).2.anonymous) :=
    run_anonymous htakes calls
  have hrun' : session'.anonymous.run calls = ((session'.run calls).1, (session'.run calls).2.anonymous) :=
    run_anonymous htakes' calls
  rw [show session.anonymous = session'.anonymous from anonymous_start hmode hinterval sink sink', hrun'] at hrun
  exact Prod.mk.inj hrun.symm

/-- **What is written depends on nothing but content.** Take two sessions with the same context mode and probe interval,
    whatever their runs are called and wherever their sidecars go, as long as none is refused. Let them get the same
    requests, with snapshots that are equal as timestamped maps, however their items were set and are listed. Then all
    replies are the same, bytes and faults alike, and after any number of requests so are the records of the last flush,
    the totals, and the sidecars, segments and worst blocks included, but for the names of the runs. -/
theorem run_of_same_content {config other : Config} (hvalid : config.validate = .ok ())
    (hvalid' : other.validate = .ok ()) (hmode : config.contextMode = other.contextMode)
    (hinterval : config.probeInterval = other.probeInterval) {sink sink' : Option Sink}
    (htakes : TakesAll sink) (htakes' : TakesAll sink') {requests requests' : List Request}
    (hsame : List.Forall₂ Request.Same requests requests') :
    ∃ first second, start config sink = .ok first ∧ start other sink' = .ok second ∧
      (first.run (requests.map Request.call)).1 = (second.run (requests'.map Request.call)).1 ∧
      ∀ count,
        let session := (first.run ((requests.take count).map Request.call)).2
        let session' := (second.run ((requests'.take count).map Request.call)).2
        session.telemetry.blocks = session'.telemetry.blocks ∧
          session.telemetry.tally = session'.telemetry.tally ∧
          session.sidecar.map Sidecar.anonymous = session'.sidecar.map Sidecar.anonymous := by
  have hcalls := Request.map_call_of_same hsame
  refine ⟨_, _, start_of_valid hvalid sink, start_of_valid hvalid' sink', ?_, ?_⟩
  · rw [hcalls]
    exact (run_alike hmode hinterval htakes htakes' _).1
  · intro count
    rw [List.map_take, hcalls, ← List.map_take]
    have halike := (run_alike hmode hinterval htakes htakes' ((requests'.take count).map Request.call)).2
    refine ⟨?_, ?_, ?_⟩
    · exact congrArg (fun session => session.telemetry.blocks) halike
    · exact congrArg (fun session => session.telemetry.tally) halike
    · exact congrArg Session.sidecar halike

/-- Two items, set one after the other. -/
def shelf : Draft :=
  .ofListing 1000 [(7, ⟨250, 3⟩), (-2, ⟨9, 1⟩)] [(7, ⟨250, 3⟩), (-2, ⟨9, 1⟩)] (by decide)

/-- The same two items, set and listed the other way round, the first of them twice. -/
def restockedShelf : Draft :=
  .ofListing 1000 [(-2, ⟨8, 8⟩), (7, ⟨250, 3⟩), (-2, ⟨9, 1⟩)] [(-2, ⟨9, 1⟩), (7, ⟨250, 3⟩)] (by decide)

theorem run_restockedShelf :
    ∃ first second, start { runId := "run" } none = .ok first ∧
      start { runId := "rerun" } (some Sink.memory) = .ok second ∧
      (first.run [.add shelf.snapshot, .flush, .add shelf.snapshot, .finish]).1
        = (second.run [.add restockedShelf.snapshot, .flush, .add shelf.snapshot, .finish]).1 ∧
      (first.run [.add shelf.snapshot, .flush, .add shelf.snapshot, .finish]).2.sidecar.map Sidecar.anonymous
        = (second.run [.add restockedShelf.snapshot, .flush, .add shelf.snapshot, .finish]).2.sidecar.map
            Sidecar.anonymous := by
  have hshelf : shelf.Same restockedShelf := Draft.same_iff.mpr (by decide +kernel)
  have hagain : shelf.Same shelf := Draft.same_iff.mpr rfl
  have hnone : TakesAll none := by
    intro taker sidecar h
    cases h
  have hmemory : TakesAll (some Sink.memory) := by
    intro taker sidecar h
    cases h
    rfl
  have hvalid : Config.validate { runId := "run" } = .ok () := rfl
  have hvalid' : Config.validate { runId := "rerun" } = .ok () := rfl
  obtain ⟨first, second, hfirst, hsecond, hreplies, hstates⟩ :=
    run_of_same_content hvalid hvalid' rfl rfl hnone hmemory
      (.cons (.add hshelf) (.cons .flush (.cons (.add hagain) (.cons .finish .nil))))
  exact ⟨first, second, hfirst, hsecond, hreplies, (hstates 4).2.2⟩

end Session

end SnapshotArchive
