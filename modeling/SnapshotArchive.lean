import SnapshotArchive.Document.Config
import SnapshotArchive.Document.Sidecar
import SnapshotArchive.Document.Snapshot
import SnapshotArchive.Reading
import SnapshotArchive.Session.Basic
import SnapshotArchive.Summary
import SnapshotArchive.Proofs.Payloads
import SnapshotArchive.Proofs.Dictionary
import SnapshotArchive.Proofs.Framing
import SnapshotArchive.Proofs.Lockstep
import SnapshotArchive.Proofs.Reassembly
import SnapshotArchive.Proofs.Writer
import SnapshotArchive.Proofs.Session
import SnapshotArchive.Proofs.Truncation
import SnapshotArchive.Proofs.Watching
import SnapshotArchive.Proofs.Hysteresis
import SnapshotArchive.Proofs.Ending
import SnapshotArchive.Proofs.HealthFlags
import SnapshotArchive.Proofs.Guarded
import SnapshotArchive.Proofs.InPlaceFraming
import SnapshotArchive.Proofs.InPlacePayloads
import SnapshotArchive.Proofs.Yield
import SnapshotArchive.Proofs.InPlaceReading
import SnapshotArchive.Proofs.Containment
import SnapshotArchive.Proofs.Anomalies
import SnapshotArchive.Proofs.Forgetting
import SnapshotArchive.Proofs.Recovery
import SnapshotArchive.Proofs.Replay
import SnapshotArchive.Proofs.Segments
import SnapshotArchive.Proofs.Accounts
import SnapshotArchive.Proofs.DictionaryBlocks
import SnapshotArchive.Proofs.Drops
import SnapshotArchive.Proofs.Counting
import SnapshotArchive.Proofs.Reading
import SnapshotArchive.Proofs.Content
import SnapshotArchive.Proofs.Balance
import SnapshotArchive.Proofs.Tampering
import SnapshotArchive.Proofs.LifeCycle
import SnapshotArchive.Proofs.Groups
import SnapshotArchive.Proofs.BitFields
import SnapshotArchive.Proofs.Runs
import SnapshotArchive.Proofs.Differences
import SnapshotArchive.Proofs.Recency
import SnapshotArchive.Proofs.Carving
import SnapshotArchive.Proofs.WordLists
import SnapshotArchive.Proofs.WorstBlocks
import SnapshotArchive.Proofs.SegmentContents
import SnapshotArchive.Proofs.FloatFractions
import SnapshotArchive.Proofs.NearestRank
import SnapshotArchive.Proofs.WordReading
