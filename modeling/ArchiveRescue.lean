import ArchiveRescue.Main
import ArchiveRescue.Tape.Rehearsal
import ArchiveRescue.Proofs.Tape
import ArchiveRescue.Proofs.BytesRead
import ArchiveRescue.Proofs.Resumption
import ArchiveRescue.Proofs.Bytes
import ArchiveRescue.Proofs.Progress
import ArchiveRescue.Proofs.Field
import ArchiveRescue.Proofs.Header
import ArchiveRescue.Proofs.Bisimulation
import ArchiveRescue.Proofs.Alike
import ArchiveRescue.Proofs.Copying
import ArchiveRescue.Proofs.RoundAdvance
import ArchiveRescue.Proofs.Recovery
import ArchiveRescue.Proofs.Path
import ArchiveRescue.Proofs.Tree
import ArchiveRescue.Proofs.Items
import ArchiveRescue.Proofs.RoundTrip
import ArchiveRescue.Proofs.Truncation
import ArchiveRescue.Proofs.Damage
import ArchiveRescue.Proofs.Growth
import ArchiveRescue.Proofs.Retention
import ArchiveRescue.Proofs.Stage
import ArchiveRescue.Proofs.Preparation
import ArchiveRescue.Proofs.Sink
import ArchiveRescue.Proofs.Bench
import ArchiveRescue.Proofs.Unpacking
import ArchiveRescue.Proofs.Holding
import ArchiveRescue.Proofs.Likeness
import ArchiveRescue.Proofs.Retry
import ArchiveRescue.Proofs.Fallback
import ArchiveRescue.Proofs.Inflation
import ArchiveRescue.Proofs.OutletContents
import ArchiveRescue.Proofs.Readiness
import ArchiveRescue.Proofs.Salvage
import ArchiveRescue.Proofs.Descent
import ArchiveRescue.Proofs.Confinement
import ArchiveRescue.Proofs.Enclosure
import ArchiveRescue.Proofs.SourceReads
import ArchiveRescue.Proofs.Delivery
import ArchiveRescue.Proofs.Extent
import ArchiveRescue.Proofs.Wholeness
import ArchiveRescue.Proofs.Agreement
import ArchiveRescue.Proofs.Member
import ArchiveRescue.Proofs.ArchiveOnDisk
import ArchiveRescue.Proofs.Packing
import ArchiveRescue.Proofs.Bundling
import ArchiveRescue.Proofs.Verdict
import ArchiveRescue.Proofs.Decision
import ArchiveRescue.Proofs.Survival
import ArchiveRescue.Proofs.Ordinary
import ArchiveRescue.Proofs.Engines
import ArchiveRescue.Proofs.Similar
import ArchiveRescue.Proofs.OpenFile
import ArchiveRescue.Proofs.Twins
import ArchiveRescue.Proofs.Polling
import ArchiveRescue.Proofs.Modes
import ArchiveRescue.Proofs.Inscription
import ArchiveRescue.Proofs.Splitting
import ArchiveRescue.Proofs.Bookkeeping
import ArchiveRescue.Proofs.Atomicity
import ArchiveRescue.Proofs.Framing
import ArchiveRescue.Proofs.Naming
import ArchiveRescue.Proofs.MadeDirectories
import ArchiveRescue.Proofs.Residue
import ArchiveRescue.Proofs.ReadIndependence
import ArchiveRescue.Proofs.Gauge
