import Moonclip.Library.Eviction
import Moonclip.Cast
import Moonclip.Delta
import Moonclip.Merger
import Moonclip.Recovery
import Moonclip.Tensor
import Moonclip.Library.Effect
import Moonclip.Library.Files
import Moonclip.RetentionLimits
import Moonclip.RetentionRuns
import Moonclip.JsonText
import Moonclip.Library.Tables
import Moonclip.Loading
import Moonclip.Packs
import Moonclip.Entries
import Moonclip.Archive
import Moonclip.Saving
import Moonclip.Snapshots
import Moonclip.Holding
import Moonclip.Keeping
import Moonclip.Saves
import Moonclip.Reopening
import Moonclip.Linked
import Moonclip.NewestKept
import Moonclip.Runs
import Moonclip.DtypeRules
import Moonclip.Library.Steps
import Moonclip.Pins
import Moonclip.Failures
import Moonclip.Finalizing
import Moonclip.Assembly
import Moonclip.Poisoning
import Moonclip.Remote
import Moonclip.Restoring
import Moonclip.Standing
import Moonclip.Threads
import Moonclip.Publishing
import Moonclip.Readmission
import Moonclip.Reclaiming
import Moonclip.RetainedBases
import Moonclip.Saver
import Moonclip.Library.Parties
import Moonclip.Transfers
import Moonclip.Library.Floating
import Moonclip.HalfPrecision
import Moonclip.Ledgers
import Moonclip.Lifetimes
import Moonclip.Layout
import Moonclip.SelfDescription
import Moonclip.PackWriters
import Moonclip.MergedPacks
import Moonclip.Described
import Moonclip.Globs
import Moonclip.WideLimits
import Moonclip.Streams
import Moonclip.Library.Buffers
import Moonclip.Pieces
import Moonclip.Library.Rounding
import Moonclip.Narrowing
import Moonclip.Float8
import Moonclip.Library.Substrings
import Moonclip.Listing
import Moonclip.Library.Dicts
import Moonclip.StateDicts
import Moonclip.Checkpoints
import Moonclip.MergedLoads
import Moonclip.Calls
import Moonclip.Interleavings
import Moonclip.Concurrency
import Moonclip.Corruption
import Moonclip.Library.Requests
import Moonclip.Requests
import Moonclip.Uploads
import Moonclip.Deliveries
import Moonclip.Services
