import Propolis.Lib.Bytes
import Propolis.Lib.Digits
import Propolis.Lib.Sha256
import Propolis.Lib.Lines
import Propolis.Lib.Utf8
import Propolis.Lib.Run
import Propolis.Lib.HashChain
import Propolis.Scoring.Domain
import Propolis.Scoring.Engine
import Propolis.Scoring.Evidence
import Propolis.Scoring.Bookkeeping
import Propolis.Scoring.AntiSpoof
import Propolis.Ledger.AddressText
import Propolis.Ledger.Tables
import Propolis.Ledger.Append
import Propolis.Ledger.BatchRefinement
import Propolis.Ledger.Runs
import Propolis.Ledger.Replay
import Propolis.Ledger.Hashing
import Propolis.Ledger.Chain
import Propolis.Ledger.Tamper
import Propolis.Gateway.Spool
import Propolis.Wire.Frame
import Propolis.Wire.Ack
import Propolis.Gateway.Verify
import Propolis.Gateway.Safety
import Propolis.Tailer.AppendOnly
import Propolis.Shipper.Batcher
import Propolis.Shipper.System
import Propolis.Shipper.Agreement
import Propolis.Shipper.InStep
import Propolis.Shipper.NoLoss
import Propolis.Shipper.Decoding
import Propolis.Tailer.LogTailer
import Propolis.Tailer.Reading
import Propolis.Tailer.Steady
import Propolis.Tailer.Exact
import Propolis.Tailer.Batch
import Propolis.Intake.Runner
import Propolis.Intake.Sorting
import Propolis.Intake.NoSkip
import Propolis.Intake.Quarantine
import Propolis.Intake.InOrder
import Propolis.Tailer.Held
import Propolis.Tailer.Noticing
import Propolis.Tailer.Rotating
import Propolis.Tailer.Rewinding
import Propolis.Tailer.Disk
import Propolis.Tailer.Copies
import Propolis.Tailer.Resuming
import Propolis.Feed.Publisher
import Propolis.Feed.Served
import Propolis.Feed.Builder
import Propolis.Lib.Process
import Propolis.Net.Reserved
import Propolis.Review.Gatekeeper
import Propolis.Review.Submission
import Propolis.Review.OnceADay
import Propolis.Fetcher.Store
import Propolis.Fetcher.Nodes
import Propolis.Fetcher.Exclusive
import Propolis.Fetcher.Spending
import Propolis.Fetcher.Lineage
import Propolis.Fetcher.Runs
import Propolis.Sensor.Emitter
import Propolis.Adb.Sync
import Propolis.Adb.Pushes
import Propolis.Lib.Keyed
import Propolis.Ssh.Scp
import Propolis.Ssh.Sftp
import Propolis.Ssh.Uploads
import Propolis.FakeFs.Budget
import Propolis.FakeFs.Tree
import Propolis.FakeFs.Steps
import Propolis.FakeFs.Coherent
import Propolis.FakeFs.Canonical
import Propolis.FakeFs.Charged
import Propolis.Lib.Threads
import Propolis.SessionMemory.Accounts
import Propolis.SessionMemory.Conserved
import Propolis.SessionMemory.Sheltered
import Propolis.SessionMemory.Spared
import Propolis.Sensor.Handoff
import Propolis.Sensor.Drained
import Propolis.Sensor.CaptureBudget
import Propolis.Sensor.SpoolBudget
import Propolis.Lib.Slices
import Propolis.OpsAlert.Debounce
import Propolis.Wire.Codec
import Propolis.Ledger.Isolation
import Propolis.Scoring.Reading
import Propolis.Review.Spacing
import Propolis.Tailer.Fitting
import Propolis.Tailer.Landing
import Propolis.Tailer.PartialCommit
import Propolis.Sensor.SourceFlood
import Propolis.Sensor.Gated
import Propolis.Supervisor.CrashLoop
import Propolis.Shell.Fields
import Propolis.Dns.Presentation
