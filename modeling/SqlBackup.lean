import SqlBackup.Backup.Creation
import SqlBackup.Backup.Restoration
import SqlBackup.Calendar.Instant
import SqlBackup.Codec.Gzip
import SqlBackup.Codec.Reading
import SqlBackup.Codec.Writing
import SqlBackup.Codec.Zstd.Block
import SqlBackup.Codec.Zstd.Frame
import SqlBackup.Codec.Zstd.PrefixTable
import SqlBackup.Config.Directories
import SqlBackup.Config.Loading
import SqlBackup.Digest.Crc32
import SqlBackup.Digest.Sha256
import SqlBackup.Digest.XxHash64
import SqlBackup.Dump.Format
import SqlBackup.Dump.Inspect
import SqlBackup.Export.Database
import SqlBackup.Job
import SqlBackup.Json.Record
import SqlBackup.Load.Batch
import SqlBackup.Load.Dump
import SqlBackup.Manifest.Storage
import SqlBackup.Output.Buffered
import SqlBackup.Pool
import SqlBackup.Progress.Bars
import SqlBackup.Proofs.Backup.Access
import SqlBackup.Proofs.Backup.Apart
import SqlBackup.Proofs.Backup.Confinement
import SqlBackup.Proofs.Backup.Lifecycle
import SqlBackup.Proofs.Backup.Listing
import SqlBackup.Proofs.Backup.Progress
import SqlBackup.Proofs.Backup.Removal
import SqlBackup.Proofs.Backup.Verifying
import SqlBackup.Proofs.Dump.Pieces
import SqlBackup.Proofs.Dump.Rows
import SqlBackup.Proofs.Dump.Sealed
import SqlBackup.Proofs.Export.Failing
import SqlBackup.Proofs.Export.Naming
import SqlBackup.Proofs.Export.Outlet
import SqlBackup.Proofs.Export.ReadBack
import SqlBackup.Proofs.Export.Snapshot
import SqlBackup.Proofs.Job.Dialogue
import SqlBackup.Proofs.Json.Passing
import SqlBackup.Proofs.Load.Failing
import SqlBackup.Proofs.Load.Offsets
import SqlBackup.Proofs.Load.Reading
import SqlBackup.Proofs.Load.Refusal
import SqlBackup.Proofs.Load.Renaming
import SqlBackup.Proofs.Load.Resume
import SqlBackup.Proofs.Manifest.Members
import SqlBackup.Proofs.Number.Digits
import SqlBackup.Proofs.Output.Buffered
import SqlBackup.Proofs.Pool.Schedule
import SqlBackup.Proofs.Pool.Verdicts
import SqlBackup.Proofs.Scan.Boundaries
import SqlBackup.Proofs.Scan.Chunks
import SqlBackup.Proofs.Scan.Insertion
import SqlBackup.Proofs.Scan.Limits
import SqlBackup.Proofs.Scan.Offsets
import SqlBackup.Proofs.Scan.Reference
import SqlBackup.Proofs.Scan.Registers
import SqlBackup.Proofs.Scan.Resume
import SqlBackup.Proofs.Scripted.Walk
import SqlBackup.Proofs.Text.Encoding
import SqlBackup.Scan.Scanner
import SqlBackup.Scripted.Host
import SqlBackup.Sizing
import SqlBackup.Sql.Statements
import SqlBackup.TableFilter
import SqlBackup.Value.Literal
import SqlBackup.Yaml.Block
import SqlBackup.Yaml.Document
import SqlBackup.Yaml.Flow
