import VeStorage.Lib.Text
import VeStorage.Lib.CopyDelete
import VeStorage.Lib.Grouped
import VeStorage.Lib.Sorted
import VeStorage.Tos.Uri
import VeStorage.Tos.Filter
import VeStorage.Tos.Plan
import VeStorage.Tos.LocalPath
import VeStorage.Tos.Move.Machine
import VeStorage.Tos.Move.ManifestSafe
import VeStorage.Tos.Move.StreamSafe
import VeStorage.Tos.Move.Args
import VeStorage.Tos.Move.Remote
import VeStorage.Lib.Walk
import VeStorage.Lib.Pipelined
import VeStorage.Tos.Rm.Plan
import VeStorage.Tos.Rm.Select
import VeStorage.Tos.Transfer.Parts
import VeStorage.Tos.Download.Machine
import VeStorage.Tos.Download.AllOrNothing
import VeStorage.Tos.Multipart.Machine
import VeStorage.Tos.Multipart.Checkpoint
import VeStorage.Tos.Multipart.Resume
import VeStorage.Tos.Sync.Plan
import VeStorage.Tos.Sync.Safe
import VeStorage.ADrive.Path
import VeStorage.ADrive.Pattern
import VeStorage.ADrive.Rm
import VeStorage.Lib.Recorded
import VeStorage.ADrive.Uri
import VeStorage.ADrive.Plan
import VeStorage.ADrive.Checkpoint.Machine
import VeStorage.ADrive.Checkpoint.Store
import VeStorage.ADrive.Checkpoint.Converge
import VeStorage.ADrive.Checkpoint.History
import VeStorage.ADrive.Multipart.Machine
import VeStorage.ADrive.Multipart.Session
import VeStorage.ADrive.Multipart.Resume
import VeStorage.ADrive.Multipart.Correct
import VeStorage.Lib.Pool
import VeStorage.ADrive.Download.Machine
import VeStorage.ADrive.Download.Trusted
import VeStorage.ADrive.Download.Exact
import VeStorage.Lib.Paging
import VeStorage.Lib.Hierarchy
import VeStorage.Tos.Listing.Enumerate
import VeStorage.Tos.Listing.Complete
import VeStorage.Tos.Listing.Recursive
import VeStorage.Lib.Fingerprint
import VeStorage.Tos.Batch.Manifest
import VeStorage.Tos.Batch.Report
import VeStorage.Tos.Batch.Machine
import VeStorage.Tos.Batch.Ledger
import VeStorage.Tos.Batch.Run
import VeStorage.Tos.Batch.Accounted
import VeStorage.Lib.CrashIo
import VeStorage.Lib.RecordLog
import VeStorage.ADrive.Share.Journal
import VeStorage.ADrive.Share.Ledger
import VeStorage.ADrive.Share.Checkpoint
import VeStorage.ADrive.Share.Durable
import VeStorage.ADrive.Share.CrashSafe
import VeStorage.ADrive.Share.Upgrade
import VeStorage.ADrive.ShareDownload.Progress
import VeStorage.ADrive.ShareDownload.Settle
import VeStorage.ADrive.ShareDownload.Driver
import VeStorage.ADrive.ShareDownload.Scheduling
import VeStorage.ADrive.ShareDownload.Run
import VeStorage.ADrive.ShareDownload.Reach
import VeStorage.ADrive.ShareDownload.Scheduled
import VeStorage.ADrive.ShareDownload.Accounted
import VeStorage.ADrive.ShareDownload.Reported
import VeStorage.Lib.Collision
import VeStorage.Lib.Components
import VeStorage.ADrive.Share.Manifest
import VeStorage.ADrive.Share.Collide
import VeStorage.ADrive.Share.CollisionFree
import VeStorage.ADrive.Share.Policy
import VeStorage.Lib.Ordered
import VeStorage.ADrive.Share.Scan
import VeStorage.ADrive.Share.Facts
import VeStorage.ADrive.Share.Confluent
import VeStorage.Credentials.Store
import VeStorage.Credentials.RoundTrip
import VeStorage.Credentials.Updates
import VeStorage.Lib.Locks
import VeStorage.ADrive.Token.Manager
import VeStorage.ADrive.Token.Machine
import VeStorage.ADrive.Token.Steps
import VeStorage.ADrive.Token.Guarded
import VeStorage.ADrive.Token.Kept
import VeStorage.ADrive.Token.Fresh
import VeStorage.ADrive.Token.Spent
import VeStorage.ADrive.Token.SpentOnce
import VeStorage.Lib.Percent
import VeStorage.Lib.Url
import VeStorage.ADrive.Client.Request
import VeStorage.ADrive.Client.Signing
import VeStorage.ADrive.Client.Verified
import VeStorage.ADrive.Client.Addressed
import VeStorage.Tos.Client.Address
import VeStorage.Tos.Client.Signer
import VeStorage.Tos.Client.Verifier
import VeStorage.Tos.Client.Sent
import VeStorage.Tos.Client.Verified
import VeStorage.Tos.Client.Presigned
import VeStorage.Lib.Glob
import VeStorage.Tos.Glob
import VeStorage.Tos.Matcher
import VeStorage.ADrive.Matcher
import VeStorage.Lib.Layered
import VeStorage.Tos.BottomUp
import VeStorage.Lib.Csv
import VeStorage.Tos.RollingCsv
import VeStorage.Tos.Mapping
import VeStorage.Zti.Retained
import VeStorage.Lib.Requests
import VeStorage.ADrive.DirectoryUpload.Streamed
import VeStorage.ADrive.ShareAccess.Calls
import VeStorage.Tos.Payload.Equal
import VeStorage.ADrive.Share.Decode
import VeStorage.ADrive.ShareRange.Heals
import VeStorage.ADrive.ShareListing.Unskipped
import VeStorage.ADrive.Listing.Bounded
import VeStorage.Tos.Ls
import VeStorage.ADrive.ShareArtifacts.Validate
import VeStorage.ADrive.Share.Agree
import VeStorage.ADrive.Bandwidth.Limit
import VeStorage.ADrive.ShareContent.Bandwidth
import VeStorage.ADrive.ShareUrl.Sample
import VeStorage.ADrive.RequestId.Report
import VeStorage.Tos.Du.Traversal
import VeStorage.ADrive.ShareRange.Exact
import VeStorage.ADrive.Mapping
import VeStorage.Tos.Download.Crc64
import VeStorage.ADrive.Listing.Du
import VeStorage.ADrive.Sync.Exact
import VeStorage.ADrive.Token.Login
import VeStorage.ADrive.Move.Streamed
import VeStorage.ADrive.Client.Retry
