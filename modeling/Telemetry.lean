import Telemetry.Number.Binary64
import Telemetry.Number.Shortest
import Telemetry.Number.Read
import Telemetry.Text.Blank
import Telemetry.Text.Utf8
import Telemetry.Text.Hex
import Telemetry.Json.Basic
import Telemetry.Json.Reader
import Telemetry.Json.Decode
import Telemetry.Json.Writer
import Telemetry.Crypto.Sha256
import Telemetry.Metric.Kind
import Telemetry.Metric.Error
import Telemetry.Metric.Value
import Telemetry.Metric.Record
import Telemetry.Metric.Signature
import Telemetry.Store.Basic
import Telemetry.Settings.Duration
import Telemetry.Settings.Comments
import Telemetry.Agent.Transport
import Telemetry.Gzip.Crc32
import Telemetry.Gzip.Inflate
import Telemetry.Gzip.Member
import Telemetry.Text.Base64
import Telemetry.Crypto.Pem
import Telemetry.Crypto.Der
import Telemetry.Crypto.Rsa
import Telemetry.Envelope
import Telemetry.Net.Address
import Telemetry.Disk
import Telemetry.Settings.Toml
import Telemetry.Settings.File
import Telemetry.Settings.CommandLine
import Telemetry.Settings.Layer
import Telemetry.Server.Settings
import Telemetry.Agent.Settings
import Telemetry.Storage.Error
import Telemetry.Storage.Source
import Telemetry.Storage.Cell
import Telemetry.Storage.DatabaseFile
import Telemetry.Storage.Table
import Telemetry.Storage.Backend
import Telemetry.Server.Service
import Telemetry.Server.Http
import Telemetry.Server.Rpc
import Telemetry.Server.Traffic
import Telemetry.Agent.Reporter
import Telemetry.Main
import Telemetry.Proofs.Except
import Telemetry.Proofs.Store.Basic
import Telemetry.Proofs.Store.Batch
import Telemetry.Proofs.Store.Reachable
import Telemetry.Proofs.Store.Accumulate
import Telemetry.Proofs.Crypto.Blocks
import Telemetry.Proofs.Text.Utf8
import Telemetry.Proofs.Gzip.Stored
import Telemetry.Proofs.Json.Strings
import Telemetry.Proofs.Json.Numbers
import Telemetry.Proofs.Json.Documents
import Telemetry.Proofs.Metric.WireText
import Telemetry.Proofs.Envelope.RoundTrip
import Telemetry.Proofs.Agent.Accounting
import Telemetry.Proofs.Server.Parity
import Telemetry.Proofs.Disk.Replace
import Telemetry.Proofs.Store.Snapshot
import Telemetry.Proofs.Storage.ReadBack
import Telemetry.Proofs.Server.Restore
import Telemetry.Proofs.Metric.Signature
import Telemetry.Proofs.Metric.WireSize
import Telemetry.Proofs.Agent.Delivery
import Telemetry.Proofs.Metric.Tampering
import Telemetry.Proofs.Server.Recovery
import Telemetry.Proofs.Server.Requests
import Telemetry.Proofs.Server.Origin
import Telemetry.Proofs.Disk.Rewrite
import Telemetry.Proofs.Server.SyncWrite
import Telemetry.Proofs.Envelope.Stages
import Telemetry.Proofs.Crypto.KeyPair
import Telemetry.Proofs.Crypto.Oaep
import Telemetry.Proofs.Crypto.Sealing
import Telemetry.Proofs.Storage.History
import Telemetry.Proofs.Number.Exact
import Telemetry.Proofs.Settings.Duration
import Telemetry.Proofs.Settings.Layers
import Telemetry.Proofs.Agent.Chunks
import Telemetry.Proofs.Json.LineEnds
import Telemetry.Proofs.Settings.Comments
