import StreamGauge.Json.Queries
import StreamGauge.Main
import StreamGauge.Region.Folder
import StreamGauge.Proofs.Scalar.RoundTrip
import StreamGauge.Proofs.Region.Bytes
import StreamGauge.Proofs.Region.Plain
import StreamGauge.Proofs.Region.BlockSum
import StreamGauge.Proofs.Region.View
import StreamGauge.Proofs.Exec.Range
import StreamGauge.Proofs.Exec.Emission
import StreamGauge.Proofs.Exec.Fold
import StreamGauge.Proofs.Exec.Fusion
import StreamGauge.Proofs.Exec.Window
import StreamGauge.Proofs.Exec.Cuts
import StreamGauge.Proofs.Exec.Join
import StreamGauge.Proofs.Exec.JoinRun
import StreamGauge.Proofs.Exec.Pointwise
import StreamGauge.Proofs.Exec.Run
import StreamGauge.Proofs.Exec.EmptyRange
import StreamGauge.Proofs.Exec.Filter
import StreamGauge.Proofs.Exec.Agreement
import StreamGauge.Proofs.Exec.Appending
import StreamGauge.Proofs.Exec.Overrun
import StreamGauge.Proofs.Exec.Committed
import StreamGauge.Proofs.Region.Protocol
import StreamGauge.Proofs.Region.Tiling
import StreamGauge.Proofs.Region.Storage
import StreamGauge.Proofs.Region.Values
import StreamGauge.Proofs.Region.Listing
import StreamGauge.Proofs.Region.Dump
import StreamGauge.Proofs.Compile.Traffic
import StreamGauge.Proofs.Query.Text
import StreamGauge.Proofs.Generator.Correlated
import StreamGauge.Proofs.Bench.Trial
import StreamGauge.Proofs.Bench.Overrun
import StreamGauge.Proofs.Bench.Output
import StreamGauge.Proofs.Bench.Average
import StreamGauge.Proofs.Bench.Variance
import StreamGauge.Proofs.Bench.Lifecycle
import StreamGauge.Proofs.Bench.Fleet
import StreamGauge.Proofs.Bench.TimeRange
import StreamGauge.Proofs.Exec.BlockFold
import StreamGauge.Proofs.Exec.Pipeline
import StreamGauge.Proofs.Exec.Search
import StreamGauge.Proofs.Decimal.Significant
