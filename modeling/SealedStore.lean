import SealedStore.CommandLine.Help
import SealedStore.Main
import SealedStore.Proofs.Codec.RoundTrip
import SealedStore.Proofs.Codec.Normalising
import SealedStore.Proofs.Codec.Damage
import SealedStore.Proofs.Pickle.Loading
import SealedStore.Proofs.Pickle.Storing
import SealedStore.Proofs.Pickle.Remembering
import SealedStore.Proofs.Pickle.Placement
import SealedStore.Proofs.Pickle.Streams
import SealedStore.Proofs.Pickle.Truncation
import SealedStore.Proofs.Store.History
import SealedStore.Proofs.Store.Agreement
import SealedStore.Proofs.Harness.RoundTrip
import SealedStore.Proofs.Harness.Verifying
import SealedStore.Proofs.Codec.Identity
import SealedStore.Proofs.Json.Tokens
import SealedStore.Proofs.Store.Failures
import SealedStore.Proofs.Json.RoundTrip
import SealedStore.Proofs.Text.Controls
import SealedStore.Proofs.Value.Json
import SealedStore.Proofs.Harness.Lines
import SealedStore.Proofs.Store.ReadBack
import SealedStore.Proofs.Codec.Blob
import SealedStore.Proofs.Codec.Limits
import SealedStore.Proofs.Codec.Delimiting
import SealedStore.Proofs.Pickle.Holding
import SealedStore.Proofs.Pickle.Failing
import SealedStore.Proofs.Pickle.Joining
import SealedStore.Proofs.Pickle.Nesting
import SealedStore.Proofs.Pickle.Batches
import SealedStore.Proofs.Store.Writing
import SealedStore.Proofs.Value.Build
import SealedStore.Proofs.Store.Listing
import SealedStore.Proofs.Harness.Refused
import SealedStore.Proofs.Harness.Sinks
import SealedStore.Proofs.Value.LineBreaks
import SealedStore.Proofs.Harness.PrintedLines
import SealedStore.Proofs.Value.Dictionary
import SealedStore.Proofs.Value.PrintedForm
import SealedStore.Proofs.Value.Record
import SealedStore.Proofs.Console.HexDump
import SealedStore.Proofs.Codec.VarintSum
import SealedStore.Proofs.Pickle.Containment
