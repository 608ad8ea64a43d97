import ForeignCall.Atlas
import ForeignCall.Session
import ForeignCall.Settings.Configuration
import ForeignCall.Text.Hexadecimal
import ForeignCall.Abi.Classification
import ForeignCall.Layout.Builder
import ForeignCall.Proofs.Callback.Run
import ForeignCall.Proofs.Call.Faults
import ForeignCall.Proofs.Call.Loopback
import ForeignCall.Proofs.Call.Errno
import ForeignCall.Proofs.Struct.RoundTrip
import ForeignCall.Proofs.Layout.Lanes
import ForeignCall.Proofs.Layout.Alignment
import ForeignCall.Proofs.Struct.Untouched
import ForeignCall.Proofs.Struct.Bounds
import ForeignCall.Proofs.Memory.Release
import ForeignCall.Proofs.Memory.Refusal
import ForeignCall.Proofs.Memory.StringArrays
import ForeignCall.Proofs.Struct.Retention
import ForeignCall.Proofs.Struct.Stored
import ForeignCall.Proofs.Struct.ByValue
import ForeignCall.Proofs.Call.Helper
import ForeignCall.Proofs.Call.Liveness
import ForeignCall.Proofs.Callback.Failing
import ForeignCall.Proofs.Callback.CodeViews
import ForeignCall.Proofs.Memory.Adoption
import ForeignCall.Proofs.Call.Prepared
import ForeignCall.Proofs.Call.Promotion
import ForeignCall.Proofs.Memory.Copying
import ForeignCall.Proofs.Callback.Ledger
import ForeignCall.Proofs.Call.Addresses
import ForeignCall.Proofs.Call.Enumerations
import ForeignCall.Proofs.Abi.Aggregates
import ForeignCall.Proofs.Call.Interleaving
import ForeignCall.Proofs.Memory.Rounding
