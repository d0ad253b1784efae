import Safepoint.Scenario.Play
import Safepoint.Memory.Pool
import Safepoint.Proofs.Machine.Moves
import Safepoint.Proofs.System
import Safepoint.Proofs.HostCall
import Safepoint.Proofs.Machine.Posture
import Safepoint.Proofs.System.Invariant
import Safepoint.Proofs.Interjection.Order
import Safepoint.Proofs.System.Safepoint
import Safepoint.Proofs.Interjection.Delivery
import Safepoint.Proofs.Cancellation.Raising
import Safepoint.Proofs.Cancellation.Delivery
import Safepoint.Proofs.Cancellation.Unwinding
import Safepoint.Proofs.Cancellation.Stopping
import Safepoint.Proofs.Cancellation.LetThrough
import Safepoint.Proofs.Cancellation.Message
import Safepoint.Proofs.Machine.Layout
import Safepoint.Proofs.System.Steady
import Safepoint.Proofs.Isolation
import Safepoint.Proofs.Memory.Ledger
import Safepoint.Proofs.Memory.Heap
import Safepoint.Proofs.Memory.Store
import Safepoint.Proofs.Memory.Values
import Safepoint.Proofs.Memory.Machine
import Safepoint.Proofs.Fleet
import Safepoint.Proofs.Memory.Fleet
import Safepoint.Proofs.Memory.Accounts
import Safepoint.Proofs.Memory.Balance
import Safepoint.Proofs.Memory.Teardown
import Safepoint.Proofs.Handles
import Safepoint.Proofs.Reentry
import Safepoint.Proofs.Machine.Limits
import Safepoint.Proofs.Safety
import Safepoint.Proofs.Transparency.Machine
import Safepoint.Proofs.Transparency
import Safepoint.Proofs.Encoding.SingleByte
import Safepoint.Proofs.Encoding.Utf16
import Safepoint.Proofs.Encoding
import Safepoint.Proofs.Interjection.Pass
import Safepoint.Proofs.Interjection.Law
import Safepoint.Proofs.Protection.Call
import Safepoint.Proofs.Protection.Uncaught
import Safepoint.Proofs.Protection
import Safepoint.Proofs.Overflow
import Safepoint.Proofs.Memory.Pool
import Safepoint.Proofs.System.Armed
import Safepoint.Proofs.Interjection.Credit
import Safepoint.Proofs.Interjection.Cost
import Safepoint.Proofs.Termination.Forward
import Safepoint.Proofs.Termination.Steps
import Safepoint.Proofs.Termination
import Safepoint.Proofs.Handshake
