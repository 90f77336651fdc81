import Cose.Message.Encrypt0
import Cose.Message.Mac0
import Cose.Message.Sign1
import Cose.Cbor.Decoder.Tree
import Cose.Cbor.Encoder.Tree
import Cose.Header.Description
import Cose.Structure.KeyDerivation
import Cose.Proofs.Cbor.Canonical
import Cose.Proofs.Cbor.Decoder.Boundaries
import Cose.Proofs.Cbor.Decoder.Capture
import Cose.Proofs.Cbor.Decoder.Lookahead
import Cose.Proofs.Cbor.Decoder.Safety
import Cose.Proofs.Cbor.Rearrangement
import Cose.Proofs.Cbor.Reencoding
import Cose.Proofs.Cbor.Sorting
import Cose.Proofs.Cbor.Stability
import Cose.Proofs.Float.Words
import Cose.Proofs.Header.Coupling
import Cose.Proofs.Header.Critical
import Cose.Proofs.Header.Distinct
import Cose.Proofs.Header.Integrity
import Cose.Proofs.Header.Invariant
import Cose.Proofs.Header.RoundTrip
import Cose.Proofs.Magnitude.Neighbours
import Cose.Proofs.Message.Agreement
import Cose.Proofs.Message.Composition
import Cose.Proofs.Message.Framing
import Cose.Proofs.Session.BigNumbers
import Cose.Proofs.Session.ByteStrings
import Cose.Proofs.Session.Capacity
import Cose.Proofs.Session.Checked
import Cose.Proofs.Session.Failure
import Cose.Proofs.Session.Heads
import Cose.Proofs.Session.Measuring
import Cose.Proofs.Session.Numbers
import Cose.Proofs.Session.Precision
import Cose.Proofs.Session.Region
import Cose.Proofs.Structure.Separation
