import Cose.Cbor.Encoder.Scalar
import Cose.Error

/-!
# Structures that cryptography works on

Signatures, authentication tags and additional data are computed over encoded arrays that are made
for that purpose and never sent. A structure is described by the operations that append it to an
encoding session. It can be built whole, written into a region of fixed capacity, or measured.
-/

set_option autoImplicit false
set_option relaxedAutoImplicit false

namespace Cose

open Cbor

/-- The encoding that some operations produce in a fresh session. -/
def build (append : Encoder → Encoder) : Except Error Bytes :=
  (append (.growable .preferred)).finish.mapError Error.encode

/-- The encoding that some operations write into a fresh region of fixed capacity. -/
def buildWithin (capacity : Nat) (append : Encoder → Encoder) : Except Error Bytes :=
  (append (.fixed capacity .preferred)).finish.mapError Error.encode

/-- The length of the encoding that some operations produce. -/
def buildSize (append : Encoder → Encoder) : Except Error Nat :=
  (append (.sizeOnly .preferred)).finishSize.mapError Error.encode

/-- The parts of a byte string as they are fed to a hash: its head and its content. -/
def bytesChunks (content : Bytes) : List Bytes :=
  [encodeHead .bytes (UInt64.ofNat content.length) 0, content]

/-- Feed the parts of a structure to a sink, one after the other. -/
def feed {σ : Type} (chunks : List Bytes) (update : σ → Bytes → σ) (sink : σ) : σ :=
  chunks.foldl update sink

end Cose
