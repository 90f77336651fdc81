import Cose.Cbor.Encoder.Container
import Cose.Header.Parameter

/-!
# Writing headers

The protected parameters are written as a map inside a byte string, the unprotected ones as a map
by themselves, each in the order of the list. The labels of critical parameters are listed in a
protected entry of their own, which is made from the parameters and never given among them.
-/

set_option autoImplicit false
set_option relaxedAutoImplicit false

namespace Cose

open Cbor

/-- The most labels that the list of critical labels holds. -/
def maxCriticalParameters : Nat := 4

/-- Append a value of native type, or one that is already encoded. -/
def appendNative (encoder : Encoder) : ParameterValue → Encoder
  | .int number => encoder.appendInt number
  | .text content => encoder.appendText content
  | .bytes content => encoder.appendBytes content
  | .small (.float number) => encoder.appendDouble number
  | .small (.bool truth) => encoder.appendBool truth
  | .small .null => encoder.appendNull
  | .small .undefined => encoder.appendUndefined
  | .encoded item => encoder.appendEncoded item
  | .written _ => encoder

/-- Write the entry of one parameter. -/
def encodeParameter (parameter : Parameter) : Session Unit := do
  match parameter.value with
  | .written writer => writer parameter.label parameter.isProtected parameter.isCritical
  | value => modify fun encoder ↦ appendNative (encoder.appendInt parameter.label) value
  Session.check

/-- Append the list of critical labels as a map entry, if there are any. -/
def appendCriticalLabels (encoder : Encoder) (critical : List Parameter) : Encoder :=
  if critical.isEmpty then encoder
  else
    let opened := (encoder.appendInt HeaderLabel.crit.code).openArray
    (critical.foldl (fun encoder parameter ↦ encoder.appendInt parameter.label) opened).closeArray

/-- Write both buckets, and tell where the content of the protected byte string stands. A critical
parameter must be protected, and nothing is written before that is checked. -/
def encodeHeaders (parameters : List Parameter) : Session Encoder.Span := do
  let critical := parameters.filter (·.isCritical)
  if critical.any (!·.isProtected) then throw .criticalInUnprotected
  if critical.length > maxCriticalParameters then throw .tooManyCriticalParameters
  if !critical.isEmpty && parameters.any (·.label == HeaderLabel.crit.code) then
    throw .duplicateParameter
  modify fun encoder ↦ encoder.openWrap.openMap
  (parameters.filter (·.isProtected)).forM encodeParameter
  modify fun encoder ↦ (appendCriticalLabels encoder critical).closeMap
  let span? ← modifyGet fun encoder ↦ encoder.closeWrap false
  modify Encoder.openMap
  (parameters.filter (!·.isProtected)).forM encodeParameter
  modify Encoder.closeMap
  Session.check
  match span? with
  | some span => return span
  | none => throw (.encode .closeMismatch)

end Cose
