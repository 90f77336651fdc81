import Cose.Error

/-!
# Tags of messages

A message may carry the tag of its kind. `TagPolicy` says how a reader takes that, and
`TagPolicy.check` checks the tags of the outer item of a message.
-/

set_option autoImplicit false
set_option relaxedAutoImplicit false

namespace Cose

open Cbor

/-- How the tag of a message is treated when it is read. -/
inductive TagPolicy where
  /-- The message must carry its tag. -/
  | required
  /-- The message must carry no tag. -/
  | prohibited
  /-- The message may carry its tag. -/
  | optional
deriving DecidableEq, Repr

instance : Inhabited TagPolicy := ⟨.optional⟩

/-- Check the tags of an item. Only the one expected tag is ever admitted, and only alone. -/
def TagPolicy.check (policy : TagPolicy) (tag : UInt64) (item : Item) : Except Error Unit :=
  match policy, item.tags with
  | .required, [] => .error (.missingTag tag)
  | .prohibited, [] => .ok ()
  | .optional, [] => .ok ()
  | .prohibited, first :: _ => .error (.unexpectedTag first)
  | .required, [only] => if only = tag then .ok () else .error (.unexpectedTag only)
  | .optional, [only] => if only = tag then .ok () else .error (.unexpectedTag only)
  | .required, first :: _ :: _ => .error (.unexpectedTag first)
  | .optional, first :: _ :: _ => .error (.unexpectedTag first)

end Cose
