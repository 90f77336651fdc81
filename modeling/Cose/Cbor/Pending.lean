/-!
# Items still to come

What a level of nesting expects while an encoding is read: a known number of items, or all items
up to a break.
-/

set_option autoImplicit false
set_option relaxedAutoImplicit false

namespace Cose.Cbor

/-- The items still to come at one level of nesting. -/
inductive Pending where
  | items (count : Nat)
  | untilBreak
deriving DecidableEq, Repr

/-- One item fewer. -/
def Pending.pred : Pending → Pending
  | items count => items (count - 1)
  | untilBreak => untilBreak

end Cose.Cbor
