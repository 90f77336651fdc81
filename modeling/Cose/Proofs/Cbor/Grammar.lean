import Mathlib.Tactic.Common
import Cose.Cbor.Decoder.Basic
import Cose.Cbor.Encoder.Scalar
import Cose.Proofs.Cbor.Argument

/-!
# The grammar of well-formed encodings

A `Node` is one item as it stands in an encoding: its tags, a token, and the nodes below it. A
`Token` is what is read at once, a `Leaf` or the opening of an array or map, and every head keeps
the width it is written in, so a node determines its bytes (`Node.encoded`). `Node.WellFormed`
says that the members are as many as the token announces and that the limits of the library are
kept at a nesting level.

`Node.visits` is the traversal in which a cursor delivers the items of a node, each with its
level and tags, a container before its members. `link` adds to each visit the level of the one
that follows.
-/

set_option autoImplicit false
set_option relaxedAutoImplicit false

namespace Cose.Cbor

/-! ### Leaves -/

/-- An item without members, with the head it is written with. A string knows that its head
announces its length, and a simple value below 32 has no second byte. -/
inductive Leaf where
  | unsigned (argument : Argument)
  | negative (argument : Argument)
  | bytes (length : Argument) (content : Bytes)
      (hlength : length.number.toNat = content.length)
  | text (length : Argument) (content : String)
      (hlength : length.number.toNat = content.utf8ByteSize)
  | simple (number : UInt8) (hnumber : number.toNat < 20 ∨ 32 ≤ number.toNat)
  | bool (truth : Bool)
  | null
  | undefined
  | half (number : Float.Half)
  | single (number : Float.Single)
  | double (number : Float.Double)

namespace Leaf

/-- The major type of a leaf. -/
def major : Leaf → Major
  | unsigned _ => .unsigned
  | negative _ => .negative
  | bytes _ _ _ => .bytes
  | text _ _ _ => .text
  | simple _ _ => .simple
  | bool _ => .simple
  | null => .simple
  | undefined => .simple
  | half _ => .simple
  | single _ => .simple
  | double _ => .simple

/-- The argument in the head of a leaf. -/
def argument : Leaf → Argument
  | unsigned argument => argument
  | negative argument => argument
  | bytes length _ _ => length
  | text length _ _ => length
  | simple number _ => .shortest number.toUInt64
  | bool truth => .shortest (if truth then simpleTrue else simpleFalse).toUInt64
  | null => .shortest simpleNull.toUInt64
  | undefined => .shortest simpleUndefined.toUInt64
  | half number => .ofWord16 number.bits
  | single number => .ofWord32 number.bits
  | double number => .ofWord64 number.bits

/-- The bytes behind the head of a leaf. -/
def content : Leaf → Bytes
  | bytes _ content _ => content
  | text _ content _ => content.toUTF8.toList
  | _ => []

/-- The value that a leaf is delivered as. -/
def value : Leaf → ItemValue
  | unsigned argument => .unsigned argument.number
  | negative argument => .negative argument.number
  | bytes _ content _ => .bytes content
  | text _ content _ => .text content
  | simple number _ => .simple number
  | bool truth => .bool truth
  | null => .null
  | undefined => .undefined
  | half number => .float number.toDouble
  | single number => .float number.toDouble
  | double number => .float number

/-- A byte string with the shortest head. -/
def ofBytes (content : Bytes) (hlength : content.length < 2 ^ 64) : Leaf :=
  .bytes (.shortest (UInt64.ofNat content.length)) content (UInt64.toNat_ofNat_of_lt' hlength)

/-- A text string with the shortest head. -/
def ofText (content : String) (hlength : content.utf8ByteSize < 2 ^ 64) : Leaf :=
  .text (.shortest (UInt64.ofNat content.utf8ByteSize)) content (UInt64.toNat_ofNat_of_lt' hlength)

end Leaf

/-! ### Tokens -/

/-- What is read at once behind the tags of an item: a leaf, or the opening of an array or map
of definite or indefinite length. -/
inductive Token where
  | leaf (atom : Leaf)
  | definite (isMap : Bool) (count : Argument)
  | indefinite (isMap : Bool)

/-- The major type of an array or map. -/
def containerMajor (isMap : Bool) : Major := if isMap then .map else .array

namespace Token

/-- The head of a token. -/
def head : Token → Bytes
  | leaf atom => atom.argument.head atom.major
  | definite isMap count => count.head (containerMajor isMap)
  | indefinite isMap => [indefiniteHead (containerMajor isMap)]

/-- The bytes of a token behind its head. -/
def content : Token → Bytes
  | leaf atom => atom.content
  | definite _ _ => []
  | indefinite _ => []

/-- The bytes of a token. -/
def encoded (token : Token) : Bytes := token.head ++ token.content

/-- The bytes behind the members. -/
def closing : Token → Bytes
  | leaf _ => []
  | definite _ _ => []
  | indefinite _ => [breakByte]

/-- The value that a token is delivered as. -/
def value : Token → ItemValue
  | leaf atom => atom.value
  | definite isMap count => if isMap then .map (some count.number) else .array (some count.number)
  | indefinite isMap => if isMap then .map none else .array none

/-- The opening of an array or map of definite length, which announces a number of members or
pairs with the shortest head. -/
def counting (isMap : Bool) (count : Nat) : Token :=
  .definite isMap (.shortest (UInt64.ofNat count))

/-- Whether a token may be followed by a number of members. -/
def Holds : Token → (members : Nat) → Prop
  | leaf _, members => members = 0
  | definite isMap count, members =>
    members = if isMap then 2 * count.number.toNat else count.number.toNat
  | indefinite isMap, members => isMap = true → members % 2 = 0

/-- Whether a token keeps the limits of the library at a nesting level. -/
def Fits : Token → (level : Nat) → Prop
  | leaf _, _ => True
  | definite _ count, level => level < maxNesting ∧ count.number.toNat ≤ maxItems
  | indefinite _, level => level < maxNesting

end Token

/-- The bytes of tags, outermost first. -/
def encodedTags (tags : List Argument) : Bytes := tags.flatMap (·.head .tag)

/-! ### Nodes -/

/-- An item with everything below it. The members of a map are its labels and values in turn. -/
inductive Node where
  | mk (tags : List Argument) (token : Token) (members : List Node)

/-- An item as a cursor delivers it, without a look at what follows. -/
structure Visit where
  value : ItemValue
  /-- The nesting level of the item. -/
  level : Nat
  /-- The tag numbers on the item, outermost first. -/
  tags : List UInt64
deriving DecidableEq, Repr

namespace Node

mutual

/-- The bytes of a node. -/
def encoded : Node → Bytes
  | mk tags token members =>
    encodedTags tags ++ token.encoded ++ encodedAll members ++ token.closing

/-- The bytes of nodes one after the other. -/
def encodedAll : List Node → Bytes
  | [] => []
  | node :: rest => node.encoded ++ encodedAll rest

end

mutual

/-- Whether a node keeps the rules of the format and the limits of the library at a level. -/
def WellFormed : (level : Nat) → Node → Prop
  | level, mk tags token members =>
    tags.length ≤ maxTags ∧ token.Fits level ∧ token.Holds members.length ∧
      AllWellFormed (level + 1) members

/-- Whether all nodes of a list are well-formed at a level. -/
def AllWellFormed : (level : Nat) → List Node → Prop
  | _, [] => True
  | level, node :: rest => node.WellFormed level ∧ AllWellFormed level rest

end

mutual

/-- The items of a node in the order in which they are delivered. -/
def visits : (level : Nat) → Node → List Visit
  | level, mk tags token members =>
    ⟨token.value, level, tags.map (·.number)⟩ :: visitsAll (level + 1) members

/-- The items of several nodes in the order in which they are delivered. -/
def visitsAll : (level : Nat) → List Node → List Visit
  | _, [] => []
  | level, node :: rest => node.visits level ++ visitsAll level rest

end

end Node

/-- The level of the first of some visits, zero if there is none. -/
def headLevel : List Visit → Nat
  | [] => 0
  | visit :: _ => visit.level

/-- The items of a whole traversal: each visit with the level of the one that follows. -/
def link : List Visit → List Item
  | [] => []
  | visit :: rest => ⟨visit.value, visit.level, headLevel rest, visit.tags⟩ :: link rest

/-! ### First bytes -/

/-- A head does not start like a break. -/
theorem Argument.exists_cons_head (argument : Argument) (major : Major) :
    ∃ first rest, argument.head major = first :: rest ∧ first ≠ breakByte := by
  refine ⟨_, _, rfl, fun hbreak ↦ ?_⟩
  have hinitial := argument.toNat_initial major
  have hinfo : argument.info < 28 := Width.info_lt argument.lt_bound
  have hcode := major.code_lt
  rw [hbreak] at hinitial
  change 255 = _ at hinitial
  omega

theorem Token.exists_cons_head (token : Token) :
    ∃ first rest, token.head = first :: rest ∧ first ≠ breakByte := by
  cases token with
  | leaf atom => exact atom.argument.exists_cons_head atom.major
  | definite isMap count => exact count.exists_cons_head (containerMajor isMap)
  | indefinite isMap => cases isMap <;> exact ⟨_, [], rfl, by decide⟩

/-- Tags and a token together do not start like a break, and are not empty. -/
theorem exists_cons_opening (tags : List Argument) (token : Token) :
    ∃ first rest, encodedTags tags ++ token.encoded = first :: rest ∧ first ≠ breakByte := by
  cases tags with
  | nil =>
    obtain ⟨first, rest, hhead, hfirst⟩ := token.exists_cons_head
    exact ⟨first, rest ++ token.content, by simp [encodedTags, Token.encoded, hhead], hfirst⟩
  | cons tag tags =>
    obtain ⟨first, rest, hhead, hfirst⟩ := tag.exists_cons_head .tag
    exact ⟨first, rest ++ encodedTags tags ++ token.encoded,
      by simp [encodedTags, hhead], hfirst⟩

namespace Node

/-- A node is not empty and does not start like a break. -/
theorem exists_cons_encoded (node : Node) :
    ∃ first rest, node.encoded = first :: rest ∧ first ≠ breakByte := by
  obtain ⟨tags, token, members⟩ := node
  obtain ⟨first, rest, hopening, hfirst⟩ := exists_cons_opening tags token
  exact ⟨first, rest ++ encodedAll members ++ token.closing, by simp [encoded, hopening], hfirst⟩

theorem length_encoded_pos (node : Node) : 0 < node.encoded.length := by
  obtain ⟨first, rest, hencoded, _⟩ := node.exists_cons_encoded
  simp [hencoded]

/-! ### Nodes without members -/

/-- A leaf without tags. -/
def leaf (atom : Leaf) : Node := mk [] (.leaf atom) []

theorem encoded_leaf (atom : Leaf) :
    (leaf atom).encoded = atom.argument.head atom.major ++ atom.content := by
  simp [leaf, encoded, encodedAll, encodedTags, Token.encoded, Token.head, Token.content,
    Token.closing]

theorem wellFormed_leaf (level : Nat) (atom : Leaf) : (leaf atom).WellFormed level :=
  ⟨Nat.zero_le _, trivial, rfl, trivial⟩

/-! ### Containers that announce their members -/

theorem toNat_count {count : Nat} (hcount : count ≤ maxItems) :
    (UInt64.ofNat count).toNat = count :=
  UInt64.toNat_ofNat_of_lt' (Nat.lt_of_le_of_lt hcount (by decide))

theorem fits_counting (isMap : Bool) {count level : Nat} (hlevel : level < maxNesting)
    (hcount : count ≤ maxItems) : (Token.counting isMap count).Fits level := by
  refine ⟨hlevel, ?_⟩
  rwa [Argument.number_shortest, toNat_count hcount]

theorem holds_counting {isMap : Bool} {count members : Nat} (hcount : count ≤ maxItems)
    (hmembers : members = if isMap then 2 * count else count) :
    (Token.counting isMap count).Holds members := by
  rwa [Token.counting, Token.Holds, Argument.number_shortest, toNat_count hcount]

theorem wellFormed_counting {tags : List Argument} (htags : tags.length ≤ maxTags) {isMap : Bool}
    {count level : Nat} (hlevel : level < maxNesting) (hcount : count ≤ maxItems)
    {members : List Node} (hmembers : members.length = if isMap then 2 * count else count)
    (hall : AllWellFormed (level + 1) members) :
    (mk tags (.counting isMap count) members).WellFormed level :=
  ⟨htags, fits_counting isMap hlevel hcount, holds_counting hcount hmembers, hall⟩

theorem encoded_counting (tags : List Argument) (isMap : Bool) (count : Nat)
    (members : List Node) :
    (mk tags (.counting isMap count) members).encoded =
      encodedTags tags ++ ((Argument.shortest (UInt64.ofNat count)).head (containerMajor isMap) ++
        encodedAll members) := by
  simp [Token.counting, encoded, Token.encoded, Token.head, Token.content, Token.closing]

/-! ### Lists of nodes -/

@[simp]
theorem encodedAll_append (left right : List Node) :
    encodedAll (left ++ right) = encodedAll left ++ encodedAll right := by
  induction left with
  | nil => rfl
  | cons node rest ih => simp [encodedAll, ih]

theorem flatten_map_encoded (nodes : List Node) :
    (nodes.map encoded).flatten = encodedAll nodes := by
  induction nodes with
  | nil => rfl
  | cons node rest ih => rw [List.map_cons, List.flatten_cons, ih, encodedAll]

theorem allWellFormed_iff {level : Nat} {nodes : List Node} :
    AllWellFormed level nodes ↔ ∀ node ∈ nodes, node.WellFormed level := by
  induction nodes with
  | nil => simp [AllWellFormed]
  | cons node rest ih => simp [AllWellFormed, ih]

end Node

end Cose.Cbor
