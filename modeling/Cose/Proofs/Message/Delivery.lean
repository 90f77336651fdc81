import Mathlib.Tactic.Common
import Cose.Expect
import Cose.Proofs.Header.Reading
import Cose.Proofs.Message.Assembly

/-!
# Messages as they are read

A message is read as the node that it was written as. `exists_delivery` covers its tag and its
headers, which all kinds of messages have in common: the protected bytes are those of the sender,
and the cursor is left before the items behind the headers. The content of a message is one of
these, or null stands for it (`exists_contentLeaf`).
-/

set_option autoImplicit false
set_option relaxedAutoImplicit false

namespace Cose

open Cbor Node Decoder

/-! ### Tags and the outer array -/

/-- Whether a policy takes a message with its tag, or without it. -/
def TagPolicy.Takes (policy : TagPolicy) (isTagged : Bool) : Prop :=
  policy = .optional ∨ policy = if isTagged then .required else .prohibited

/-- The node of a message around its members. -/
def messageNode (tag? : Option MessageTag) (members : List Node) : Node :=
  .mk (tag?.toList.map fun tag ↦ .shortest tag.number) (.counting false members.length) members

theorem encoded_messageNode (rules : Rules) (tag? : Option MessageTag) (members : List Node) :
    (messageNode tag? members).encoded =
      tagHead tag? ++ Container.array.enclose rules (members.map encoded) := by
  have htags : encodedTags (tag?.toList.map fun tag ↦ Argument.shortest tag.number) =
      tagHead tag? := by
    cases tag? with
    | none => rfl
    | some tag => exact List.append_nil _
  rw [messageNode, encoded_counting, htags, ← flatten_map_encoded, Container.enclose,
    List.length_map]
  rfl

theorem wellFormed_messageNode (tag? : Option MessageTag) {members : List Node}
    (hfew : members.length ≤ maxItems) (hmembers : AllWellFormed 1 members) :
    (messageNode tag? members).WellFormed 0 := by
  refine wellFormed_counting ?_ (by decide) hfew rfl hmembers
  cases tag? <;> simp [maxTags]

/-- The tag of a message passes a policy that takes it. -/
theorem check_tag_eq_ok {policy : TagPolicy} {isTagged : Bool} (hpolicy : policy.Takes isTagged)
    (tag : MessageTag) {item : Item}
    (htags : item.tags = (if isTagged then some tag else none).toList.map (·.number)) :
    policy.check tag.number item = .ok () := by
  unfold TagPolicy.check
  cases isTagged with
  | false =>
    have hplain : item.tags = [] := htags
    rw [hplain]
    obtain rfl | rfl : policy = .optional ∨ policy = .prohibited := hpolicy
    · rfl
    · rfl
  | true =>
    have htagged : item.tags = [tag.number] := htags
    rw [htagged]
    obtain rfl | rfl : policy = .optional ∨ policy = .required := hpolicy
    · exact if_pos rfl
    · exact if_pos rfl

/-- The outer array of a message is entered. -/
theorem run_readMessageArray {policy : TagPolicy} {message : Message}
    (hpolicy : policy.Takes message.isTagged) (tag : MessageTag) {members : List Node}
    (hfew : members.length ≤ maxItems) (hmembers : AllWellFormed 1 members) :
    ∃ after, (readMessageArray policy tag (UInt64.ofNat members.length)).run
        (ofBytes (messageNode (message.tag? tag) members).encoded) = .ok () after ∧
      after.Faces [] members [] := by
  obtain ⟨item, after, hnext, hvalue, htags, _, hfaces⟩ :=
    next_top (opensLevel_definite false (.shortest (UInt64.ofNat members.length)))
      (wellFormed_messageNode (message.tag? tag) hfew hmembers)
  have hcheck : policy.check tag.number item = .ok () := by
    refine check_tag_eq_ok hpolicy tag ?_
    rw [htags, List.map_map]
    rfl
  have harray : expectArray item (UInt64.ofNat members.length) = .ok () := by
    rw [expectArray, hvalue]
    exact if_pos rfl
  exact ⟨after, Reading.run_bind (Reading.run_next hnext)
    (Reading.run_bind (Reading.run_ofExcept hcheck after) (Reading.run_ofExcept harray after)),
    hfaces⟩

/-! ### Delivery of a message -/

section Delivery

variable {rules : Rules} {message : Message}

/-- A message that was written is read up to the items behind its headers, and the protected bytes
are those of the sender. -/
theorem exists_delivery (hrules : rules.KeepsNumbers) (hconveyable : Conveyable message.parameters)
    {headers : HeaderItems} (hheaders : encodeHeaderItems rules message.parameters = .ok headers)
    {tag : MessageTag} {nodes : List Node} (hfew : nodes.length + 2 ≤ maxItems)
    (hnodes : AllWellFormed 1 nodes) {policy : TagPolicy}
    (hpolicy : policy.Takes message.isTagged) {capacity : Nat}
    (hcapacity : message.parameters.length ≤ capacity) :
    ∃ opened received after,
      (readMessageArray policy tag (UInt64.ofNat (nodes.length + 2))).run
        (ofBytes (messageBytes rules (message.tag? tag) headers (nodes.map encoded))) =
          .ok () opened ∧
      (readHeaders [] capacity).run opened = .ok received after ∧
      received.protectedBytes = headers.protectedBytes ∧ after.Faces [] nodes [] := by
  obtain ⟨first, second, length, hlength, hfirst, hsecond, hprotected, hitem, hunprotected⟩ :=
    exists_headerNodes hrules hconveyable hheaders
  let members := leaf (.bytes length first.node.encoded hlength) :: second.node :: nodes
  have hmembers : AllWellFormed 1 members := ⟨wellFormed_leaf 1 _, hsecond, hnodes⟩
  have hcount : members.length ≤ maxItems := hfew
  obtain ⟨opened, hopened, hfaces⟩ := run_readMessageArray hpolicy tag hcount hmembers
  obtain ⟨after, hreceived, hafter⟩ :=
    readHeaders_of_faces hconveyable.toWellLabelled hcapacity first hfirst second hlength hfaces
  refine ⟨opened, _, after, ?_, hreceived, hprotected, hafter⟩
  rw [encoded_messageNode rules, List.map_cons, List.map_cons, hitem, hunprotected] at hopened
  exact hopened

/-! ### Contents -/

/-- The content that a message holds itself, if it is not conveyed otherwise. -/
def Message.conveyed (message : Message) (content : Bytes) : Option Bytes :=
  if message.isDetached then none else some content

/-- The scalar that stands in a message for its content. -/
def Message.contentScalar (message : Message) (content : Bytes) : Scalar :=
  if message.isDetached then .simple simpleNull else .bytes content

theorem Message.appendContent_eq (message : Message) (content : Bytes) (encoder : Encoder) :
    message.appendContent content encoder = (message.contentScalar content).append encoder := by
  unfold appendContent contentScalar
  split <;> rfl

theorem appends_content (rules : Rules) (message : Message) (content : Bytes) :
    Encoder.Appends rules (message.appendContent content)
      [(message.contentScalar content).encoded rules] := by
  rw [funext (message.appendContent_eq content)]
  exact Encoder.appends_scalar rules _

/-- A byte string is written as a leaf. -/
theorem exists_bytesLeaf (rules : Rules) {content : Bytes}
    (hlength : ((Scalar.bytes content).encoded rules).length ≤ maxEncodedLength) :
    ∃ atom : Leaf, atom.value = .bytes content ∧
      (leaf atom).encoded = (Scalar.bytes content).encoded rules := by
  change (shortestHead _ _ ++ content).length ≤ maxEncodedLength at hlength
  rw [List.length_append] at hlength
  have hlimit : maxEncodedLength < 2 ^ 64 := by decide
  have hcontent : content.length < 2 ^ 64 := by omega
  exact ⟨.ofBytes content hcontent, rfl, encoded_leaf _⟩

/-- The content of a message is written as a leaf that is taken for what the message conveys. -/
theorem exists_contentLeaf (rules : Rules) (message : Message) {content : Bytes}
    (hlength : ((message.contentScalar content).encoded rules).length ≤ maxEncodedLength) :
    ∃ atom : Leaf, (leaf atom).encoded = (message.contentScalar content).encoded rules ∧
      ∀ item : Item, item.value = atom.value → item.tags = [] →
        expectBytesOrNull item = .ok (message.conveyed content) := by
  unfold Message.contentScalar at hlength ⊢
  unfold Message.conveyed
  by_cases hdetached : message.isDetached = true
  · rw [if_pos hdetached, if_pos hdetached]
    refine ⟨.null, by rw [encoded_leaf]; exact List.append_nil _, fun item hvalue htags ↦ ?_⟩
    rw [expectBytesOrNull, expectUntagged, if_pos htags, hvalue]
    rfl
  · rw [if_neg hdetached] at hlength
    rw [if_neg hdetached, if_neg hdetached]
    obtain ⟨atom, hatom, hencoded⟩ := exists_bytesLeaf rules hlength
    refine ⟨atom, hencoded, fun item hvalue htags ↦ ?_⟩
    rw [expectBytesOrNull, expectUntagged, if_pos htags, hvalue, hatom]
    rfl

/-- What the receiver works on: the content of the message, or the one that was handed over. -/
theorem conveyed_orElse {content : Bytes} {detached? : Option Bytes}
    (hdetached : message.isDetached = true → detached? = some content) :
    (message.conveyed content <|> detached?) = some content := by
  unfold Message.conveyed
  by_cases hleft : message.isDetached = true
  · rw [if_pos hleft, hdetached hleft]
    rfl
  · rw [if_neg hleft]
    rfl

theorem length_item_le {tag? : Option MessageTag} {headers : HeaderItems} {items : List Bytes}
    {item : Bytes} (hmem : item ∈ items) :
    item.length ≤ (messageBytes rules tag? headers items).length := by
  have hitem := length_le_flatten hmem
  simp only [messageBytes, Container.enclose, List.flatten_cons, List.length_append]
  omega

end Delivery

end Cose
