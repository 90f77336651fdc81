import Cose.Proofs.Cbor.Uniqueness
import Cose.Proofs.Header.Entries
import Cose.Proofs.Message.Agreement

/-!
# Messages are told by their bytes

A message that was read is one array of definite length from the first byte of its encoding to the
last, with the tag of its kind or with none, as the policy wants it. Because no encoding of a node
starts another one, neither does a message start another message (`Framed.eq_of_initial`), and where
tags are required, no encoding is a message of two kinds.

The policies differ only in the check of the tags, and whatever the tags are, the policy that takes
both does as one of the other two, while the third fails (`readMessageArray_optional_cases`).
-/

set_option autoImplicit false
set_option relaxedAutoImplicit false

namespace Cose

open Cbor Node Decoder

variable {α : Type} {readers : List (Int64 × ParameterReader)}

/-! ### Arrays of definite length -/

/-- Members of a level that still waits for as many are all that is left of it. -/
theorem Cbor.Decoder.SpansAll.of_items {before after : Decoder} {nodes : List Node}
    (hspans : before.SpansAll nodes after) {level : Level} {outer : List Level} {ahead : Bytes}
    {position : Nat} (hpending : level.pending = .items nodes.length)
    (hagrees : before.Agrees ⟨ahead, position, level :: outer⟩) :
    AllWellFormed (outer.length + 1) nodes ∧ ∃ last rest position, last.pending = .items 0 ∧
      ahead = encodedAll nodes ++ rest ∧ after.Agrees ⟨rest, position, last :: outer⟩ := by
  induction hspans generalizing level ahead position with
  | nil => exact ⟨trivial, level, ahead, position, hpending, rfl, hagrees⟩
  | @cons before middle after node nodes hnode _ ih =>
    have hopen : ¬level.Ends 0 := by simp [Level.Ends, hpending]
    have hcounted : (level.counted 1).pending = .items nodes.length := by
      obtain ⟨_, isMap, seen⟩ := level
      cases hpending
      rfl
    obtain ⟨hfirst, behind, _, rfl, hmiddle⟩ := hnode.of_level hagrees (.inl hopen)
    obtain ⟨hothers, last, rest, ending, hlast, rfl, hafter⟩ := ih hcounted hmiddle
    exact ⟨⟨hfirst, hothers⟩, last, rest, ending, hlast, by simp [encodedAll], hafter⟩

/-- Where all members of the only open level were read, nothing is left of an encoding that can be
finished. -/
theorem Cbor.Decoder.Agrees.rest_eq_nil {decoder last : Decoder} {level : Level} {rest : Bytes}
    {position : Nat} (hagrees : decoder.Agrees ⟨rest, position, [level]⟩)
    (hpending : level.pending = .items 0) (hfinish : finish decoder = .ok () last) : rest = [] := by
  obtain ⟨start, hstart, _, hnothing⟩ := of_finish_eq_ok hfinish
  have hleave : ascendTo 0 ⟨rest, position, [level]⟩ = .ok () ⟨rest, position, []⟩ := by
    simp [ascendTo, leave, hpending]
  rw [hagrees.ascendTo_eq, hleave] at hstart
  cases hstart
  exact hnothing

/-- Whether an encoding is one array of definite length, with tags of given numbers in front of it,
with a given number of members, and with nothing behind it. -/
def IsArrayOf (input : Bytes) (numbers : List UInt64) (length : Nat) : Prop :=
  ∃ tags count members, Node.WellFormed 0 (.mk tags (.definite false count) members) ∧
    input = (Node.mk tags (.definite false count) members).encoded ∧
    tags.map (·.number) = numbers ∧ members.length = length

theorem IsArrayOf.numbers_unique {input : Bytes} {numbers others : List UInt64} {first second : Nat}
    (hfirst : IsArrayOf input numbers first) (hsecond : IsArrayOf input others second) :
    numbers = others := by
  obtain ⟨tags, count, members, hnode, hinput, rfl, _⟩ := hfirst
  obtain ⟨_, _, _, hother, hotherInput, rfl, _⟩ := hsecond
  have hsame := Node.encoded_inj hnode.regular hother.regular (hinput.symm.trans hotherInput)
  rw [(Node.mk.inj hsame).1]

theorem IsArrayOf.eq_of_initial {first second : Bytes} {numbers others : List UInt64}
    {length size : Nat} (hfirst : IsArrayOf first numbers length)
    (hsecond : IsArrayOf second others size) (hinitial : first <+: second) : first = second := by
  obtain ⟨_, _, _, hnode, rfl, _⟩ := hfirst
  obtain ⟨_, _, _, hother, rfl, _⟩ := hsecond
  obtain ⟨rest, hrest⟩ := hinitial
  obtain ⟨hsame, _⟩ := Node.encoded_append_inj hnode.regular hother.regular
    (hrest.trans (List.append_nil _).symm)
  rw [hsame]

/-! ### The outer array -/

/-- A policy admits the one tag that is expected where it takes messages with their tag, and no tags
where it takes messages without. -/
theorem takes_of_check {policy : TagPolicy} {tag : MessageTag} {item : Item}
    (hcheck : policy.check tag.number item = .ok ()) :
    ∃ isTagged, policy.Takes isTagged ∧
      item.tags = if isTagged then [tag.number] else [] := by
  unfold TagPolicy.check at hcheck
  split at hcheck
  case h_2 htags => exact ⟨false, .inr rfl, htags⟩
  case h_3 htags => exact ⟨false, .inl rfl, htags⟩
  case h_5 only htags =>
    split at hcheck
    next hsame => exact ⟨true, .inr rfl, by rw [htags, hsame]; rfl⟩
    · cases hcheck
  case h_6 only htags =>
    split at hcheck
    next hsame => exact ⟨true, .inl rfl, by rw [htags, hsame]; rfl⟩
    · cases hcheck
  all_goals cases hcheck

/-- The policy that takes messages with and without their tag checks as one of the other two, and
the third one fails. -/
theorem check_optional_cases (tag : UInt64) (item : Item) :
    (TagPolicy.optional.check tag item = TagPolicy.required.check tag item ∧
        ∃ cause, TagPolicy.prohibited.check tag item = .error cause) ∨
      TagPolicy.optional.check tag item = TagPolicy.prohibited.check tag item ∧
        ∃ cause, TagPolicy.required.check tag item = .error cause := by
  unfold TagPolicy.check
  rcases item.tags with _ | ⟨first, _ | ⟨second, others⟩⟩
  · exact .inr ⟨rfl, _, rfl⟩
  · exact .inl ⟨rfl, _, rfl⟩
  · exact .inl ⟨rfl, _, rfl⟩

theorem of_expectArray {item : Item} {length : UInt64} (hcheck : expectArray item length = .ok ()) :
    item.value = .array (some length) := by
  unfold expectArray at hcheck
  cases hvalue : item.value with
  | array size? =>
    rw [hvalue] at hcheck
    cases size? with
    | none => cases hcheck
    | some count =>
      dsimp only at hcheck
      split at hcheck
      next hsame => rw [hsame]
      · cases hcheck
  | _ =>
    rw [hvalue] at hcheck
    cases hcheck

theorem of_expectBytesOrNull {item : Item} {content? : Option Bytes}
    (hcheck : expectBytesOrNull item = .ok content?) : item.isContainer = false := by
  unfold expectBytesOrNull at hcheck
  cases huntagged : expectUntagged item "bstr / nil" with
  | error cause =>
    rw [huntagged] at hcheck
    cases hcheck
  | ok _ =>
    rw [huntagged] at hcheck
    cases hvalue : item.value with
    | array count? =>
      rw [hvalue] at hcheck
      cases hcheck
    | map count? =>
      rw [hvalue] at hcheck
      cases hcheck
    | _ => rw [Item.isContainer, hvalue]

/-- Whether a reading takes a number of nodes and is finished behind them. -/
def Cbor.Reading.TakesMembers (reading : Reading Error α) (length : Nat) : Prop :=
  ∀ {result : α} {before after : Decoder}, reading.run before = .ok result after →
    ∃ nodes middle, nodes.length = length ∧ before.SpansAll nodes middle ∧
      Decoder.finish middle = .ok () after

/-- An outer array and its members are all of an encoding. -/
theorem isArrayOf_of_run {policy : TagPolicy} {tag : MessageTag} {length : UInt64}
    {readRest : Reading Error α} (hrest : readRest.TakesMembers length.toNat) {input : Bytes}
    {result : α} {after : Decoder}
    (hrun : Reading.run (do
      readMessageArray policy tag length
      readRest) (.ofBytes input) = .ok result after) :
    ∃ isTagged, policy.Takes isTagged ∧
      IsArrayOf input (if isTagged then [tag.number] else []) length.toNat := by
  obtain ⟨_, middle, harray, hbehind⟩ := Reading.of_run_bind hrun
  obtain ⟨item, opened, hnext, harray⟩ := Reading.of_run_bind harray
  obtain ⟨_, _, hcheck, harray⟩ := Reading.of_run_bind harray
  obtain ⟨htags, rfl⟩ := Reading.of_run_ofExcept hcheck
  obtain ⟨hlength, rfl⟩ := Reading.of_run_ofExcept harray
  obtain ⟨start, tags, token, hstart, hfew, hfits, hinput, hitem, hopened⟩ :=
    opening_of_next (Reading.of_run_next hnext)
  cases hstart
  have hvalue : token.value = .array (some length) := by
    rw [← of_expectArray hlength, hitem]
    rfl
  obtain ⟨count, rfl, rfl⟩ : ∃ count, token = .definite false count ∧ length = count.number := by
    cases token with
    | leaf atom => cases atom <;> cases hvalue
    | definite isMap count =>
      cases isMap
      · exact ⟨count, rfl, (Option.some.inj (ItemValue.array.inj hvalue)).symm⟩
      · cases hvalue
    | indefinite isMap => cases isMap <;> cases hvalue
  obtain ⟨members, last, hmembers, hspans, hfinish⟩ := hrest hbehind
  have hinside : opened.Agrees ⟨opened.rest, opened.position,
      [⟨.items members.length, false, 0⟩]⟩ := by
    have hlevels : opened.levels = [⟨.items members.length, false, 0⟩] := by
      rw [hopened, hmembers]
      rfl
    rw [← hlevels]
    exact .refl opened
  obtain ⟨hnodes, level, rest, _, hlevel, hahead, hagrees⟩ := hspans.of_items rfl hinside
  obtain rfl := hagrees.rest_eq_nil hlevel hfinish
  obtain ⟨isTagged, htakes, hnumbers⟩ := takes_of_check htags
  refine ⟨isTagged, htakes, tags, count, members, ⟨hfew, hfits, hmembers, hnodes⟩, ?_, ?_, hmembers⟩
  · exact hinput.trans (by rw [hahead, encoded]; simp [Token.closing])
  · rw [← hnumbers, hitem]
    rfl

/-- The outer array is read under the policy that takes messages with and without their tag as under
one of the other two, and under the third one it is not read. -/
theorem readMessageArray_optional_cases (tag : MessageTag) (length : UInt64) (before : Decoder) :
    let run := fun policy ↦ (readMessageArray policy tag length).run before
    (run .optional = run .required ∧ ∃ cause after, run .prohibited = .error cause after) ∨
      run .optional = run .prohibited ∧ ∃ cause after, run .required = .error cause after := by
  intro run
  cases hnext : (Reading.next : Reading Error Item).run before with
  | error cause after =>
    have herror (policy : TagPolicy) : run policy = .error cause after :=
      Reading.run_bind_error hnext
    exact .inl ⟨(herror _).trans (herror _).symm, cause, after, herror _⟩
  | ok item middle =>
    have hrun (policy : TagPolicy) : run policy = Reading.run (do
        Reading.ofExcept (policy.check tag.number item)
        Reading.ofExcept (expectArray item length)) middle := Reading.run_bind_ok hnext
    have herror {policy : TagPolicy} {cause : Error}
        (hcheck : policy.check tag.number item = .error cause) :
        run policy = .error cause middle := by
      rw [hrun, hcheck]
      rfl
    rcases check_optional_cases tag.number item with ⟨hsame, cause, hcheck⟩ | ⟨hsame, cause, hcheck⟩
    · exact .inl ⟨by rw [hrun, hrun, hsame], cause, middle, herror hcheck⟩
    · exact .inr ⟨by rw [hrun, hrun, hsame], cause, middle, herror hcheck⟩

/-! ### Decoders of messages -/

/-- How a decoder frames messages of a kind: under every policy it takes one array of definite
length with as many tags as the policy wants, the tag of the kind or none; what it takes never
starts with something else that it takes; and under the policy that takes messages with and without
their tag it decodes what it decodes under exactly one of the other two. -/
structure Framed (tag : MessageTag) (length : Nat)
    (decode : Bytes → TagPolicy → Nat → Except Error α) : Prop where
  optional_iff : ∀ input capacity message, decode input .optional capacity = .ok message ↔
    (decode input .required capacity = .ok message ∧
        ∀ other, decode input .prohibited capacity ≠ .ok other) ∨
      decode input .prohibited capacity = .ok message ∧
        ∀ other, decode input .required capacity ≠ .ok other
  isArrayOf : ∀ input policy capacity message, decode input policy capacity = .ok message →
    ∃ isTagged, policy.Takes isTagged ∧
      IsArrayOf input (if isTagged then [tag.number] else []) length
  eq_of_initial : ∀ first second policy other capacity room message counterpart,
    decode first policy capacity = .ok message → decode second other room = .ok counterpart →
    first <+: second → first = second

namespace Framed

variable {tag : MessageTag} {length : Nat} {decode : Bytes → TagPolicy → Nat → Except Error α}

/-- Where tags are required, there is exactly one, that of the kind. -/
theorem isArrayOf_required (hframed : Framed tag length decode) {input : Bytes} {capacity : Nat}
    {message : α} (hdecode : decode input .required capacity = .ok message) :
    IsArrayOf input [tag.number] length := by
  obtain ⟨isTagged, htakes, harray⟩ := hframed.isArrayOf _ _ _ _ hdecode
  cases isTagged with
  | true => exact harray
  | false => rcases htakes with hpolicy | hpolicy <;> cases hpolicy

/-- No encoding is a message of two kinds where tags are required. -/
theorem separate {β : Type} {other : MessageTag} {size : Nat}
    {decodeOther : Bytes → TagPolicy → Nat → Except Error β} (hframed : Framed tag length decode)
    (hother : Framed other size decodeOther) (hne : tag.number ≠ other.number) {input : Bytes}
    {capacity room : Nat} {message : α} {counterpart : β}
    (hdecode : decode input .required capacity = .ok message) :
    decodeOther input .required room ≠ .ok counterpart := by
  intro hdecodeOther
  have hnumbers := (hframed.isArrayOf_required hdecode).numbers_unique
    (hother.isArrayOf_required hdecodeOther)
  exact hne (List.cons.inj hnumbers).1

end Framed

/-- A decoder is framed if it reads an outer array and as many members. -/
theorem framed_of_takesMembers (tag : MessageTag) (length : UInt64)
    {readRest : Nat → Reading Error α}
    (hrest : ∀ capacity, (readRest capacity).TakesMembers length.toNat) :
    Framed tag length.toNat fun input policy capacity ↦ Reading.decode (do
      readMessageArray policy tag length
      readRest capacity) input := by
  have harray : ∀ input policy capacity message, Reading.decode (do
      readMessageArray policy tag length
      readRest capacity) input = .ok message → ∃ isTagged, policy.Takes isTagged ∧
        IsArrayOf input (if isTagged then [tag.number] else []) length.toNat := by
    intro input policy capacity message hdecode
    obtain ⟨after, hrun⟩ := Reading.exists_run_of_decode hdecode
    exact isArrayOf_of_run (hrest capacity) hrun
  refine ⟨fun input capacity message ↦ ?_, harray, ?_⟩
  · have hsame {first second : TagPolicy}
        (hrun : (readMessageArray first tag length).run (.ofBytes input) =
          (readMessageArray second tag length).run (.ofBytes input)) :
        Reading.decode (do
          readMessageArray first tag length
          readRest capacity) input = Reading.decode (do
          readMessageArray second tag length
          readRest capacity) input := by
      rw [Reading.decode, Reading.decode, Reading.run_bind_congr hrun]
    have herror {policy : TagPolicy} {cause : Error} {after : Decoder}
        (hrun : (readMessageArray policy tag length).run (.ofBytes input) = .error cause after) :
        Reading.decode (do
          readMessageArray policy tag length
          readRest capacity) input = .error cause := by
      rw [Reading.decode, Reading.run_bind_error hrun]
    rcases readMessageArray_optional_cases tag length (.ofBytes input) with
      ⟨hrun, cause, after, hother⟩ | ⟨hrun, cause, after, hother⟩
    · simp [hsame hrun, herror hother]
    · simp [hsame hrun, herror hother]
  · intro first second policy other capacity room message counterpart hfirst hsecond hinitial
    obtain ⟨_, _, hfirstArray⟩ := harray _ _ _ _ hfirst
    obtain ⟨_, _, hsecondArray⟩ := harray _ _ _ _ hsecond
    exact hfirstArray.eq_of_initial hsecondArray hinitial

/-! ### Kinds of messages -/

/-- The two members that the headers take. -/
theorem exists_spans_of_readHeaders (hreaders : ∀ entry ∈ readers, entry.2.ConsumesValue)
    {capacity : Nat} {before after : Decoder} {headers : DecodedHeaders}
    (hrun : (readHeaders readers capacity).run before = .ok headers after) :
    ∃ wrapper middle bucket, before.Spans wrapper middle ∧ middle.Spans bucket after := by
  obtain ⟨_, _, _, _, ⟨wrapper, middle, bucket, hwrapper, _, _, _, hbucket⟩, _⟩ :=
    takesAll_of_readHeaders hreaders hrun
  exact ⟨wrapper, middle, bucket, hwrapper, hbucket⟩

/-- What follows the outer array of a message with a stamp has four members. -/
theorem takesMembers_stamped (hreaders : ∀ entry ∈ readers, entry.2.ConsumesValue) (capacity : Nat)
    (assemble : DecodedHeaders → Option Bytes → Bytes → α) :
    Reading.TakesMembers (do
      let headers ← readHeaders readers capacity
      let payload? ← Reading.ofExcept (expectBytesOrNull (← Reading.next))
      let stamp ← Reading.ofExcept (expectBytes (← Reading.next))
      Reading.finish
      return assemble headers payload? stamp) 4 := by
  intro message before after hrun
  obtain ⟨headers, opened, hheaders, hrun⟩ := Reading.of_run_bind hrun
  obtain ⟨payloadItem, middle, hpayload, hrun⟩ := Reading.of_run_bind hrun
  obtain ⟨payload?, _, hexpected, hrun⟩ := Reading.of_run_bind hrun
  obtain ⟨hpayloadLeaf, rfl⟩ := Reading.of_run_ofExcept hexpected
  obtain ⟨stampItem, last, hstamp, hrun⟩ := Reading.of_run_bind hrun
  obtain ⟨stamp, _, hexpected, hrun⟩ := Reading.of_run_bind hrun
  obtain ⟨hstampBytes, rfl⟩ := Reading.of_run_ofExcept hexpected
  obtain ⟨_, _, hfinish, hrun⟩ := Reading.of_run_bind hrun
  obtain ⟨_, rfl⟩ := Reading.of_run_pure hrun
  have hstampLeaf : stampItem.isContainer = false := by
    rw [Item.isContainer, (of_expectBytes hstampBytes).1]
  obtain ⟨_, _, _, hwrapper, hbucket⟩ := exists_spans_of_readHeaders hreaders hheaders
  obtain ⟨_, hpayloadNode⟩ :=
    exists_delivers_of_leaf (Reading.of_run_next hpayload) (of_expectBytesOrNull hpayloadLeaf)
  obtain ⟨_, hstampNode⟩ := exists_delivers_of_leaf (Reading.of_run_next hstamp) hstampLeaf
  exact ⟨_, last, rfl, .cons hwrapper (.cons hbucket (.two hpayloadNode.spans hstampNode.spans)),
    Reading.of_run_finish hfinish⟩

/-- What follows the outer array of an encrypted message has three members. -/
theorem takesMembers_encrypted (hreaders : ∀ entry ∈ readers, entry.2.ConsumesValue)
    (capacity : Nat) :
    Reading.TakesMembers (do
      let headers ← readHeaders readers capacity
      let ciphertext? ← Reading.ofExcept (expectBytesOrNull (← Reading.next))
      Reading.finish
      return (⟨headers, ciphertext?⟩ : DecodedEncrypt0)) 3 := by
  intro message before after hrun
  obtain ⟨headers, opened, hheaders, hrun⟩ := Reading.of_run_bind hrun
  obtain ⟨item, last, hnext, hrun⟩ := Reading.of_run_bind hrun
  obtain ⟨ciphertext?, _, hexpected, hrun⟩ := Reading.of_run_bind hrun
  obtain ⟨hleaf, rfl⟩ := Reading.of_run_ofExcept hexpected
  obtain ⟨_, _, hfinish, hrun⟩ := Reading.of_run_bind hrun
  obtain ⟨_, rfl⟩ := Reading.of_run_pure hrun
  obtain ⟨_, _, _, hwrapper, hbucket⟩ := exists_spans_of_readHeaders hreaders hheaders
  obtain ⟨_, hnode⟩ :=
    exists_delivers_of_leaf (Reading.of_run_next hnext) (of_expectBytesOrNull hleaf)
  exact ⟨_, last, rfl, .cons hwrapper (.two hbucket hnode.spans), Reading.of_run_finish hfinish⟩

theorem framed_readStamped (hreaders : ∀ entry ∈ readers, entry.2.ConsumesValue)
    (tag : MessageTag) (assemble : DecodedHeaders → Option Bytes → Bytes → α) :
    Framed tag 4 fun input policy capacity ↦
      Reading.decode (readStamped policy tag readers capacity assemble) input :=
  framed_of_takesMembers tag 4 fun capacity ↦ takesMembers_stamped hreaders capacity assemble

theorem framed_decodeEncrypt0 (hreaders : ∀ entry ∈ readers, entry.2.ConsumesValue) :
    Framed .encrypt0 3 fun input policy capacity ↦
      decodeEncrypt0 input policy readers capacity :=
  framed_of_takesMembers .encrypt0 3 (takesMembers_encrypted hreaders)

/-- The decoders of the three kinds of messages are framed, and where tags are required, what one of
them takes none of the others does. -/
theorem messages_framed (hreaders : ∀ entry ∈ readers, entry.2.ConsumesValue) :
    Framed .sign1 4 (fun input policy capacity ↦ decodeSign1 input policy readers capacity) ∧
      Framed .mac0 4 (fun input policy capacity ↦ decodeMac0 input policy readers capacity) ∧
      Framed .encrypt0 3
        (fun input policy capacity ↦ decodeEncrypt0 input policy readers capacity) ∧
      ∀ (input : Bytes) (first second third : Nat) signed authenticated encrypted,
        ¬(decodeSign1 input .required readers first = .ok signed ∧
            decodeMac0 input .required readers second = .ok authenticated) ∧
          ¬(decodeSign1 input .required readers first = .ok signed ∧
            decodeEncrypt0 input .required readers third = .ok encrypted) ∧
          ¬(decodeMac0 input .required readers second = .ok authenticated ∧
            decodeEncrypt0 input .required readers third = .ok encrypted) := by
  have hsign : Framed .sign1 4 fun input policy capacity ↦
      decodeSign1 input policy readers capacity := by
    simp only [decodeSign1, readSign1_eq_readStamped]
    exact framed_readStamped hreaders .sign1 DecodedSign1.mk
  have hmac : Framed .mac0 4 fun input policy capacity ↦
      decodeMac0 input policy readers capacity := by
    simp only [decodeMac0, readMac0_eq_readStamped]
    exact framed_readStamped hreaders .mac0 DecodedMac0.mk
  have hencrypt := framed_decodeEncrypt0 hreaders
  refine ⟨hsign, hmac, hencrypt, fun input first second third signed authenticated encrypted ↦
    ⟨fun hboth ↦ ?_, fun hboth ↦ ?_, fun hboth ↦ ?_⟩⟩
  · exact hsign.separate hmac (by decide) hboth.1 hboth.2
  · exact hsign.separate hencrypt (by decide) hboth.1 hboth.2
  · exact hmac.separate hencrypt (by decide) hboth.1 hboth.2

/-- A signed message with its tag and with a value that is taken whole. -/
theorem messages_framed_raw :
    let readers : List (Int64 × ParameterReader) := [(99, ParameterReader.raw)]
    let input : Bytes := [0xd2, 0x84, 0x40, 0xa1, 0x18, 0x63, 0x81, 0x01, 0xf6, 0x40]
    let message : DecodedSign1 :=
      ⟨⟨[], [⟨99, false, false, .encoded [0x81, 0x01]⟩]⟩, none, []⟩
    (∀ entry ∈ readers, entry.2.ConsumesValue) ∧
      decodeSign1 input .required readers 1 = .ok message ∧
      Framed .sign1 4 (fun input policy capacity ↦ decodeSign1 input policy readers capacity) ∧
      Framed .mac0 4 (fun input policy capacity ↦ decodeMac0 input policy readers capacity) ∧
      Framed .encrypt0 3
        (fun input policy capacity ↦ decodeEncrypt0 input policy readers capacity) := by
  intro readers input message
  have hreaders : ∀ entry ∈ readers, entry.2.ConsumesValue := by
    intro entry hmem
    rw [List.mem_singleton.1 hmem]
    exact ParameterReader.raw_consumesValue
  obtain ⟨hsign, hmac, hencrypt, _⟩ := messages_framed hreaders
  exact ⟨hreaders, by with_unfolding_all rfl, hsign, hmac, hencrypt⟩

end Cose
