import Mathlib.Tactic.Common
import Cose.Cbor.Decoder.Forward
import Cose.Proofs.Cbor.Grammar
import Cose.Proofs.Cbor.Text

/-!
# What one step of a cursor reads

A cursor reads tags and a token at a time, and opens a level if the token is that of an array or
map. `Decoder.next_of_opening` says what is delivered when tags and a token stand ahead of a cursor
that has left its finished containers, and `Decoder.opening_of_next` that nothing else is ever
delivered. Both are assembled from the same pair of statements for heads, tags and values.
-/

set_option autoImplicit false
set_option relaxedAutoImplicit false

namespace Cose.Cbor

/-! ### Heads of tokens -/

namespace Token

/-- What is read from the head of a token. -/
def read : Token → Head
  | leaf atom => atom.argument.read atom.major
  | definite isMap count => count.read (containerMajor isMap)
  | indefinite isMap => indefiniteRead (containerMajor isMap)

theorem read_head (token : Token) (rest : Bytes) :
    Head.read (token.head ++ rest) = .ok token.read := by
  cases token with
  | leaf atom => exact atom.argument.read_head atom.major rest
  | definite isMap count => exact count.read_head (containerMajor isMap) rest
  | indefinite isMap =>
    exact read_indefiniteHead (by cases isMap <;> decide) rest

theorem major_read_ne_tag (token : Token) : token.read.major ≠ .tag := by
  cases token with
  | leaf atom => cases atom <;> simp [read, Argument.read, Leaf.major]
  | definite isMap count => cases isMap <;> simp [read, Argument.read, containerMajor]
  | indefinite isMap => cases isMap <;> simp [read, indefiniteRead, containerMajor]

theorem length_read (token : Token) : token.read.length = token.head.length := by
  cases token <;> simp [read, head, Argument.read, indefiniteRead]

/-- The levels that are open once a token was read, given those open before. -/
def enter (token : Token) (levels : List Level) : List Level :=
  match token with
  | leaf _ => levels
  | definite isMap count =>
    ⟨.items (if isMap then 2 * count.number.toNat else count.number.toNat), isMap, 0⟩ :: levels
  | indefinite isMap => ⟨.untilBreak, isMap, 0⟩ :: levels

end Token

namespace Decoder

/-! ### Tags -/

/-- Tags and the head behind them are read together. -/
theorem taggedHead_of_tags {allowed : Nat} {tags : List Argument} (htags : tags.length ≤ allowed)
    {rest : Bytes} {last : Head} (hread : Head.read rest = .ok last) (hmajor : last.major ≠ .tag)
    (position : Nat) (levels : List Level) :
    taggedHead allowed ⟨encodedTags tags ++ rest, position, levels⟩ =
      .ok (tags.map (·.number), last) ⟨rest.drop last.length,
        position + (encodedTags tags).length + last.length, levels⟩ := by
  have hhead (position : Nat) : head ⟨rest, position, levels⟩ =
      .ok last ⟨rest.drop last.length, position + last.length, levels⟩ := by
    simp [head, hread, advance]
  induction tags generalizing allowed position with
  | nil =>
    cases allowed with
    | zero =>
      rw [taggedHead, bind_eq_ok_iff]
      exact ⟨last, _, hhead position, by rw [if_neg hmajor]; rfl⟩
    | succ allowed =>
      rw [taggedHead, bind_eq_ok_iff]
      exact ⟨last, _, hhead position, by rw [if_neg hmajor]; rfl⟩
  | cons tag tags ih =>
    cases allowed with
    | zero => simp at htags
    | succ allowed =>
      have hfirst : head ⟨encodedTags (tag :: tags) ++ rest, position, levels⟩ =
          .ok (tag.read .tag) ⟨encodedTags tags ++ rest,
            position + (tag.head .tag).length, levels⟩ := by
        have hbytes : encodedTags (tag :: tags) ++ rest =
            tag.head .tag ++ (encodedTags tags ++ rest) := by
          simp [encodedTags]
        rw [head, hbytes, tag.read_head .tag]
        simp [advance, Argument.read]
      have hrest := ih (Nat.le_of_succ_le_succ htags) (position + (tag.head .tag).length)
      rw [taggedHead, bind_eq_ok_iff]
      refine ⟨_, _, hfirst, ?_⟩
      have htag : (tag.read .tag).major = .tag := rfl
      rw [if_pos htag, bind_eq_ok_iff]
      refine ⟨_, _, hrest, ?_⟩
      simp only [encodedTags, List.flatMap_cons, List.length_append, List.map_cons, Argument.read,
        Nat.add_assoc]
      rfl

/-- A head that was read with its tags has tags in front of it, no more than allowed. -/
theorem tags_of_taggedHead {allowed : Nat} {decoder after : Decoder} {numbers : List UInt64}
    {last : Head} (hrun : taggedHead allowed decoder = .ok (numbers, last) after) :
    ∃ (tags : List Argument) (rest : Bytes), tags.length ≤ allowed ∧
      numbers = tags.map (·.number) ∧ decoder.rest = encodedTags tags ++ rest ∧
      Head.read rest = .ok last ∧ last.major ≠ .tag ∧
      after = ⟨rest.drop last.length,
        decoder.position + (encodedTags tags).length + last.length, decoder.levels⟩ := by
  have hhead {decoder middle : Decoder} {first : Head} (hrun : head decoder = .ok first middle) :
      Head.read decoder.rest = .ok first ∧ middle = decoder.advance first.length := by
    unfold head at hrun
    split at hrun
    · simp at hrun
    next hread =>
      cases hrun
      exact ⟨hread, rfl⟩
  induction allowed generalizing decoder numbers with
  | zero =>
    rw [taggedHead, bind_eq_ok_iff] at hrun
    obtain ⟨first, middle, hfirst, hrun⟩ := hrun
    obtain ⟨hread, rfl⟩ := hhead hfirst
    split_ifs at hrun with hmajor
    · cases hrun
    · cases hrun
      exact ⟨[], decoder.rest, Nat.le_refl 0, rfl, rfl, hread, hmajor,
        by simp [encodedTags, advance]⟩
  | succ allowed ih =>
    rw [taggedHead, bind_eq_ok_iff] at hrun
    obtain ⟨first, middle, hfirst, hrun⟩ := hrun
    obtain ⟨hread, rfl⟩ := hhead hfirst
    split_ifs at hrun with hmajor
    · rw [bind_eq_ok_iff] at hrun
      obtain ⟨⟨more, following⟩, reached, hmore, hrun⟩ := hrun
      cases hrun
      obtain ⟨tags, rest, hlength, hnumbers, hbytes, hlast, hlastMajor, hafter⟩ := ih hmore
      obtain ⟨tag, behind, hdecoder, htag⟩ | ⟨behind, hdecoder, hdefinite, htag⟩ :=
        Head.cases_of_read hread
      · rw [hmajor] at hdecoder htag
        subst htag
        have hbehind : behind = encodedTags tags ++ rest := by
          rw [← hbytes, advance, hdecoder]
          simp [Argument.read]
        refine ⟨tag :: tags, rest, Nat.succ_le_succ hlength, by simp [hnumbers, Argument.read],
          ?_, hlast, hlastMajor, ?_⟩
        · simp [hdecoder, hbehind, encodedTags]
        · rw [hafter]
          simp [advance, Argument.read, encodedTags, Nat.add_assoc]
      · exact absurd (Or.inr (Or.inr hmajor)) hdefinite
    · cases hrun
      exact ⟨[], decoder.rest, Nat.zero_le _, rfl, rfl, hread, hmajor,
        by simp [encodedTags, advance]⟩

/-! ### Simple values and floating point numbers -/

/-- Every leaf of the simple major type is read back from its head. -/
theorem simpleValue_of_leaf {atom : Leaf} (hmajor : atom.major = .simple) :
    simpleValue (atom.argument.read .simple) = .ok atom.value := by
  cases atom with
  | simple number hnumber =>
    have hlt := number.toNat_lt
    rcases hnumber with hsmall | hlarge
    · have hinfo : (Argument.shortest number.toUInt64).info = number.toNat := by
        have hnarrow : number.toNat < 24 := by omega
        simp [Argument.info, Argument.shortest, Argument.narrowest, hnarrow, Width.info]
      simp [simpleValue, Argument.read, Leaf.argument, hinfo, hsmall, Leaf.value]
    · have hinfo : (Argument.shortest number.toUInt64).info = 24 := by
        have hwide : ¬number.toNat < 24 := by omega
        simp [Argument.info, Argument.shortest, Argument.narrowest, hwide, hlt, Width.info]
      have hnot : ¬number.toUInt64 < 32 := by
        rw [UInt64.lt_iff_toNat_lt]
        simpa using hlarge
      simp [simpleValue, Argument.read, Leaf.argument, hinfo, hnot, Leaf.value]
  | bool truth => cases truth <;> rfl
  | null => rfl
  | undefined => rfl
  | half number =>
    simp [simpleValue, Argument.read, Leaf.argument, Argument.ofWord16, Argument.info, Width.info,
      Leaf.value]
  | single number =>
    simp [simpleValue, Argument.read, Leaf.argument, Argument.ofWord32, Argument.info, Width.info,
      Leaf.value]
  | double number =>
    simp [simpleValue, Argument.read, Leaf.argument, Argument.ofWord64, Argument.info, Width.info,
      Leaf.value]
  | _ => simp [Leaf.major] at hmajor

/-- A simple value that was read from an argument is that of a leaf with this argument. -/
theorem leaf_of_simpleValue {argument : Argument} {result : ItemValue}
    (hvalue : simpleValue (argument.read .simple) = .ok result) :
    ∃ atom : Leaf, atom.major = .simple ∧ atom.argument = argument ∧ atom.content = [] ∧
      atom.value = result := by
  obtain ⟨width, number, hbound⟩ := argument
  cases width with
  | initial =>
    have hlt : number.toNat < 24 := hbound
    have hnarrow : (⟨.initial, number, hbound⟩ : Argument) = .shortest number :=
      Argument.eq_shortest (by simp [Argument.narrowest, hlt])
    rw [hnarrow] at hvalue ⊢
    by_cases hsmall : number.toNat < 20
    · have hnumber : (UInt8.ofNat number.toNat).toUInt64 = number := by
        apply UInt64.toNat_inj.1
        simp
        omega
      have hinfo : ((Argument.shortest number).read .simple).info = number.toNat := by
        rw [← hnarrow]
        rfl
      simp only [simpleValue, hinfo, hsmall, if_true] at hvalue
      refine ⟨.simple (UInt8.ofNat number.toNat) (.inl ?_), rfl, ?_, rfl, Except.ok.inj hvalue⟩
      · simp
        omega
      · rw [Leaf.argument, hnumber]
    · have hcases : number = simpleFalse.toUInt64 ∨ number = simpleTrue.toUInt64 ∨
          number = simpleNull.toUInt64 ∨ number = simpleUndefined.toUInt64 := by
        simp only [← UInt64.toNat_inj]
        change _ = 20 ∨ _ = 21 ∨ _ = 22 ∨ _ = 23
        omega
      rcases hcases with rfl | rfl | rfl | rfl
      · exact ⟨.bool false, rfl, rfl, rfl, Except.ok.inj hvalue⟩
      · exact ⟨.bool true, rfl, rfl, rfl, Except.ok.inj hvalue⟩
      · exact ⟨.null, rfl, rfl, rfl, Except.ok.inj hvalue⟩
      · exact ⟨.undefined, rfl, rfl, rfl, Except.ok.inj hvalue⟩
  | one =>
    have hlt : number.toNat < 256 := hbound
    have hsmall : ¬number < 32 := by
      intro hsmall
      simp [simpleValue, Argument.read, Argument.info, Width.info, hsmall] at hvalue
    have hlarge : 32 ≤ number.toNat := by
      rw [UInt64.lt_iff_toNat_lt] at hsmall
      exact Nat.le_of_not_lt hsmall
    have hnumber : number.toUInt8.toUInt64 = number := by
      apply UInt64.toNat_inj.1
      simp
      omega
    have hwide : (⟨.one, number, hbound⟩ : Argument) = .shortest number := by
      refine Argument.eq_shortest ?_
      have hnot : ¬number.toNat < 24 := by omega
      simp [Argument.narrowest, hlt, hnot]
    simp [simpleValue, Argument.read, Argument.info, Width.info, hsmall] at hvalue
    refine ⟨.simple number.toUInt8 (.inr ?_), rfl, ?_, rfl, hvalue⟩
    · simp
      omega
    · rw [hwide, Leaf.argument, hnumber]
  | two =>
    have hlt : number.toNat < 2 ^ 16 := hbound
    simp [simpleValue, Argument.read, Argument.info, Width.info] at hvalue
    refine ⟨.half ⟨number.toUInt16⟩, rfl, Argument.ext rfl ?_, rfl, hvalue⟩
    apply UInt64.toNat_inj.1
    simp [Leaf.argument, Argument.ofWord16]
    omega
  | four =>
    have hlt : number.toNat < 2 ^ 32 := hbound
    simp [simpleValue, Argument.read, Argument.info, Width.info] at hvalue
    refine ⟨.single ⟨number.toUInt32⟩, rfl, Argument.ext rfl ?_, rfl, hvalue⟩
    apply UInt64.toNat_inj.1
    simp [Leaf.argument, Argument.ofWord32]
    omega
  | eight =>
    simp [simpleValue, Argument.read, Argument.info, Width.info] at hvalue
    exact ⟨.double ⟨number⟩, rfl, Argument.ext rfl rfl, rfl, hvalue⟩

/-! ### Values -/

theorem take_append (content rest : Bytes) (position : Nat) (levels : List Level) :
    take content.length ⟨content ++ rest, position, levels⟩ =
      .ok content ⟨rest, position + content.length, levels⟩ := by
  simp [take, advance]

theorem of_take {count : Nat} {decoder after : Decoder} {content : Bytes}
    (hrun : take count decoder = .ok content after) :
    count = content.length ∧ decoder.rest = content ++ after.rest ∧
      after = ⟨after.rest, decoder.position + content.length, decoder.levels⟩ := by
  unfold take at hrun
  split_ifs at hrun with hreaches
  rw [reaches_eq_true_iff] at hreaches
  cases hrun
  simp [advance, hreaches]

theorem enter_definite (isMap : Bool) {count : UInt64} {decoder : Decoder}
    (hdepth : decoder.depth < maxNesting) (hcount : count.toNat ≤ maxItems) :
    enter (some count) isMap decoder = .ok () { decoder with levels :=
      ⟨.items (if isMap then 2 * count.toNat else count.toNat), isMap, 0⟩ :: decoder.levels } := by
  simp [enter, Nat.not_le.2 hdepth, Nat.not_lt.2 hcount]

theorem enter_indefinite (isMap : Bool) {decoder : Decoder} (hdepth : decoder.depth < maxNesting) :
    enter none isMap decoder =
      .ok () { decoder with levels := ⟨.untilBreak, isMap, 0⟩ :: decoder.levels } := by
  simp [enter, Nat.not_le.2 hdepth]

/-- A level is entered only where the limits of the library are kept. -/
theorem of_enter {count? : Option UInt64} {isMap : Bool} {decoder after : Decoder} {result : Unit}
    (hrun : enter count? isMap decoder = .ok result after) :
    decoder.depth < maxNesting ∧ ∀ count ∈ count?, count.toNat ≤ maxItems := by
  unfold enter at hrun
  split at hrun
  · simp at hrun
  next hdepth =>
    refine ⟨Nat.lt_of_not_le hdepth, fun count hcount ↦ ?_⟩
    cases Option.mem_def.1 hcount
    dsimp only at hrun
    split at hrun
    · simp at hrun
    next hle => exact Nat.le_of_not_lt hle

/-- What belongs to the head of a token is read to its end. -/
theorem value_of_token {token : Token} {levels : List Level} (hfits : token.Fits levels.length)
    (rest : Bytes) (position : Nat) :
    value token.read ⟨token.content ++ rest, position, levels⟩ = .ok token.value
      ⟨rest, position + token.content.length, token.enter levels⟩ := by
  cases token with
  | leaf atom =>
    cases atom with
    | unsigned argument => rfl
    | negative argument => rfl
    | bytes length content hlength =>
      have htake := take_append content rest position levels
      rw [← hlength] at htake
      unfold value
      simp only [Token.read, Leaf.argument, Leaf.major, Argument.read, Bool.false_eq_true, if_false]
      rw [bind_eq_ok_iff]
      exact ⟨content, _, htake, by rw [hlength]; rfl⟩
    | text length content hlength =>
      have htake := take_append content.toUTF8.toList rest position levels
      rw [length_toUTF8, ← hlength] at htake
      have htext : text? content.toUTF8.toList = some content := text?_eq_some_iff.2 rfl
      unfold value
      simp only [Token.read, Leaf.argument, Leaf.major, Argument.read, Bool.false_eq_true, if_false]
      rw [bind_eq_ok_iff]
      refine ⟨content.toUTF8.toList, _, htake, ?_⟩
      rw [htext]
      simp only [Token.content, Leaf.content, length_toUTF8, hlength]
      rfl
    | _ =>
      unfold value
      simp only [Token.read, Leaf.major]
      rw [simpleValue_of_leaf rfl]
      rfl
  | definite isMap count =>
    obtain ⟨hlevel, hcount⟩ := hfits
    have hdepth : (Decoder.mk rest position levels).depth < maxNesting := hlevel
    have henter (isMap : Bool) := enter_definite isMap hdepth hcount
    unfold value
    cases isMap
    · simp only [Token.read, Argument.read, containerMajor, Bool.false_eq_true, if_false]
      rw [bind_eq_ok_iff]
      exact ⟨(), _, henter false, rfl⟩
    · simp only [Token.read, Argument.read, containerMajor, Bool.false_eq_true, if_false, if_true]
      rw [bind_eq_ok_iff]
      exact ⟨(), _, henter true, rfl⟩
  | indefinite isMap =>
    have hdepth : (Decoder.mk rest position levels).depth < maxNesting := hfits
    have henter (isMap : Bool) := enter_indefinite isMap hdepth
    unfold value
    cases isMap
    · simp only [Token.read, indefiniteRead, containerMajor, Bool.false_eq_true, if_false, if_true]
      rw [bind_eq_ok_iff]
      exact ⟨(), _, henter false, rfl⟩
    · simp only [Token.read, indefiniteRead, containerMajor, if_true]
      rw [bind_eq_ok_iff]
      exact ⟨(), _, henter true, rfl⟩

/-- Behind the head of an argument that belongs to a value stands the rest of a token. -/
theorem exists_token_of_argument {argument : Argument} {major : Major} (hmajor : major ≠ .tag)
    {rest : Bytes} {position : Nat} {levels : List Level} {result : ItemValue} {after : Decoder}
    (hrun : value (argument.read major) ⟨rest, position, levels⟩ = .ok result after) :
    ∃ (token : Token) (more : Bytes), token.read = argument.read major ∧
      token.head = argument.head major ∧ rest = token.content ++ more ∧
      token.Fits levels.length := by
  unfold value at hrun
  simp only [Argument.read, Bool.false_eq_true, if_false] at hrun
  cases major with
  | unsigned => exact ⟨.leaf (.unsigned argument), rest, rfl, rfl, rfl, trivial⟩
  | negative => exact ⟨.leaf (.negative argument), rest, rfl, rfl, rfl, trivial⟩
  | bytes =>
    rw [bind_eq_ok_iff] at hrun
    obtain ⟨content, middle, htake, _⟩ := hrun
    obtain ⟨hlength, hrest, _⟩ := of_take htake
    exact ⟨.leaf (.bytes argument content hlength), middle.rest, rfl, rfl, hrest, trivial⟩
  | text =>
    rw [bind_eq_ok_iff] at hrun
    obtain ⟨content, middle, htake, hrun⟩ := hrun
    obtain ⟨hlength, hrest, _⟩ := of_take htake
    cases htext : text? content with
    | none =>
      rw [htext] at hrun
      cases hrun
    | some text =>
      have hcontent := text?_eq_some_iff.1 htext
      rw [hcontent, length_toUTF8] at hlength
      rw [hcontent] at hrest
      exact ⟨.leaf (.text argument text hlength), middle.rest, rfl, rfl, hrest, trivial⟩
  | array =>
    rw [bind_eq_ok_iff] at hrun
    obtain ⟨_, _, henter, _⟩ := hrun
    obtain ⟨hlevel, hcount⟩ := of_enter henter
    exact ⟨.definite false argument, rest, rfl, rfl, rfl, hlevel, hcount _ rfl⟩
  | map =>
    rw [bind_eq_ok_iff] at hrun
    obtain ⟨_, _, henter, _⟩ := hrun
    obtain ⟨hlevel, hcount⟩ := of_enter henter
    exact ⟨.definite true argument, rest, rfl, rfl, rfl, hlevel, hcount _ rfl⟩
  | tag => exact absurd rfl hmajor
  | simple =>
    cases hvalue : simpleValue (argument.read .simple) with
    | error cause =>
      simp only [Argument.read] at hvalue
      rw [hvalue] at hrun
      cases hrun
    | ok value =>
      obtain ⟨atom, hatom, hargument, hcontent, _⟩ := leaf_of_simpleValue hvalue
      refine ⟨.leaf atom, rest, ?_, ?_, ?_, trivial⟩
      · simp [Token.read, hatom, hargument]
      · simp [Token.head, hatom, hargument]
      · simp [Token.content, hcontent]

/-- Behind the head of an indefinite length stand the members of an array or map. -/
theorem exists_token_of_indefinite {major : Major} (hmajor : ¬major.IsAlwaysDefinite)
    {rest : Bytes} {position : Nat} {levels : List Level} {result : ItemValue} {after : Decoder}
    (hrun : value (indefiniteRead major) ⟨rest, position, levels⟩ = .ok result after) :
    ∃ token : Token, token.read = indefiniteRead major ∧ token.head = [indefiniteHead major] ∧
      token.content = [] ∧ token.Fits levels.length := by
  unfold value at hrun
  simp only [indefiniteRead, if_true] at hrun
  cases major with
  | array =>
    rw [bind_eq_ok_iff] at hrun
    obtain ⟨_, _, henter, _⟩ := hrun
    exact ⟨.indefinite false, rfl, rfl, rfl, (of_enter henter).1⟩
  | map =>
    rw [bind_eq_ok_iff] at hrun
    obtain ⟨_, _, henter, _⟩ := hrun
    exact ⟨.indefinite true, rfl, rfl, rfl, (of_enter henter).1⟩
  | bytes => cases hrun
  | text => cases hrun
  | simple => cases hrun
  | _ => exact absurd (by decide) hmajor

/-- Every value that is read comes with its head from a token that keeps the limits. -/
theorem token_of_value {bytes : Bytes} {last : Head} (hread : Head.read bytes = .ok last)
    (hmajor : last.major ≠ .tag) {position : Nat} {levels : List Level} {result : ItemValue}
    {after : Decoder}
    (hrun : value last ⟨bytes.drop last.length, position, levels⟩ = .ok result after) :
    ∃ (token : Token) (more : Bytes), token.read = last ∧ bytes = token.encoded ++ more ∧
      token.Fits levels.length ∧ result = token.value ∧
      after = ⟨more, position + token.content.length, token.enter levels⟩ := by
  have hresult {token : Token} {more : Bytes} (htoken : token.read = last)
      (hrest : bytes.drop last.length = token.content ++ more) (hfits : token.Fits levels.length) :
      result = token.value ∧
        after = ⟨more, position + token.content.length, token.enter levels⟩ := by
    rw [hrest, ← htoken, value_of_token hfits] at hrun
    cases hrun
    exact ⟨rfl, rfl⟩
  obtain ⟨argument, rest, hbytes, hlast⟩ | ⟨rest, hbytes, hdefinite, hlast⟩ :=
    Head.cases_of_read hread
  · have hdrop : bytes.drop last.length = rest := by
      rw [hbytes, hlast]
      simp [Argument.read]
    rw [hdrop, hlast] at hrun
    obtain ⟨token, more, htoken, hhead, hrest, hfits⟩ := exists_token_of_argument hmajor hrun
    obtain ⟨hvalue, hafter⟩ := hresult (htoken.trans hlast.symm) (hdrop.trans hrest) hfits
    refine ⟨token, more, htoken.trans hlast.symm, ?_, hfits, hvalue, hafter⟩
    rw [hbytes, hrest, Token.encoded, hhead, List.append_assoc]
  · have hdrop : bytes.drop last.length = rest := by
      rw [hbytes, hlast]
      simp [indefiniteRead]
    rw [hdrop, hlast] at hrun
    obtain ⟨token, htoken, hhead, hcontent, hfits⟩ := exists_token_of_indefinite hdefinite hrun
    have hrest : bytes.drop last.length = token.content ++ rest := by
      rw [hdrop, hcontent]
      rfl
    obtain ⟨hvalue, hafter⟩ := hresult (htoken.trans hlast.symm) hrest hfits
    refine ⟨token, rest, htoken.trans hlast.symm, ?_, hfits, hvalue, hafter⟩
    rw [hbytes, Token.encoded, hhead, hcontent]
    rfl

/-! ### One step of a cursor -/

/-- The levels with one more member counted in the innermost. -/
def countedLevels : List Level → List Level
  | [] => []
  | level :: outer =>
    { level with pending := level.pending.pred, seen := level.seen + 1 } :: outer

@[simp]
theorem length_countedLevels (levels : List Level) :
    (countedLevels levels).length = levels.length := by
  cases levels <;> rfl

theorem countMember_mk (rest : Bytes) (position : Nat) (levels : List Level) :
    countMember ⟨rest, position, levels⟩ = ⟨rest, position, countedLevels levels⟩ := by
  cases levels <;> rfl

/-- The cursor behind tags and a token that stood ahead of a cursor. -/
def behind (start : Decoder) (tags : List Argument) (token : Token) (rest : Bytes) : Decoder where
  rest := rest
  position := start.position + (encodedTags tags ++ token.encoded).length
  levels := token.enter (countedLevels start.levels)

/-- The item that tags and a token are delivered as. -/
def delivered (start : Decoder) (tags : List Argument) (token : Token) (rest : Bytes) : Item where
  value := token.value
  level := start.depth
  nextLevel := (start.behind tags token rest).nextLevel
  tags := tags.map (·.number)

/-- Tags and a token ahead of a cursor are delivered as the next item. -/
theorem next_of_opening {decoder start : Decoder} (hstart : ascendTo 0 decoder = .ok () start)
    {tags : List Argument} (htags : tags.length ≤ maxTags) {token : Token}
    (hfits : token.Fits start.depth) {rest : Bytes}
    (hrest : start.rest = encodedTags tags ++ token.encoded ++ rest) :
    next decoder = .ok (start.delivered tags token rest) (start.behind tags token rest) := by
  have hbytes : start.rest = encodedTags tags ++ (token.head ++ (token.content ++ rest)) := by
    simp [hrest, Token.encoded]
  have htagged : taggedHead maxTags start = .ok (tags.map (·.number), token.read)
      ⟨token.content ++ rest, start.position + (encodedTags tags).length + token.head.length,
        start.levels⟩ := by
    have hrun := taggedHead_of_tags htags (token.read_head (token.content ++ rest))
      token.major_read_ne_tag start.position start.levels
    rw [token.length_read, List.drop_left, ← hbytes] at hrun
    exact hrun
  have hcounted : token.Fits (countedLevels start.levels).length := by
    rwa [length_countedLevels]
  have hvalue := value_of_token hcounted rest
    (start.position + (encodedTags tags).length + token.head.length)
  have hposition : start.position + (encodedTags tags).length + token.head.length +
      token.content.length = start.position + (encodedTags tags ++ token.encoded).length := by
    simp [Token.encoded, Nat.add_assoc]
  rw [hposition] at hvalue
  rw [next, bind_eq_ok_iff]
  refine ⟨(), start, hstart, ?_⟩
  rw [bind_eq_ok_iff]
  refine ⟨start, start, rfl, ?_⟩
  have hmore : ¬(start.depth = 0 ∧ start.rest = []) := by
    obtain ⟨first, more, hopening, _⟩ := exists_cons_opening tags token
    rw [hrest, hopening]
    simp
  rw [if_neg hmore, bind_eq_ok_iff]
  refine ⟨_, _, htagged, ?_⟩
  dsimp only
  rw [bind_eq_ok_iff]
  refine ⟨(), _, rfl, ?_⟩
  rw [countMember_mk, bind_eq_ok_iff]
  exact ⟨_, _, hvalue, rfl⟩

/-- Every item that is delivered stood ahead of the cursor as tags and a token. -/
theorem opening_of_next {decoder after : Decoder} {item : Item}
    (hrun : next decoder = .ok item after) :
    ∃ (start : Decoder) (tags : List Argument) (token : Token),
      ascendTo 0 decoder = .ok () start ∧ tags.length ≤ maxTags ∧ token.Fits start.depth ∧
      start.rest = encodedTags tags ++ token.encoded ++ after.rest ∧
      item = start.delivered tags token after.rest ∧
      after = start.behind tags token after.rest := by
  rw [next, bind_eq_ok_iff] at hrun
  obtain ⟨_, start, hstart, hrun⟩ := hrun
  rw [bind_eq_ok_iff] at hrun
  obtain ⟨_, _, hget, hrun⟩ := hrun
  cases hget
  split_ifs at hrun
  · cases hrun
  · rw [bind_eq_ok_iff] at hrun
    obtain ⟨⟨numbers, last⟩, middle, htagged, hrun⟩ := hrun
    obtain ⟨tags, bytes, htags, hnumbers, hbytes, hread, hmajor, rfl⟩ := tags_of_taggedHead htagged
    dsimp only at hrun
    rw [bind_eq_ok_iff] at hrun
    obtain ⟨_, _, hcounted, hrun⟩ := hrun
    cases hcounted
    rw [countMember_mk, bind_eq_ok_iff] at hrun
    obtain ⟨result, reached, hvalue, hrun⟩ := hrun
    obtain ⟨token, more, htoken, hencoded, hfits, rfl, rfl⟩ := token_of_value hread hmajor hvalue
    cases hrun
    have hposition : start.position + (encodedTags tags).length + last.length +
        token.content.length = start.position + (encodedTags tags ++ token.encoded).length := by
      rw [← htoken, token.length_read]
      simp [Token.encoded, Nat.add_assoc]
    rw [length_countedLevels] at hfits
    refine ⟨start, tags, token, hstart, htags, hfits, ?_, ?_, ?_⟩
    · rw [hbytes, hencoded, List.append_assoc]
    · rw [hposition, hnumbers]
      rfl
    · rw [hposition]
      rfl

end Decoder

end Cose.Cbor
