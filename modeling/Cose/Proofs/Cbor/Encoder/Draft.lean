import Mathlib.Tactic.Common
import Cose.Proofs.Cbor.Encoder.Outline

/-!
# Partly written encodings

A `Draft` is what a session holds between two operations, as a partly built tree: the outlines
written so far, the containers that are open around the position with the members and the tags
each already has, and the tags of an item still to come. `Draft.Step` is what one operation does
to it, and `Draft.Run` a sequence of operations.

`Draft.run_outline` is the traversal of an admissible outline as a run, and
`Draft.operations_of_step` says that the operations of a run can be read off the draft it leads
to: an operation sequence without open containers at its end is the traversal of some outlines.
-/

set_option autoImplicit false
set_option relaxedAutoImplicit false

namespace Cose.Cbor

/-! ### Tags -/

/-- An outline behind tags, outermost first. -/
def tagged (tags : List UInt64) (outline : Outline) : Outline := tags.foldr .tag outline

/-- The bytes of tags, outermost first. -/
def tagHeads (tags : List UInt64) : Bytes := tags.flatMap (shortestHead .tag)

theorem encoded_tagged (rules : Rules) (tags : List UInt64) (outline : Outline) :
    (tagged tags outline).encoded rules = tagHeads tags ++ outline.encoded rules := by
  induction tags with
  | nil => rfl
  | cons tag tags ih =>
    change shortestHead .tag tag ++ (tagged tags outline).encoded rules = _
    rw [ih, ← List.append_assoc]
    rfl

theorem operations_tagged (tags : List UInt64) (outline : Outline) :
    (tagged tags outline).operations = tags.map .tag ++ outline.operations := by
  induction tags with
  | nil => rfl
  | cons tag tags ih =>
    change .tag tag :: (tagged tags outline).operations = _
    rw [ih]
    rfl

theorem admissible_tagged {rules : Rules} {depth : Nat} {tags : List UInt64} {outline : Outline} :
    (tagged tags outline).Admissible rules depth ↔ outline.Admissible rules depth := by
  induction tags with
  | nil => exact .rfl
  | cons tag tags ih => exact ih

theorem tagged_append_singleton (tags : List UInt64) (tag : UInt64) (outline : Outline) :
    tagged (tags ++ [tag]) outline = tagged tags (.tag tag outline) := by
  simp [tagged]

/-! ### Layers -/

/-- The outlines written so far: those on the ground, and above them each open container with the
tags before it and its members so far. -/
inductive Layers where
  | ground (items : List Outline)
  | opened (outer : Layers) (tags : List UInt64) (kind : Container) (members : List Outline)

namespace Layers

/-- The number of open containers. -/
def depth : Layers → Nat
  | ground _ => 0
  | opened outer _ _ _ => outer.depth + 1

/-- Write more outlines into the innermost layer. -/
def append (layers : Layers) (more : List Outline) : Layers :=
  match layers with
  | ground items => ground (items ++ more)
  | opened outer tags kind members => opened outer tags kind (members ++ more)

/-- The bytes of the layers, without the heads that are inserted later. -/
def contents (rules : Rules) : Layers → Bytes
  | ground items => Outline.encodedAll rules items
  | opened outer tags kind members =>
    outer.contents rules ++ tagHeads tags ++ Encoder.openingBytes kind.nest ++
      Outline.encodedAll rules members

/-- The open items of a session that holds the layers. A container counts itself as an item of the
one around it; `extra` is one if an item of the innermost has begun. -/
def frames (rules : Rules) (extra : Nat) : Layers → List Frame
  | ground _ => []
  | opened outer tags kind members =>
    ⟨kind.nest, (outer.contents rules ++ tagHeads tags ++ Encoder.openingBytes kind.nest).length,
      members.length + extra⟩ :: outer.frames rules 1

/-- The operations that lead to the layers. -/
def operations : Layers → List Operation
  | ground items => Outline.operationsAll items
  | opened outer tags kind members =>
    outer.operations ++ tags.map .tag ++ .opening kind :: Outline.operationsAll members

/-- Whether the innermost layer takes a number of outlines more. -/
def HasRoom (layers : Layers) (more : Nat) : Prop :=
  match layers with
  | ground _ => True
  | opened _ _ kind members => ∀ limit ∈ kind.limit?, members.length + more ≤ limit

/-- Whether the outlines of the layers are admissible, and the containers may stand where they
are. -/
def Admissible (rules : Rules) : Layers → Prop
  | ground items => Outline.AllAdmissible rules 0 items
  | opened outer _ kind members =>
    outer.Admissible rules ∧ outer.HasRoom 1 ∧ outer.depth < maxNesting ∧ kind.Allowed rules ∧
      (∀ limit ∈ kind.limit?, members.length ≤ limit) ∧
      Outline.AllAdmissible rules (outer.depth + 1) members

@[simp]
theorem depth_append (layers : Layers) (more : List Outline) :
    (layers.append more).depth = layers.depth := by
  cases layers <;> rfl

@[simp]
theorem append_nil (layers : Layers) : layers.append [] = layers := by
  cases layers <;> simp [append]

theorem append_append (layers : Layers) (first second : List Outline) :
    (layers.append first).append second = layers.append (first ++ second) := by
  cases layers <;> simp [append]

theorem hasRoom_append {layers : Layers} {more : List Outline} {count : Nat} :
    (layers.append more).HasRoom count ↔ layers.HasRoom (more.length + count) := by
  cases layers with
  | ground items => exact .rfl
  | opened outer tags kind members => simp [append, HasRoom, Nat.add_assoc]

theorem HasRoom.mono {layers : Layers} {count fewer : Nat} (hroom : layers.HasRoom count)
    (hfewer : fewer ≤ count) : layers.HasRoom fewer := by
  cases layers with
  | ground items => trivial
  | opened outer tags kind members =>
    exact fun limit hlimit ↦
      Nat.le_trans (Nat.add_le_add_left hfewer members.length) (hroom limit hlimit)

@[simp]
theorem contents_append (rules : Rules) (layers : Layers) (more : List Outline) :
    (layers.append more).contents rules =
      layers.contents rules ++ Outline.encodedAll rules more := by
  cases layers <;> simp [append, contents]

@[simp]
theorem operations_append (layers : Layers) (more : List Outline) :
    (layers.append more).operations = layers.operations ++ Outline.operationsAll more := by
  cases layers <;> simp [append, operations]

theorem length_frames (rules : Rules) (extra : Nat) (layers : Layers) :
    (layers.frames rules extra).length = layers.depth := by
  induction layers generalizing extra with
  | ground items => rfl
  | opened outer tags kind members ih => simp [frames, depth, ih]

theorem admissible_append {rules : Rules} {layers : Layers} {more : List Outline}
    (hadmissible : layers.Admissible rules) (hroom : layers.HasRoom more.length)
    (hmore : Outline.AllAdmissible rules layers.depth more) :
    (layers.append more).Admissible rules := by
  cases layers with
  | ground items => exact Outline.allAdmissible_append.2 ⟨hadmissible, hmore⟩
  | opened outer tags kind members =>
    obtain ⟨houter, hcontainer, hdepth, hkind, _, hmembers⟩ := hadmissible
    refine ⟨houter, hcontainer, hdepth, hkind, ?_, Outline.allAdmissible_append.2 ⟨hmembers, hmore⟩⟩
    simpa [HasRoom] using hroom

end Layers

/-! ### Drafts and their steps -/

/-- A partly built tree: its layers, and the tags of an item still to come. -/
structure Draft where
  layers : Layers
  tags : List UInt64

namespace Draft

/-- The draft of a session at its start. -/
def start : Draft := ⟨.ground [], []⟩

/-- The bytes of a draft. -/
def contents (rules : Rules) (draft : Draft) : Bytes :=
  draft.layers.contents rules ++ tagHeads draft.tags

/-- The operations that lead to a draft. -/
def operations (draft : Draft) : List Operation := draft.layers.operations ++ draft.tags.map .tag

/-- Write a whole item behind the tags that wait for it. -/
def add (draft : Draft) (outline : Outline) : Draft :=
  ⟨draft.layers.append [tagged draft.tags outline], []⟩

/-- Whether the bytes of a draft keep the limit on the length of an encoding. -/
def Fits (rules : Rules) (draft : Draft) : Prop :=
  (draft.contents rules).length ≤ maxEncodedLength

/-- What one operation does to a draft where it is permitted. -/
inductive Step (rules : Rules) : Draft → Operation → Draft → Prop where
  | scalar {draft : Draft} {value : Scalar} (hallowed : value.Allowed rules)
      (hroom : draft.layers.HasRoom 1) :
      Step rules draft (.scalar value) (draft.add (.scalar value))
  | tag (draft : Draft) (number : UInt64) :
      Step rules draft (.tag number) { draft with tags := draft.tags ++ [number] }
  | opening {draft : Draft} {kind : Container} (hroom : draft.layers.HasRoom 1)
      (hdepth : draft.layers.depth < maxNesting) (hallowed : kind.Allowed rules) :
      Step rules draft (.opening kind) ⟨.opened draft.layers draft.tags kind [], []⟩
  | closing {outer : Layers} {tags : List UInt64} {kind : Container} {members : List Outline}
      (htakes : kind.Takes rules (Outline.encodedEach rules members)) :
      Step rules ⟨.opened outer tags kind members, []⟩ (.closing kind)
        ((Draft.mk outer tags).add (.container kind members))

/-- A sequence of permitted operations, after each of which the encoding is short enough. -/
inductive Run (rules : Rules) : Draft → List Operation → Draft → Prop where
  | refl (draft : Draft) : Run rules draft [] draft
  | step {first second last : Draft} {operation : Operation} {rest : List Operation}
      (hstep : Step rules first operation second) (hfits : second.Fits rules)
      (hrun : Run rules second rest last) : Run rules first (operation :: rest) last

/-- The same operation leads to the same draft. -/
theorem Step.unique {rules : Rules} {draft first second : Draft} {operation : Operation}
    (hfirst : Step rules draft operation first) (hsecond : Step rules draft operation second) :
    first = second := by
  cases hfirst <;> cases hsecond <;> rfl

theorem Run.trans {rules : Rules} {first second third : Draft} {before after : List Operation}
    (hbefore : Run rules first before second) (hafter : Run rules second after third) :
    Run rules first (before ++ after) third := by
  induction hbefore with
  | refl draft => exact hafter
  | step hstep hfits _ ih => exact .step hstep hfits (ih hafter)

@[simp]
theorem contents_add (rules : Rules) (draft : Draft) (outline : Outline) :
    (draft.add outline).contents rules = draft.contents rules ++ outline.encoded rules := by
  simp [add, contents, encoded_tagged, tagHeads]

/-! ### What every step preserves -/

/-- Whether the layers of a draft are admissible and its bytes are short enough. -/
def Sound (rules : Rules) (draft : Draft) : Prop :=
  draft.layers.Admissible rules ∧ draft.Fits rules

theorem sound_start (rules : Rules) : start.Sound rules := by
  refine ⟨trivial, ?_⟩
  simp [Fits, contents, start, Layers.contents, tagHeads, Outline.encodedAll, Outline.encodedEach]

theorem admissible_of_step {rules : Rules} {draft next : Draft} {operation : Operation}
    (hstep : Step rules draft operation next) (hadmissible : draft.layers.Admissible rules) :
    next.layers.Admissible rules := by
  cases hstep with
  | @scalar _ value hallowed hroom =>
    have hvalue : (tagged draft.tags (.scalar value)).Admissible rules draft.layers.depth :=
      admissible_tagged.2 hallowed
    exact Layers.admissible_append hadmissible hroom ⟨hvalue, trivial⟩
  | tag number => exact hadmissible
  | @opening _ kind hroom hdepth hallowed =>
    exact ⟨hadmissible, hroom, hdepth, hallowed, fun _ _ ↦ Nat.zero_le _, trivial⟩
  | @closing outer tags kind members htakes =>
    obtain ⟨houter, hroom, hdepth, hkind, _, hmembers⟩ := hadmissible
    have hcontainer : (tagged tags (.container kind members)).Admissible rules outer.depth :=
      admissible_tagged.2 ⟨hdepth, hkind, htakes, hmembers⟩
    exact Layers.admissible_append houter hroom ⟨hcontainer, trivial⟩

theorem sound_of_run {rules : Rules} {first last : Draft} {operations : List Operation}
    (hrun : Run rules first operations last) (hsound : first.Sound rules) : last.Sound rules := by
  induction hrun with
  | refl draft => exact hsound
  | step hstep hfits _ ih => exact ih ⟨admissible_of_step hstep hsound.1, hfits⟩

/-- The operations of a step are those of the draft it leads to. -/
theorem operations_of_step {rules : Rules} {draft next : Draft} {operation : Operation}
    (hstep : Step rules draft operation next) :
    next.operations = draft.operations ++ [operation] := by
  cases hstep <;>
    simp [operations, add, Layers.operations, operations_tagged, Outline.operationsAll,
      Outline.operations]

theorem operations_of_run {rules : Rules} {first last : Draft} {operations : List Operation}
    (hrun : Run rules first operations last) :
    last.operations = first.operations ++ operations := by
  induction hrun with
  | refl draft => simp
  | step hstep _ _ ih => rw [ih, operations_of_step hstep, List.append_assoc]; rfl

/-! ### Traversals are runs -/

theorem fits_of_length_le {rules : Rules} {draft larger : Draft} (hfits : larger.Fits rules)
    (hlength : (draft.contents rules).length ≤ (larger.contents rules).length) :
    draft.Fits rules := Nat.le_trans hlength hfits

mutual

/-- The traversal of an admissible outline writes it behind the tags that wait for an item. -/
theorem run_outline {rules : Rules} (outline : Outline) {draft : Draft}
    (hadmissible : outline.Admissible rules draft.layers.depth) (hroom : draft.layers.HasRoom 1)
    (hfits : (draft.add outline).Fits rules) :
    Run rules draft outline.operations (draft.add outline) := by
  cases outline with
  | scalar value => exact .step (.scalar hadmissible hroom) hfits (.refl _)
  | tag number content =>
    have hadd : Draft.add { draft with tags := draft.tags ++ [number] } content =
        draft.add (.tag number content) := by
      rw [add, add, tagged_append_singleton]
    have hcontents : (draft.add (.tag number content)).contents rules =
        Draft.contents rules { draft with tags := draft.tags ++ [number] } ++
          content.encoded rules := by
      rw [← hadd, contents_add]
    refine .step (.tag draft number) (fits_of_length_le hfits ?_) ?_
    · rw [hcontents, List.length_append]
      exact Nat.le_add_right _ _
    · rw [← hadd] at hfits ⊢
      exact run_outline content hadmissible hroom hfits
  | container kind members =>
    obtain ⟨hdepth, hallowed, htakes, hmembers⟩ := hadmissible
    let opened : Layers := .opened draft.layers draft.tags kind []
    have hlength := Container.length_le_enclose htakes
    have hfull : ((Draft.mk (opened.append members) []).contents rules).length ≤
        ((draft.add (.container kind members)).contents rules).length := by
      rw [contents_add, Outline.encoded, contents, Layers.contents_append]
      simp only [opened, Layers.contents, contents, Outline.encodedAll, Outline.encodedEach,
        tagHeads, List.flatMap_nil, List.flatten_nil, List.length_append,
        List.length_nil] at hlength ⊢
      omega
    have hempty : ((Draft.mk opened []).contents rules).length ≤
        ((Draft.mk (opened.append members) []).contents rules).length := by
      simp only [contents, Layers.contents_append, List.length_append]
      omega
    have hopened : Step rules draft (.opening kind) ⟨opened, []⟩ := .opening hroom hdepth hallowed
    have hinner : Run rules ⟨opened, []⟩ (Outline.operationsAll members)
        ⟨opened.append members, []⟩ := by
      refine run_outlines members hmembers ?_ (fits_of_length_le hfits hfull)
      have hlimit := htakes.length_le
      rw [Outline.encodedEach_eq_map, List.length_map] at hlimit
      simpa [opened, Layers.HasRoom] using hlimit
    have hclosed : Step rules ⟨opened.append members, []⟩ (.closing kind)
        (draft.add (.container kind members)) := .closing htakes
    refine .step hopened (fits_of_length_le hfits (Nat.le_trans hempty hfull)) ?_
    exact hinner.trans (.step hclosed hfits (.refl _))

/-- The traversals of admissible outlines write them into the innermost layer. -/
theorem run_outlines {rules : Rules} (outlines : List Outline) {layers : Layers}
    (hadmissible : Outline.AllAdmissible rules layers.depth outlines)
    (hroom : layers.HasRoom outlines.length)
    (hfits : (Draft.mk (layers.append outlines) []).Fits rules) :
    Run rules ⟨layers, []⟩ (Outline.operationsAll outlines) ⟨layers.append outlines, []⟩ := by
  cases outlines with
  | nil =>
    rw [Layers.append_nil]
    exact .refl _
  | cons outline rest =>
    obtain ⟨houtline, hrest⟩ := hadmissible
    have hsplit : (layers.append [outline]).append rest = layers.append (outline :: rest) :=
      Layers.append_append layers [outline] rest
    have hfirst : Run rules ⟨layers, []⟩ outline.operations ⟨layers.append [outline], []⟩ := by
      refine run_outline outline houtline (hroom.mono (by simp)) (fits_of_length_le hfits ?_)
      rw [← hsplit]
      simp only [add, tagged, List.foldr_nil, contents, Layers.contents_append,
        List.length_append]
      omega
    refine hfirst.trans ?_
    rw [← hsplit] at hfits ⊢
    refine run_outlines rest (by rwa [Layers.depth_append]) ?_ hfits
    rw [Layers.hasRoom_append]
    exact hroom.mono (by simp [Nat.add_comm])

end

/-! ### Runs of traversals lead nowhere else -/

theorem Run.split {rules : Rules} {first last : Draft} {before after : List Operation}
    (hrun : Run rules first (before ++ after) last) :
    ∃ middle, Run rules first before middle ∧ Run rules middle after last := by
  induction before generalizing first with
  | nil => exact ⟨first, .refl first, hrun⟩
  | cons operation before ih =>
    cases hrun with
    | step hstep hfits hrest =>
      obtain ⟨middle, hbefore, hafter⟩ := ih hrest
      exact ⟨middle, .step hstep hfits hbefore, hafter⟩

mutual

/-- Wherever the traversal of an outline is permitted, it writes the outline. -/
theorem eq_add_of_run {rules : Rules} (outline : Outline) {draft last : Draft}
    (hrun : Run rules draft outline.operations last) : last = draft.add outline := by
  cases outline with
  | scalar value =>
    rcases hrun with _ | ⟨hstep, _, hrest⟩
    cases hstep
    cases hrest
    rfl
  | tag number content =>
    rcases hrun with _ | ⟨hstep, _, hrest⟩
    cases hstep
    rw [eq_add_of_run content hrest, add, add, tagged_append_singleton]
  | container kind members =>
    rcases hrun with _ | ⟨hstep, _, hrest⟩
    cases hstep
    obtain ⟨middle, hmembers, hclosing⟩ := hrest.split
    rw [eq_append_of_run members hmembers] at hclosing
    rcases hclosing with _ | ⟨hstep, _, hrest⟩
    cases hstep
    cases hrest
    rfl

theorem eq_append_of_run {rules : Rules} (outlines : List Outline) {layers : Layers} {last : Draft}
    (hrun : Run rules ⟨layers, []⟩ (Outline.operationsAll outlines) last) :
    last = ⟨layers.append outlines, []⟩ := by
  cases outlines with
  | nil =>
    cases hrun
    rw [Layers.append_nil]
  | cons outline rest =>
    rw [Outline.operationsAll] at hrun
    obtain ⟨middle, houtline, hrest⟩ := hrun.split
    rw [eq_add_of_run outline houtline] at hrest
    have hsplit : (layers.append [outline]).append rest = layers.append (outline :: rest) :=
      Layers.append_append layers [outline] rest
    rw [eq_append_of_run rest hrest, ← hsplit]
    rfl

end

end Draft

end Cose.Cbor
