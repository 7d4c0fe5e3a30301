/-
# Infographic.Proofs.EasedCarriers -- carriers on their way along guides

An easing runs only while its element follows a curved guide, and such a guide has a point at
every value: that holds of a binding as it is made, and tables and the clock keep it
(`TransformBinding.Steered`).  So a tick of the clock counts every running easing on by one frame
and takes its carrier to the guide's point there, and it changes nothing else
(`Template.clocked_tick`).  When no easing runs any more, ticks change nothing at all until a table
is applied or a drawing is loaded (`Session.tick_moves_carriers`).
-/
import Infographic.Proofs.GuidePoints
import Infographic.Proofs.LoadedTree
import Mathlib.Data.List.Pairwise

namespace Infographic

set_option autoImplicit false

open Markup (Document NodeId StyleWrite)

/-- A curved guide was looked for before. -/
theorem Guide.settle_of_isCurved {g : Guide} (curved : g.isCurved = true) (d : Document)
    (names : Binding.NameTable) : g.settle d names = g := by
  cases found : g.found with
  | none => simp [isCurved, form?, found] at curved
  | some form => simp [settle, found]

namespace Binding

namespace TransformBinding

/-! ## Elements that follow guides -/

/-- An easing runs only while a position follows a curved guide, which has a point at every
value. -/
structure Steered (b : TransformBinding) : Prop where
  drawn : ∀ g, b.guide = some g → g.Drawn
  follows : b.easing.active = true → b.followed.isSome = true ∧ b.guide.any Guide.isCurved = true

variable {b : TransformBinding} {d : Document} {names : NameTable} {table : Table} {now : Float}

theorem steered_bind (d : Document) (id : NodeId) : (bind d id).2.Steered where
  drawn g held := by
    obtain ⟨v, -, rfl⟩ := Option.map_eq_some_iff.1 held
    exact Guide.drawn_named _
  follows running := by simp [bind, Easing.atRest] at running

/-- What is led has a driven position, so that its guide was looked for. -/
theorem seeks_of_lead? {guide : Option Guide} {kinds : List TransformKind}
    {way : TransformKind × Float} (found : b.lead? guide table kinds = some way) :
    guide.any Guide.isCurved = true ∧ b.seeks table kinds = true := by
  unfold lead? at found
  split at found
  · rename_i curved
    obtain ⟨kind, member, here⟩ := List.exists_of_findSome?_eq_some found
    refine ⟨curved, List.any_eq_true.2 ⟨kind, member, ?_⟩⟩
    split at here
    · rename_i position
      obtain ⟨t, value, -⟩ := Option.map_eq_some_iff.1 here
      simp [position, value]
    · contradiction
  · contradiction

/-- A binding that a table leaves behind is steered. -/
theorem Steered.after (steered : b.Steered) (d : Document) (names : NameTable) (table : Table) :
    (b.after d names table).Steered := by
  have looked : ∀ g, b.settled d names = some g → g.Drawn := by
    intro g held
    obtain ⟨before, here, rfl⟩ := Option.map_eq_some_iff.1 held
    exact (steered.drawn before here).settle d names
  constructor
  · intro g held
    have guide : b.guideAfter d names table = some g := held
    unfold guideAfter at guide
    split at guide
    · exact looked g guide
    · exact steered.drawn g guide
  · intro running
    have guide : (b.after d names table).guide = b.guideAfter d names table := rfl
    cases lead : b.lead? (b.settled d names) table TransformKind.all with
    | some way =>
        obtain ⟨curved, sought⟩ := seeks_of_lead? lead
        refine ⟨by simp [TransformBinding.after, led, lead], ?_⟩
        rwa [guide, guideAfter, if_pos sought]
    | none =>
        have same : b.after d names table = { b with guide := b.guideAfter d names table } := by
          simp [TransformBinding.after, led, lead]
        rw [same] at running
        obtain ⟨followed, curved⟩ := steered.follows running
        rw [same]
        refine ⟨followed, ?_⟩
        dsimp only
        unfold guideAfter
        split
        · obtain ⟨g, held, bent⟩ := (Option.any_eq_true _ _).1 curved
          rw [settled, held, Option.map_some, Guide.settle_of_isCurved bent]
          exact bent
        · exact curved

/-! ## Frames -/

/-- The binding behind a tick of the clock: a running easing is counted on by one frame. -/
def clocked (now : Float) (b : TransformBinding) : TransformBinding :=
  if b.easing.active then { b with easing := (b.easing.tick now).1 } else b

theorem clocked_of_still (still : b.easing.active = false) : b.clocked now = b := by
  rw [clocked, still, if_neg Bool.false_ne_true]

theorem Steered.clocked (steered : b.Steered) (now : Float) : (b.clocked now).Steered := by
  unfold TransformBinding.clocked
  split
  · exact ⟨steered.drawn, fun running => steered.follows (Easing.active_of_tick running)⟩
  · exact steered

/-- What the frame at a time writes to the carrier. -/
def frame? (now : Float) (b : TransformBinding) : Option StyleWrite := do
  let kind ← b.followed
  let guide ← b.guide
  let t ← (b.easing.tick now).2
  let offset ← guide.offset? t b.origin
  some ⟨b.carrier, "transform", some (kind.offsetFragment offset)⟩

theorem frame?_of_still (still : b.easing.active = false) : b.frame? now = none := by
  have none : (b.easing.tick now).2 = none := by rw [Easing.tick_of_still still]
  cases followed : b.followed <;> cases guide : b.guide <;> simp [frame?, followed, guide, none]

/-- **A running easing has a frame, which takes the carrier to the guide's point.** -/
theorem Steered.frame?_of_active (steered : b.Steered) (running : b.easing.active = true)
    (now : Float) :
    ∃ kind guide offset, b.followed = some kind ∧ b.guide = some guide ∧
      guide.offset? (b.easing.tick now).1.current b.origin = some offset ∧
      b.frame? now = some ⟨b.carrier, "transform", some (kind.offsetFragment offset)⟩ := by
  obtain ⟨followed, curved⟩ := steered.follows running
  obtain ⟨kind, same⟩ := Option.isSome_iff_exists.1 followed
  obtain ⟨guide, held, bent⟩ := (Option.any_eq_true _ _).1 curved
  obtain ⟨offset, place⟩ :=
    (steered.drawn guide held).offset? bent (b.easing.tick now).1.current b.origin
  refine ⟨kind, guide, offset, same, held, place, ?_⟩
  simp [frame?, same, held, Easing.tick_of_active running, place]

/-- The clock writes the frame of a running easing, and leaves other bindings alone. -/
theorem Steered.tick_eq (steered : b.Steered) (now : Float) (d : Document) :
    b.tick now d = ((b.frame? now).elim d d.putStyle, b.clocked now) := by
  cases running : b.easing.active with
  | false =>
      rw [frame?_of_still running, clocked_of_still running]
      unfold tick advance
      split
      · rw [Easing.advance_of_still running]
        rfl
      · rfl
  | true =>
      obtain ⟨kind, guide, offset, followed, held, place, frame⟩ :=
        steered.frame?_of_active running now
      rw [frame, TransformBinding.clocked, if_pos running, tick_of_followed followed held,
        Easing.tick_of_active running, Option.bind_some, place]
      rfl

theorem Steered.isMoving (steered : b.Steered) : b.isMoving = b.easing.active := by
  cases running : b.easing.active with
  | false => simp [TransformBinding.isMoving, running]
  | true =>
      obtain ⟨kind, guide, -, followed, held, -⟩ := steered.frame?_of_active running 0
      simp [TransformBinding.isMoving, running, followed, held]

/-! ## All elements -/

section

variable {bs : List TransformBinding}

/-- The clock writes all frames, one after the other. -/
theorem pass_tick_eq (steered : ∀ b ∈ bs, b.Steered) (now : Float) (d : Document) :
    pass (fun d b => b.tick now d) d bs =
      (d.putStyles (bs.filterMap (frame? now)), bs.map (clocked now)) := by
  induction bs generalizing d with
  | nil => rfl
  | cons b rest ih =>
      have first := (steered b List.mem_cons_self).tick_eq now d
      have later := ih (fun c member => steered c (List.mem_cons_of_mem b member))
        ((b.frame? now).elim d d.putStyle)
      simp only [pass, first, later, List.map_cons, List.filterMap_cons]
      cases b.frame? now <;> rfl

theorem fits_frame? {w : StyleWrite} (element : d.isElement b.carrier = true)
    (frame : b.frame? now = some w) : w.element = b.carrier ∧ w.property = "transform" ∧ d.Fits w := by
  simp only [frame?, Option.bind_eq_bind, Option.bind_eq_some_iff, Option.some.injEq] at frame
  obtain ⟨kind, -, guide, -, t, -, offset, -, rfl⟩ := frame
  refine ⟨rfl, rfl, element, fun value written => ?_, fun none => by simp at none, by simp⟩
  obtain rfl := Option.some.inj written
  exact ⟨cleanProperty_of_mem (by simp [writtenProperties]),
    (kind.firm_offsetFragment offset).cleanValue⟩

/-- The clock writes to every carrier once. -/
theorem nodup_frames (single : (bs.map carrier).Nodup) (elements : ∀ b ∈ bs,
    d.isElement b.carrier = true) (now : Float) :
    ((bs.filterMap (frame? now)).map StyleWrite.cell).Nodup := by
  have cells : ((bs.filterMap (frame? now)).map StyleWrite.cell).Sublist
      ((bs.map carrier).map fun n => (n, "transform")) := by
    induction bs with
    | nil => exact .slnil
    | cons b rest ih =>
        have later := ih (List.nodup_cons.1 single).2 fun c member =>
          elements c (List.mem_cons_of_mem b member)
        cases frame : b.frame? now with
        | none =>
            rw [List.filterMap_cons_none frame]
            exact later.cons _
        | some w =>
            obtain ⟨element, property, -⟩ := fits_frame? (elements b List.mem_cons_self) frame
            have cell : w.cell = (b.carrier, "transform") := Prod.ext element property
            rw [List.filterMap_cons_some frame, List.map_cons, cell]
            exact later.cons_cons _
  exact (single.map fun _ _ same => congrArg Prod.fst same).sublist cells

end

/-- The nodes that belong to a moved element. -/
def nodes (b : TransformBinding) : List NodeId :=
  b.element :: b.groups

end TransformBinding

end Binding

/-! ## Drawings -/

namespace Template

open Binding

/-- A drawing whose carriers can be moved by the clock. -/
structure Steered (t : Template) : Prop extends Legible t where
  carriers : ∀ b ∈ t.transforms, t.document.isElement b.carrier = true
  /-- No node belongs to two moved elements. -/
  scattered : (t.transforms.flatMap TransformBinding.nodes).Nodup
  steered : ∀ b ∈ t.transforms, b.Steered

variable {t : Template}

/-- Every new node belongs to one moved element, and no such element is a new node. -/
theorem nodup_nodes_ofDocument (settings : Settings) {d : Document} {svg : NodeId}
    (whole : d.WellFormed) (inside : svg < d.nodeCount) :
    ((ofDocument settings d svg).transforms.flatMap TransformBinding.nodes).Nodup := by
  let t := ofDocument settings d svg
  obtain ⟨numbered, -⟩ := groups_ofDocument settings whole inside
  have preserves : t.Preserves d svg := preserves_ofDocument settings whole inside
  have once : (t.transforms.flatMap TransformBinding.groups).Nodup :=
    (List.nodup_cons.1 preserves.once).2
  have new : ∀ g ∈ t.transforms.flatMap TransformBinding.groups, d.nodeCount < g := by
    intro g member
    rw [groups, List.length_cons, List.range'_succ, List.cons_eq_cons] at numbered
    rw [numbered.2, List.mem_range'_1] at member
    exact member.1
  have old : ∀ b ∈ t.transforms, b.element ≤ d.nodeCount := by
    intro b member
    obtain ⟨ids, elements, bound⟩ := grouped_boundTransforms settings whole inside
    have listed := List.mem_map_of_mem (f := TransformBinding.element) member
    rw [(families_of (ofDocument_bindings settings d svg)).2.1, bound.elements] at listed
    have below := Document.lt_of_isElement (elements b.element listed)
    rw [nodeCount_boundTexts settings whole inside] at below
    exact Nat.le_of_lt_succ below
  have apart : (t.transforms.map TransformBinding.element).Nodup :=
    (sound_ofDocument settings whole inside).apart
  have mem_groups {b : TransformBinding} (member : b ∈ t.transforms) {g : NodeId}
      (group : g ∈ b.groups) : d.nodeCount < g := new g (List.mem_flatMap.2 ⟨b, member, group⟩)
  rw [List.nodup_flatMap] at once ⊢
  refine ⟨fun b member => ?_, ?_⟩
  · refine List.nodup_cons.2 ⟨fun group => ?_, once.1 b member⟩
    exact Nat.not_lt_of_le (old b member) (mem_groups member group)
  · rw [List.Nodup, List.pairwise_map] at apart
    refine (apart.and once.2).imp_of_mem fun {b c} first second both n here there => ?_
    rcases List.mem_cons.1 here with rfl | group
    · rcases List.mem_cons.1 there with same | group
      · exact both.1 same
      · exact Nat.not_lt_of_le (old b first) (mem_groups second group)
    · rcases List.mem_cons.1 there with rfl | group'
      · exact Nat.not_lt_of_le (old c second) (mem_groups first group)
      · exact both.2 group group'

/-- Every drawing that is read can be moved by the clock. -/
theorem steered_ofText {settings : Settings} {text : String}
    (made : ofText settings text = .ok t) : t.Steered := by
  have legible : t.Legible := (captured_ofText made).1
  obtain ⟨d, svg, whole, inside, rfl, -⟩ := ofText_eq_ok made
  have preserves := preserves_ofDocument settings whole inside
  refine ⟨legible, fun b member => ?_, nodup_nodes_ofDocument settings whole inside, ?_⟩
  · have listed : b.carrier ∈ (ofDocument settings d svg).groups :=
      List.mem_cons_of_mem _ (List.mem_flatMap.2 ⟨b, member, by simp [TransformBinding.groups]⟩)
    rw [Document.isElement, preserves.grouped _ listed]
    rfl
  · have bound : boundTransforms settings d svg = bindAll TransformBinding.bind _ _ :=
      bindFamily_eq _ _ _ _
    rw [(families_of (ofDocument_bindings settings d svg)).2.1, bound]
    exact bindAll_forall TransformBinding.steered_bind _ _

/-- What updates keep of a drawing that can be moved by the clock. -/
theorem Steered.of_updated {t' : Template} (before : t.Steered) (legible : t'.Legible)
    (updated : t.Updated t') (steered : ∀ b ∈ t'.transforms, b.Steered) : t'.Steered := by
  have nodes (t : Template) : t.transforms.flatMap TransformBinding.nodes =
      (t.transforms.map TransformBinding.place).flatMap fun p => [p.1, p.2.1, p.2.2] := by
    rw [List.flatMap_map]
    rfl
  refine ⟨legible, fun b member => ?_, ?_, steered⟩
  · have placed := List.mem_map_of_mem (f := TransformBinding.place) member
    rw [updated.places] at placed
    obtain ⟨c, known, same⟩ := List.mem_map.1 placed
    have carrier : c.carrier = b.carrier := congrArg (fun p => p.2.2) same
    rw [updated.document.isElement, ← carrier, before.carriers c known]
  · rw [nodes, updated.places, ← nodes]
    exact before.scattered

theorem Steered.apply (before : t.Steered) (table : Table) : (t.apply table).Steered := by
  refine before.of_updated (before.toLegible.apply table).1
    ((Updated.refl t).apply before.toLegible before.toLegible table) ?_
  have moved : (t.apply table).transforms = (t.moved table).2 :=
    (families_of (by rw [apply_eq table before.toSound])).2.1
  rw [moved, moved_eq table before.toSound]
  intro b member
  obtain ⟨c, known, rfl⟩ := List.mem_map.1 member
  exact (before.steered c known).after _ _ _

/-- What a tick of the clock makes of the bindings: the running easings are counted on by one
frame, nothing else is changed. -/
def clockedBinding (now : Float) : Binding → Binding
  | .transform b => .transform (b.clocked now)
  | b => b

/-- What a tick of the clock makes of a drawing. -/
structure Clocked (now : Float) (t t' : Template) : Prop where
  group : t'.instanceGroup = t.instanceGroup
  names : t'.names = t.names
  instanceMarkup : t'.instanceMarkup = t.instanceMarkup
  bindings : t'.bindings = t.bindings.map (clockedBinding now)
  /-- A running easing has its frame, and its carrier is at the guide's point there. -/
  frames : ∀ b ∈ t.transforms, b.easing.active = true → ∃ kind guide offset,
    b.followed = some kind ∧ b.guide = some guide ∧
    (b.easing.tick now).2 = some (b.easing.tick now).1.current ∧
    guide.offset? (b.easing.tick now).1.current b.origin = some offset ∧
    t'.document.style? b.carrier "transform" = some (kind.offsetFragment offset)
  /-- Of a carrier only the transform is changed. -/
  unstyled : t'.document.unstyled = t.document.unstyled
  styles : ∀ n q, q ≠ "transform" → t'.document.style? n q = t.document.style? n q
  attributes : ∀ n, (∀ b ∈ t.transforms, b.easing.active = true → b.carrier ≠ n) →
    t'.document.attributes n = t.document.attributes n
  /-- An element whose easing does not run is left alone, and so are its groups. -/
  still : ∀ b ∈ t.transforms, b.easing.active = false → ∀ n ∈ b.nodes,
    t'.document.attributes n = t.document.attributes n

/-- A tick of the clock writes the frames of all running easings. -/
theorem Steered.tick_eq (before : t.Steered) (now : Float) :
    t.tick now =
      { t with
        document := t.document.putStyles (t.transforms.filterMap (TransformBinding.frame? now))
        bindings := t.bindings.map (clockedBinding now) } := by
  have bindings : t.bindings.map (clockedBinding now) = t.wordings.map .wording ++
      (t.transforms.map (TransformBinding.clocked now)).map .transform ++
      t.paints.map .paint := by
    rw [before.families, List.map_append, List.map_append, List.map_map, List.map_map,
      List.map_map, List.map_map]
    rfl
  rw [Template.tick_eq now before.toSound, TransformBinding.pass_tick_eq before.steered, bindings]

theorem Steered.transforms_tick (before : t.Steered) (now : Float) :
    (t.tick now).transforms = t.transforms.map (TransformBinding.clocked now) := by
  have result := Template.tick_eq now before.toSound
  rw [TransformBinding.pass_tick_eq before.steered] at result
  exact (families_of (by rw [result])).2.1

theorem Steered.tick (before : t.Steered) (now : Float) : (t.tick now).Steered := by
  refine before.of_updated (before.toLegible.tick now).1
    ((Updated.refl t).tick before.toLegible now) ?_
  rw [before.transforms_tick]
  intro b member
  obtain ⟨c, known, rfl⟩ := List.mem_map.1 member
  exact (before.steered c known).clocked now

/-- **A tick takes the carriers of running easings to their places and changes nothing else.** -/
theorem Steered.clocked_tick (before : t.Steered) (now : Float) : t.Clocked now (t.tick now) := by
  let ws := t.transforms.filterMap (TransformBinding.frame? now)
  have fits : ∀ w ∈ ws, t.document.Fits w := by
    intro w member
    obtain ⟨b, known, frame⟩ := List.mem_filterMap.1 member
    exact (TransformBinding.fits_frame? (before.carriers b known) frame).2.2
  have scattered := List.nodup_flatMap.1 before.scattered
  have single : (t.transforms.map TransformBinding.carrier).Nodup := by
    rw [List.Nodup, List.pairwise_map]
    refine scattered.2.imp fun {b c} apart same => apart (a := b.carrier) ?_ ?_
    · simp [TransformBinding.nodes, TransformBinding.groups]
    · simp [TransformBinding.nodes, TransformBinding.groups, same]
  have shown := Document.shows_putStyles fits
    (TransformBinding.nodup_frames single before.carriers now)
  have attributes : ∀ n, (∀ b ∈ t.transforms, b.easing.active = true → b.carrier ≠ n) →
      (t.document.putStyles ws).attributes n = t.document.attributes n := by
    intro n other
    refine Document.attributes_putStyles fun w member => ?_
    obtain ⟨b, known, frame⟩ := List.mem_filterMap.1 member
    rw [(TransformBinding.fits_frame? (before.carriers b known) frame).1]
    refine other b known ?_
    cases running : b.easing.active with
    | true => rfl
    | false =>
        rw [TransformBinding.frame?_of_still running] at frame
        contradiction
  rw [before.tick_eq]
  refine {
    group := rfl
    names := rfl
    instanceMarkup := rfl
    bindings := rfl
    frames := fun b known running => ?_
    unstyled := Document.unstyled_putStyles _ _
    styles := fun n q other => ?_
    attributes := attributes
    still := fun b known still n here => attributes n fun c member running same => ?_ }
  · obtain ⟨kind, guide, offset, followed, held, place, frame⟩ :=
      (before.steered b known).frame?_of_active running now
    refine ⟨kind, guide, offset, followed, held, Easing.tick_of_active running, place, ?_⟩
    exact (shown _ (List.mem_filterMap.2 ⟨b, known, frame⟩)).value
  · refine Document.style?_putStyles fits fun listed => ?_
    obtain ⟨w, member, cell⟩ := List.mem_map.1 listed
    obtain ⟨b, known, frame⟩ := List.mem_filterMap.1 member
    have property := (TransformBinding.fits_frame? (before.carriers b known) frame).2.1
    exact other ((congrArg Prod.snd cell).symm.trans property)
  · have symm : Std.Symm (Function.onFun List.Disjoint TransformBinding.nodes) :=
      ⟨fun _ _ disjoint => List.Disjoint.symm disjoint⟩
    have apart : List.Disjoint b.nodes c.nodes := by
      refine scattered.2.forall known member ?_
      rintro rfl
      rw [still] at running
      contradiction
    exact apart here (by simp [TransformBinding.nodes, TransformBinding.groups, ← same])

theorem mem_transforms {b : TransformBinding} : b ∈ t.transforms ↔ .transform b ∈ t.bindings := by
  rw [transforms, List.mem_filterMap]
  constructor
  · rintro ⟨c, member, same⟩
    cases c <;> simp_all
  · exact fun member => ⟨_, member, rfl⟩

/-- A tick changes nothing when no easing runs. -/
theorem Steered.tick_of_still (before : t.Steered)
    (still : ∀ b ∈ t.transforms, b.easing.active = false) (now : Float) : t.tick now = t := by
  have frames : t.transforms.filterMap (TransformBinding.frame? now) = [] :=
    List.filterMap_eq_nil_iff.2 fun b known => TransformBinding.frame?_of_still (still b known)
  have bindings : t.bindings.map (clockedBinding now) = t.bindings := by
    refine (List.map_congr_left fun b member => ?_).trans (List.map_id _)
    cases b with
    | transform b =>
        exact congrArg Binding.transform
          (TransformBinding.clocked_of_still (still b (mem_transforms.2 member)))
    | _ => rfl
  rw [before.tick_eq, frames, bindings]
  rfl

/-- More frames are needed as long as an easing runs. -/
theorem Steered.isMoving_iff (before : t.Steered) :
    t.isMoving = true ↔ ∃ b ∈ t.transforms, b.easing.active = true := by
  rw [isMoving, List.any_eq_true]
  constructor
  · rintro ⟨b, member, moving⟩
    cases b with
    | transform b =>
        have known := mem_transforms.2 member
        exact ⟨b, known, (before.steered b known).isMoving ▸ moving⟩
    | _ => simp [Binding.isMoving] at moving
  · rintro ⟨b, known, running⟩
    exact ⟨.transform b, mem_transforms.1 known, (before.steered b known).isMoving.trans running⟩

/-- The clock leaves a drawing alone in which nothing moves. -/
theorem Steered.tick_of_stopped (before : t.Steered) (stopped : t.isMoving = false) (now : Float) :
    t.tick now = t := by
  refine before.tick_of_still (fun b known => ?_) now
  rw [← Bool.not_eq_true]
  intro running
  rw [before.isMoving_iff.2 ⟨b, known, running⟩] at stopped
  contradiction

end Template

/-! ## Sessions -/

namespace Session

variable {s : Session}

/-- The drawing of every session can be moved by the clock. -/
theorem steered_run (settings : Settings) (events : List Event) {t : Template}
    (held : ((start settings).run events).template = some t) : t.Steered :=
  template_run (fun _ _ => Template.steered_ofText) (fun _ table before => before.apply table)
    (fun _ now before => before.tick now) events t held

/-- An event that brings neither a drawing nor a table nor a message lets at most the clock go on. -/
theorem step_of_quiet {e : Event} (idle : e.applies = false) (refused : e.loads s.settings = false) :
    s.step e = s ∨ ∃ now, s.step e = s.tick now := by
  cases e with
  | load text => exact .inl (step_load_of_refused refused)
  | receive m => simp [Event.applies, Event.message?] at idle
  | receiveText text =>
      left
      have unread : Message.ofJson? text = none := by
        simpa [Event.applies, Event.message?] using idle
      rw [step_receiveText, unread]
      rfl
  | apply => simp [Event.applies] at idle
  | tick now => exact .inr ⟨now, rfl⟩
  | redraw => exact .inl rfl

/-- The clock leaves a session alone in which nothing moves. -/
theorem tick_of_stopped (steered : ∀ t, s.template = some t → t.Steered)
    (stopped : s.isMoving = false) (now : Float) : s.tick now = s := by
  have kept : s.template.map (Template.tick now) = s.template := by
    cases held : s.template with
    | none => rfl
    | some t =>
        rw [isMoving, held] at stopped
        rw [Option.map_some, (steered t held).tick_of_stopped stopped]
  rw [tick_eq, kept]

/-- A session that the clock leaves alone stays as it is. -/
theorem run_of_still (still : ∀ now, s.tick now = s) {later : List Event}
    (quiet : ∀ e ∈ later, e.applies = false ∧ e.loads s.settings = false) : s.run later = s := by
  induction later with
  | nil => rfl
  | cons e rest ih =>
      obtain ⟨idle, refused⟩ := quiet e List.mem_cons_self
      have first : s.step e = s := by
        rcases step_of_quiet idle refused with same | ⟨now, ticked⟩
        · exact same
        · rw [ticked, still]
      have later := ih fun c member => quiet c (List.mem_cons_of_mem e member)
      rw [run, List.foldl_cons, first]
      exact later

/-- **Carriers on their way.**  In every session that can be reached, a tick of the clock gives
every running easing exactly one frame, behind which the transform of the carrier is what the
followed position writes for the offset of the guide at the value of that frame; bindings whose
easing does not run are left alone, with their elements and groups, and nothing else is changed.
The tick asks for more frames exactly if an easing still runs.  If none does, ticks and all other
events that bring no drawing, no message that can be read and no table leave the whole session
alone, and no tick asks for more. -/
theorem tick_moves_carriers (settings : Settings) (events : List Event) (now : Float) :
    let s := (start settings).run events
    let more := (s.advance now).2
    (∀ t, s.template = some t →
      ∃ t', s.tick now = { s with template := some t' } ∧ t.Clocked now t') ∧
    (more = true ↔
      ∃ t', (s.tick now).template = some t' ∧ ∃ b ∈ t'.transforms, b.easing.active = true) ∧
    more = (s.tick now).isMoving ∧
    (more = false →
      ∀ later : List Event, (∀ e ∈ later, e.applies = false ∧ e.loads settings = false) →
        (s.tick now).run later = s.tick now ∧
          ∀ next, ((s.tick now).run later).advance next = (s.tick now, false)) := by
  intro s more
  have steered : ∀ t, s.template = some t → t.Steered := fun _ => steered_run settings events
  have after : ∀ t', (s.tick now).template = some t' → t'.Steered := by
    intro t' held
    rw [tick_template] at held
    obtain ⟨t, before, rfl⟩ := Option.map_eq_some_iff.1 held
    exact (steered t before).tick now
  have asked : more = (s.tick now).isMoving := advance_snd s now
  have moving : more = true ↔
      ∃ t', (s.tick now).template = some t' ∧ ∃ b ∈ t'.transforms, b.easing.active = true := by
    rw [asked, isMoving, Option.any_eq_true]
    exact exists_congr fun t' => and_congr_right fun held => (after t' held).isMoving_iff
  refine ⟨fun t held => ⟨t.tick now, ?_, (steered t held).clocked_tick now⟩, moving, asked, ?_⟩
  · rw [tick_eq, held, Option.map_some]
  · intro stopped later quiet
    have same : (s.tick now).settings = settings := (holds_run settings events).same
    have still (next : Float) : (s.tick now).tick next = s.tick now :=
      tick_of_stopped after (asked ▸ stopped) next
    have rests : (s.tick now).run later = s.tick now := by
      refine run_of_still still fun e member => ?_
      rw [same]
      exact quiet e member
    refine ⟨rests, fun next => ?_⟩
    rw [rests]
    refine Prod.ext (still next) ?_
    rw [advance_snd, still next, ← asked, stopped]

/-- A bar that follows a road by a value. -/
def roadDrawing : String :=
  "<svg><path id=\"road\" d=\"M0 0H8\"/><rect id=\"\x7b\x7bp:Value,g:road\x7d\x7d\" width=\"4\"/></svg>"

/-- A message about a value halfway between its bounds. -/
def halfwayMessage : Message :=
  { version := "1", resultName := "values", rowCount := 1, availableRowCount := 1
    rows := [[some (.number 5)]]
    columns := [⟨"bi1", "Value \x7b\x7b0..10\x7d\x7d", .number, none, none, none⟩] }

/-- The theorem at this bar, a second behind its first frame: it arrives halfway along the road, and
then the clock can go on without an effect. -/
theorem tick_moves_carriers_road :
    let s := (start .default).run [.load roadDrawing, .receive halfwayMessage, .tick 0]
    ∃ t t', s.template = some t ∧ (∃ b ∈ t.transforms, b.easing.active = true ∧ b.carrier = 5) ∧
      (s.advance 500).2 = true ∧
      s.advance 1000 = ({ s with template := some t' }, false) ∧ t.Clocked 1000 t' ∧
      t'.document.style? 5 "transform" = some "translate(4px,0px)" ∧
      (s.tick 1000).run [.tick 2000, .redraw] = s.tick 1000 ∧
      ((s.tick 1000).run [.tick 2000, .redraw]).advance 3000 = (s.tick 1000, false) := by
  intro s
  have running : s.template.map (fun t =>
      t.transforms.map fun b => (b.easing.active, b.carrier)) = some [(true, 5)] := by
    decide +kernel
  have halfway : (s.advance 500).2 = true := by decide +kernel
  have arrived : ((s.tick 1000).template.map fun t => t.document.style? 5 "transform") =
      some (some "translate(4px,0px)") ∧ (s.advance 1000).2 = false := by
    decide +kernel
  obtain ⟨t, held, bindings⟩ := Option.map_eq_some_iff.1 running
  obtain ⟨clocked, -, -, rests⟩ := tick_moves_carriers .default
    [.load roadDrawing, .receive halfwayMessage, .tick 0] 1000
  obtain ⟨t', ticked, frames⟩ := clocked t held
  have member : (true, 5) ∈ t.transforms.map fun b => (b.easing.active, b.carrier) := by
    rw [bindings]
    exact List.mem_cons_self
  obtain ⟨b, known, same⟩ := List.mem_map.1 member
  obtain ⟨active, carrier⟩ := Prod.mk.inj same
  have shown : t'.document.style? 5 "transform" = some "translate(4px,0px)" := by
    have here : (s.tick 1000).template = some t' := congrArg Session.template ticked
    simpa [here] using arrived.1
  obtain ⟨resting, quiet⟩ := rests arrived.2 [.tick 2000, .redraw]
    (by simp [Event.applies, Event.message?, Event.loads])
  exact ⟨t, t', held, ⟨b, known, active, carrier⟩, halfway, Prod.ext ticked arrived.2, frames,
    shown, resting, quiet 3000⟩

end Session

end Infographic
