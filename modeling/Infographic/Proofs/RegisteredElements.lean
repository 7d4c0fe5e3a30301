/-
# Infographic.Proofs.RegisteredElements -- which elements of a drawing are bound

An element is moved or painted if its id holds a tag, can be read as a directive and has an
option for it; an element is moved only if its tag says that it can be.  Each such element is
bound once, in the document order of the gathered drawing, whatever groups were put in for the
elements before it (`Template.registered_ofDocument`).  An id that cannot be read binds nothing,
and with a plain name in its place the registry is the same (`Template.Registered.renamed`).
-/
import Infographic.Proofs.LastingTexts
import Infographic.Proofs.PaintBesideTransforms

namespace Infographic

set_option autoImplicit false

open Markup (Document NodeId)
open Markup.Document (SameTree SameTexts Regrouped WellFormed attribute?_setAttribute
  lt_of_isElement isElement_of_mem_descendants nodup_descendants)

namespace Binding

variable {d d' : Document} {root n : NodeId} {keys : List String}

/-! ## What an id asks for -/

/-- An element whose id holds a tag, can be read as a directive, and has an option under one of
some keys. -/
def Asks (d : Document) (keys : List String) (n : NodeId) : Prop :=
  ∃ s directive, d.attribute? n "id" = some s ∧ Directive.hasTag s.toList = true ∧
    Directive.ofText s = .ok directive ∧ ∃ key ∈ keys, (directive.options.find? key).isSome = true

/-- An element whose id holds a tag but cannot be read as a directive. -/
def Unreadable (d : Document) (n : NodeId) : Prop :=
  ∃ s fault, d.attribute? n "id" = some s ∧ Directive.hasTag s.toList = true ∧
    Directive.ofText s = .error fault

/-- An element that can be moved. -/
def Movable (d : Document) (n : NodeId) : Prop :=
  ∃ tag ∈ TransformBinding.movableTags, d.tag? n = some tag

/-- A part of a text element with a tag in its text: a child element, or the text element
itself if it has none. -/
def Worded (d : Document) (root n : NodeId) : Prop :=
  ∃ text ∈ d.descendants root, d.tag? text = some "text" ∧
    (n ∈ d.elementChildren text ∨ d.elementChildren text = [] ∧ n = text) ∧
    Directive.hasTag (d.text n).toList = true

theorem hasOption_iff : hasOption d keys n = true ↔ Asks d keys n := by
  unfold hasOption idOptions? Asks
  cases held : d.attribute? n "id" with
  | none => simp
  | some s =>
      cases tagged : Directive.hasTag s.toList with
      | false => simp [Directive.ofTagged?, tagged]
      | true =>
          cases read : Directive.ofText s with
          | error fault => simp [Directive.ofTagged?, tagged, read, Except.toOption]
          | ok directive =>
              simp [Directive.ofTagged?, tagged, read, Except.toOption,
                Directive.Options.firstKey?]

theorem not_asks_of_unreadable (unreadable : Unreadable d n) : ¬ Asks d keys n := by
  rintro ⟨s, directive, held, -, read, -⟩
  obtain ⟨s', fault, held', -, refused⟩ := unreadable
  obtain rfl : s' = s := Option.some.inj (held'.symm.trans held)
  simp [refused] at read

/-- An id that cannot be read asks for as little as one without a tag. -/
theorem asks_setAttribute (unreadable : Unreadable d n) {name : String}
    (plain : Directive.hasTag name.toList = false) (m : NodeId) :
    Asks (d.setAttribute n "id" name) keys m ↔ Asks d keys m := by
  by_cases here : n = m ∧ d.isElement m = true
  · obtain ⟨rfl, element⟩ := here
    constructor
    · rintro ⟨s, directive, held, tagged, -⟩
      rw [attribute?_setAttribute, if_pos ⟨rfl, element, rfl⟩] at held
      obtain rfl := Option.some.inj held
      simp [plain] at tagged
    · intro asks
      exact absurd asks (not_asks_of_unreadable unreadable)
  · have same : (d.setAttribute n "id" name).attribute? m "id" = d.attribute? m "id" := by
      rw [attribute?_setAttribute, if_neg fun all => here ⟨all.1, all.2.1⟩]
    rw [Asks, Asks, same]

/-! ## Lists of elements -/

/-- The elements below a node that have a property, each once and in document order. -/
structure Lists (d : Document) (root : NodeId) (P : NodeId → Prop) (found : List NodeId) :
    Prop where
  ordered : found.Sublist (d.descendants root)
  once : found.Nodup
  mem_iff : ∀ n, n ∈ found ↔ n ∈ d.descendants root ∧ P n

theorem Lists.of_filter (whole : d.WellFormed) {P : NodeId → Prop} {p : NodeId → Bool}
    (decides : ∀ n, p n = true ↔ P n) : Lists d root P ((d.descendants root).filter p) where
  ordered := List.filter_sublist
  once := (nodup_descendants whole root).filter p
  mem_iff n := by rw [List.mem_filter, decides]

/-- Lists are the same in a document with the same tree where the property is the same. -/
theorem Lists.congr {P Q : NodeId → Prop} {found : List NodeId} (lists : Lists d root P found)
    (same : SameTree d d') (agree : ∀ n, P n ↔ Q n) : Lists d' root Q found where
  ordered := by
    rw [same.descendants]
    exact lists.ordered
  once := lists.once
  mem_iff n := by rw [same.descendants, ← agree, lists.mem_iff]

theorem lists_paint (whole : d.WellFormed) (root : NodeId) :
    Lists d root (Asks d PaintKind.allKeys) (PaintBinding.eligible d root) :=
  .of_filter whole fun _ => hasOption_iff

theorem lists_transforms (whole : d.WellFormed) (root : NodeId) :
    Lists d root (fun n => Movable d n ∧ Asks d TransformKind.allKeys n)
      (TransformBinding.eligible d root) := by
  rw [TransformBinding.eligible, withOptions, List.filter_filter]
  refine .of_filter whole fun n => ?_
  rw [Bool.and_eq_true, hasOption_iff, Option.any_eq_true]
  constructor
  · rintro ⟨⟨tag, tagged, member⟩, asks⟩
    exact ⟨⟨tag, List.contains_iff_mem.1 member, tagged⟩, asks⟩
  · rintro ⟨⟨tag, member, tagged⟩, asks⟩
    exact ⟨⟨tag, tagged, List.contains_iff_mem.2 member⟩, asks⟩

theorem mem_eligible_wording : n ∈ WordingBinding.eligible d root ↔ Worded d root n := by
  have part (text : NodeId) : n ∈ WordingBinding.parts d text ↔
      n ∈ d.elementChildren text ∨ d.elementChildren text = [] ∧ n = text := by
    unfold WordingBinding.parts
    cases d.elementChildren text <;> simp
  simp only [WordingBinding.eligible, Document.findAll, List.mem_filter, List.mem_flatMap, part,
    Option.any_eq_true, List.contains_iff_mem, List.mem_singleton, Worded]
  constructor
  · rintro ⟨⟨text, ⟨below, _, tagged, rfl⟩, inside⟩, tags⟩
    exact ⟨text, below, tagged, inside, tags⟩
  · rintro ⟨text, below, tagged, inside, tags⟩
    exact ⟨⟨text, ⟨below, _, tagged, rfl⟩, inside⟩, tags⟩

/-! ## Elements are found while others are bound -/

theorem withOptions_congr (same : SameTree d d')
    (ids : ∀ n, d'.attribute? n "id" = d.attribute? n "id") (root : NodeId) (keys : List String) :
    withOptions d' root keys = withOptions d root keys := by
  have option : hasOption d' keys = hasOption d keys := funext fun n => hasOption_congr (ids n)
  rw [withOptions, withOptions, same.descendants, option]

/-- The elements below a node that are bound: texts, moved elements, painted elements. -/
def asked (families : Families) (d : Document) (root : NodeId) :
    List NodeId × List NodeId × List NodeId :=
  (if families.wording then WordingBinding.eligible d root else [],
    if families.transforms then TransformBinding.eligible d root else [],
    if families.paint then PaintBinding.eligible d root else [])

/-- Binding a text writes where it stands and where it is anchored. -/
theorem WordingBinding.attribute?_bind {q : String} (other : q ∉ ["x", "text-anchor"])
    (d : Document) (id n : NodeId) : (bind d id).1.attribute? n q = d.attribute? n q := by
  simp only [List.mem_cons, List.not_mem_nil, or_false, not_or] at other
  change (align d id).attribute? n q = _
  unfold align
  split
  · rw [attribute?_setAttribute, if_neg fun all => other.2 all.2.2, attribute?_setAttribute,
      if_neg fun all => other.1 all.2.2]
  · rfl

/-- Binding texts changes no id. -/
theorem WordingBinding.ids_family (d : Document) (asked : Bool) (root n : NodeId) :
    (bindFamily asked eligible bind root d).1.attribute? n "id" = d.attribute? n "id" := by
  rw [bindFamily_eq]
  refine bindAll_induct (I := fun d' => d'.attribute? n "id" = d.attribute? n "id") ?_ rfl
  intro d' same id _
  rw [attribute?_bind (by decide), same]

end Binding

namespace Template

open Binding

variable {t : Template} {d : Document} {root : NodeId}

/-! ## The registry of a drawing -/

/-- The bindings of a drawing are those that its elements ask for: texts, then transforms, then
paint, each family in document order. -/
structure Registered (d : Document) (root : NodeId) (t : Template) : Prop where
  families : t.bindings =
    t.wordings.map .wording ++ t.transforms.map .transform ++ t.paints.map .paint
  wordings : ∀ n, n ∈ t.wordings.map WordingBinding.element ↔ Worded d root n
  transforms : Lists d root (fun n => Movable d n ∧ Asks d TransformKind.allKeys n)
    (t.transforms.map TransformBinding.element)
  paints : Lists d root (Asks d PaintKind.allKeys) (t.paints.map PaintBinding.element)

/-- The elements that a drawing binds: texts, moved elements, painted elements. -/
def elements (t : Template) : List NodeId × List NodeId × List NodeId :=
  (t.wordings.map WordingBinding.element, t.transforms.map TransformBinding.element,
    t.paints.map PaintBinding.element)

theorem Sound.length_elements (sound : t.Sound) : t.bindings.length =
    t.elements.1.length + t.elements.2.1.length + t.elements.2.2.length := by
  rw [sound.families]
  simp [elements, Nat.add_assoc]

/-- A table binds no other elements. -/
theorem elements_apply (sound : t.Sound) (table : Table) :
    (t.apply table).elements = t.elements := by
  obtain ⟨-, moved, -⟩ := moved_frame table sound
  obtain ⟨ws, ms, ps⟩ := families_of (t := t.apply table) (by rw [apply_eq table sound])
  rw [elements, elements, ws, ms, ps, TransformBinding.Moved.elements moved]

/-- As many elements are bound behind a table. -/
theorem length_apply (sound : t.Sound) (table : Table) :
    (t.apply table).bindings.length = t.bindings.length := by
  rw [(sound.apply table).length_elements, sound.length_elements, elements_apply sound]

namespace Registered

theorem apply (registered : Registered d root t) (sound : t.Sound) (table : Table) :
    Registered d root (t.apply table) := by
  have same := elements_apply sound table
  simp only [elements, Prod.mk.injEq] at same
  obtain ⟨ws, ms, ps⟩ := same
  refine ⟨(sound.apply table).families, ?_, ?_, ?_⟩
  · rw [ws]
    exact registered.wordings
  · rw [ms]
    exact registered.transforms
  · rw [ps]
    exact registered.paints

/-- An id that cannot be read binds nothing. -/
theorem not_mem (registered : Registered d root t) {n : NodeId} (unreadable : Unreadable d n) :
    n ∉ t.transforms.map TransformBinding.element ∧ n ∉ t.paints.map PaintBinding.element := by
  constructor
  · intro member
    exact not_asks_of_unreadable unreadable ((registered.transforms.mem_iff n).1 member).2.2
  · intro member
    exact not_asks_of_unreadable unreadable ((registered.paints.mem_iff n).1 member).2

/-- With a plain name in place of an id that cannot be read, all elements are bound as they
are with it. -/
theorem renamed (registered : Registered d root t) (whole : d.WellFormed) {n : NodeId}
    (unreadable : Unreadable d n) {name : String}
    (plain : Directive.hasTag name.toList = false) :
    Registered (d.setAttribute n "id" name) root t := by
  have same : SameTree d (d.setAttribute n "id" name) := .setAttribute d n "id" name
  have texts : SameTexts d (d.setAttribute n "id" name) := .setAttribute d n "id" name
  refine ⟨registered.families, fun m => ?_, registered.transforms.congr same fun m => ?_,
    registered.paints.congr same fun m => ?_⟩
  · rw [registered.wordings, Worded, Worded, same.descendants]
    refine exists_congr fun text => and_congr_right fun below => ?_
    rw [same.tag?, same.elementChildren]
    refine and_congr_right fun _ => and_congr_right fun part => ?_
    have inside : m < d.nodeCount := by
      rcases part with child | ⟨-, rfl⟩
      · exact lt_of_isElement (List.mem_filter.1 child).2
      · exact lt_of_isElement (isElement_of_mem_descendants whole.toLinked below)
    rw [texts.text m inside]
  · rw [asks_setAttribute unreadable plain, Movable, Movable, same.tag?]
  · rw [asks_setAttribute unreadable plain]

/-- An id that cannot be read binds nothing, and no element is bound or left out because of
it. -/
theorem isolated (registered : Registered d root t) (whole : d.WellFormed) :
    ∀ n, Unreadable d n →
      n ∉ t.transforms.map TransformBinding.element ∧
      n ∉ t.paints.map PaintBinding.element ∧
      ∀ name, Directive.hasTag name.toList = false →
        Registered (d.setAttribute n "id" name) root t := by
  intro n unreadable
  obtain ⟨unmoved, unpainted⟩ := registered.not_mem unreadable
  exact ⟨unmoved, unpainted, fun _ plain => registered.renamed whole unreadable plain⟩

end Registered

section

variable {settings : Settings} {svg : NodeId} (whole : d.WellFormed) (inside : svg < d.nodeCount)

include whole inside

/-- The elements that are bound are found in the gathered drawing, whatever is bound before
them. -/
theorem elements_ofDocument :
    (ofDocument settings d svg).elements =
      asked settings.families (gathered settings d svg).1 (gathered settings d svg).2 := by
  let start := (gathered settings d svg).1
  let root := (gathered settings d svg).2
  let worded := (boundTexts settings d svg).1
  let moved := (boundTransforms settings d svg).1
  have whole₁ : worded.WellFormed := wellFormed_boundTexts settings whole inside
  have same : SameTree start worded := (sameTree_boundTexts settings whole inside).1
  have ids (n : NodeId) : worded.attribute? n "id" = start.attribute? n "id" :=
    WordingBinding.ids_family start settings.families.wording root n
  have below : root < worded.nodeCount := by
    rw [same.nodeCount]
    exact group_lt_nodeCount_gather
  have regrouped : Regrouped worded moved :=
    TransformBinding.grouping_regrouped.family whole₁ settings.families.transforms root
  have moving : TransformBinding.eligible worded root = TransformBinding.eligible start root := by
    rw [TransformBinding.eligible, withOptions_congr same ids, funext same.tag?]
    rfl
  have painting : PaintBinding.eligible moved root = PaintBinding.eligible start root :=
    (withOptions_of_regrouped regrouped below _).trans (withOptions_congr same ids root _)
  have texts : boundTexts settings d svg = bindAll WordingBinding.bind start _ :=
    bindFamily_eq _ _ root start
  have moves : boundTransforms settings d svg = bindAll TransformBinding.bind worded _ :=
    bindFamily_eq _ _ root worded
  have paint : boundPaint settings d svg = bindAll PaintBinding.bind moved _ :=
    bindFamily_eq _ _ root moved
  obtain ⟨ws, ms, ps⟩ := families_of (ofDocument_bindings settings d svg)
  rw [elements, ws, ms, ps, asked, ← moving, ← painting, texts, moves, paint,
    bindAll_elements fun _ _ => rfl, bindAll_elements fun _ _ => rfl,
    bindAll_elements fun _ _ => rfl]

/-- Every drawing that is made ready with all families has the registry that its gathered
elements ask for. -/
theorem registered_ofDocument (all : settings.families = .all) :
    Registered (gathered settings d svg).1 (gathered settings d svg).2
      (ofDocument settings d svg) := by
  have whole₀ : (gathered settings d svg).1.WellFormed := wellFormed_gathered settings whole inside
  have bound : (ofDocument settings d svg).elements = _ := elements_ofDocument whole inside
  rw [all] at bound
  obtain ⟨ws, moved⟩ := Prod.mk.inj bound
  obtain ⟨ms, ps⟩ := Prod.mk.inj moved
  refine ⟨(sound_ofDocument settings whole inside).families, fun n => ?_, ?_, ?_⟩
  · rw [ws]
    exact mem_eligible_wording
  · rw [ms]
    exact lists_transforms whole₀ _
  · rw [ps]
    exact lists_paint whole₀ _

end

end Template

/-! ## Drawings that can be loaded -/

/-- The first element with a tag is found if there is one. -/
theorem Markup.Document.isSome_findFirst?_iff {d : Document} {root : NodeId} {tag : String} :
    (d.findFirst? root tag).isSome = true ↔
      ∃ n, (n = root ∨ n ∈ d.descendants root) ∧ d.tag? n = some tag := by
  unfold findFirst?
  split
  · rename_i here
    exact ⟨fun _ => ⟨root, .inl rfl, here⟩, fun _ => rfl⟩
  · rename_i other
    rw [List.find?_isSome]
    constructor
    · rintro ⟨n, member, tagged⟩
      exact ⟨n, .inr member, by simpa using tagged⟩
    · rintro ⟨n, rfl | member, tagged⟩
      · exact absurd tagged other
      · exact ⟨n, member, by simpa using tagged⟩

namespace Template

theorem isOk_ofText_iff {settings : Settings} {text : String} :
    (ofText settings text).isOk = true ↔
      ∃ d, Document.ofText? (Text.trimmed text) = some d ∧
        ∃ n, (n = d.root ∨ n ∈ d.descendants d.root) ∧ d.tag? n = some "svg" := by
  unfold ofText
  cases Document.ofText? (Text.trimmed text) with
  | none => simp [Except.isOk, Except.toBool]
  | some d =>
      simp only [Option.some.injEq, exists_eq_left', ← Document.isSome_findFirst?_iff]
      cases d.findFirst? d.root "svg" <;> simp [Except.isOk, Except.toBool]

/-- A drawing that is made ready comes from the first `svg` element of its text. -/
theorem ofText_eq_ok_iff {settings : Settings} {text : String} {t : Template} :
    ofText settings text = .ok t ↔
      ∃ d svg, Document.ofText? (Text.trimmed text) = some d ∧
        d.findFirst? d.root "svg" = some svg ∧ t = ofDocument settings d svg := by
  unfold ofText
  cases Document.ofText? (Text.trimmed text) with
  | none => simp
  | some d =>
      cases found : d.findFirst? d.root "svg" with
      | none => simp [found]
      | some svg => simp [found, eq_comm]

end Template

namespace Session

open Binding

/-- A drawing that was loaded is there as it was made ready, or with the table that was waiting
applied to it. -/
theorem load_eq_ok {s fresh : Session} {text : String} {count : Nat}
    (loaded : s.load text = .ok (fresh, count)) :
    ∃ t, Template.ofText s.settings text = .ok t ∧ fresh = s.adopt t ∧
      count = t.bindings.length := by
  unfold load at loaded
  cases made : Template.ofText s.settings text with
  | error fault => simp [made, Except.map] at loaded
  | ok t =>
      simp only [made, Except.map, Except.ok.injEq, Prod.mk.injEq] at loaded
      exact ⟨t, rfl, loaded.1.symm, loaded.2.symm⟩

/-- A load that brings something has succeeded. -/
theorem load_eq_of_toOption {s : Session} {text : String} {brought : Session × Nat}
    (usable : (s.load text).toOption = some brought) : s.load text = .ok brought := by
  cases loaded : s.load text with
  | error fault =>
      rw [loaded] at usable
      cases usable
  | ok loads =>
      rw [loaded] at usable
      exact congrArg Except.ok (Option.some.inj usable)

/-- **The registry is exact, and a directive that cannot be read stands alone.**  A text is loaded
if and only if it can be read and has an `svg` element, whatever its ids say.  With all families
its bindings are then those that the elements of the gathered drawing ask for, counted by the
load: texts, then transforms, then paint, each element once and in document order.  An id that
cannot be read binds nothing, and no element is bound or left out because of it. -/
theorem load_registers (s : Session) (text : String) :
    ((s.load text).isOk = true ↔
      ∃ d, Document.ofText? (Text.trimmed text) = some d ∧
        ∃ n, (n = d.root ∨ n ∈ d.descendants d.root) ∧ d.tag? n = some "svg") ∧
    ∀ fresh count, s.load text = .ok (fresh, count) → s.settings.families = .all →
      ∃ d svg t, Document.ofText? (Text.trimmed text) = some d ∧
        d.findFirst? d.root "svg" = some svg ∧
        fresh.template = some t ∧ count = t.bindings.length ∧
        let (tree, group) := Template.gathered s.settings d svg
        t.instanceGroup = group ∧ t.Registered tree group ∧
        ∀ n, Unreadable tree n →
          n ∉ t.transforms.map TransformBinding.element ∧
          n ∉ t.paints.map PaintBinding.element ∧
          ∀ name, Directive.hasTag name.toList = false →
            t.Registered (tree.setAttribute n "id" name) group := by
  have usable : (s.load text).isOk = (Template.ofText s.settings text).isOk := by
    unfold load
    cases Template.ofText s.settings text <;> rfl
  rw [usable, Template.isOk_ofText_iff]
  refine ⟨Iff.rfl, fun fresh count loaded all => ?_⟩
  obtain ⟨t, made, rfl, rfl⟩ := load_eq_ok loaded
  have sound := Template.sound_ofText made
  obtain ⟨d, svg, read, found, rfl⟩ := Template.ofText_eq_ok_iff.1 made
  have whole : d.WellFormed := Document.wellFormed_ofText? read
  have inside : svg < d.nodeCount := Document.lt_of_findFirst? found
  let t := Template.ofDocument s.settings d svg
  have tree := Template.wellFormed_gathered s.settings whole inside
  have registered : t.Registered _ _ := Template.registered_ofDocument whole inside all
  rcases adopt_template s t with here | here
  · exact ⟨d, svg, t, read, found, here, rfl, rfl, registered, registered.isolated tree⟩
  · have applied := registered.apply sound s.table
    exact ⟨d, svg, t.apply s.table, read, found, here,
      (Template.length_apply sound s.table).symm, rfl, applied, applied.isolated tree⟩

/-- A group that is scaled around a bar whose id cannot be read and a path that is moved and
filled. -/
def mixedDrawing : String :=
  "<svg><g id=\"\x7b\x7bs:Value\x7d\x7d\"><rect id=\"\x7b\x7bx|a:b:c\x7d\x7d\"/>" ++
    "<path id=\"\x7b\x7bf:Value,p:Value\x7d\x7d\"/></g><text>\x7b\x7bValue\x7d\x7d</text></svg>"

/-- The theorem at a drawing with such a bar: the elements around and beside it are bound. -/
theorem load_registers_mixed :
    let s := start .default
    s.settings.families = .all ∧
      ∃ fresh d t, s.load mixedDrawing = .ok (fresh, 4) ∧ fresh.template = some t ∧
        t.Registered (Template.gathered s.settings d 0).1 t.instanceGroup ∧
        t.transforms.map TransformBinding.element = [1, 3] ∧
        t.paints.map PaintBinding.element = [3] ∧
        Unreadable (Template.gathered s.settings d 0).1 2 ∧
        2 ∉ t.transforms.map TransformBinding.element := by
  intro s
  have all : s.settings.families = .all := by decide +kernel
  have usable : (s.load mixedDrawing).toOption.map (fun loaded =>
      (loaded.2, loaded.1.template.map fun t => (t.transforms.map TransformBinding.element,
        t.paints.map PaintBinding.element))) = some (4, some ([1, 3], [3])) := by decide +kernel
  obtain ⟨⟨fresh, count⟩, brought, seen⟩ := Option.map_eq_some_iff.1 usable
  have loaded : s.load mixedDrawing = .ok (fresh, count) := load_eq_of_toOption brought
  obtain ⟨rfl, here⟩ := Prod.mk.inj seen
  obtain ⟨d, svg, t, read, found, held, -, group, registered, isolated⟩ :=
    (load_registers s mixedDrawing).2 fresh 4 loaded all
  have shape : (Document.ofText? (Text.trimmed mixedDrawing)).map (fun d =>
      (d.findFirst? d.root "svg", (Template.gathered s.settings d 0).1.attribute? 2 "id")) =
      some (some 0, some "\x7b\x7bx|a:b:c\x7d\x7d") := by decide +kernel
  rw [read, Option.map_some, Option.some.injEq, Prod.mk.injEq, found, Option.some.injEq] at shape
  obtain ⟨rfl, named⟩ := shape
  have unreadable : Unreadable (Template.gathered s.settings d 0).1 2 := by
    have refused : (Directive.ofText "\x7b\x7bx|a:b:c\x7d\x7d").isOk = false := by decide +kernel
    cases result : Directive.ofText "\x7b\x7bx|a:b:c\x7d\x7d" with
    | error fault => exact ⟨_, fault, named, by decide +kernel, result⟩
    | ok directive => simp [result, Except.isOk, Except.toBool] at refused
  rw [held] at here
  obtain ⟨moved, painted⟩ := Prod.mk.inj (Option.some.inj here)
  exact ⟨all, fresh, d, t, loaded, held, group ▸ registered, moved, painted, unreadable,
    (isolated 2 unreadable).1⟩

end Session

end Infographic
