/-
# Infographic.Proofs.TemplateRuns -- what several tables leave behind

Applying a table words the texts, writes the transforms and then the paint.  After several
tables the texts are those of the last one, and so are the transforms, with guides that took
their form when they were first needed; a painted property holds what the last table that
drives it gave it.  `Template.After` says this of a drawing, `Template.After.apply` that one
more table keeps it, and `Template.after_applyAll` that it holds of every run.
-/
import Infographic.Proofs.PaintPass
import Infographic.Proofs.TemplateMaking
import Infographic.Proofs.TransformPass
import Mathlib.Data.List.Induction

namespace Infographic

set_option autoImplicit false

open Markup (Document NodeId)
open Markup.Document (setTexts_setTexts setTexts_frame unstyled_setTexts isElement_of_unstyled
  nodeCount_of_unstyled le_nodeCount_setTexts)
open Binding

/-! ## Running the families -/

namespace Binding

variable {step : Document → Binding → Document × Binding}

theorem runAll_append (d : Document) (first second : List Binding) :
    runAll step d (first ++ second) =
      ((runAll step (runAll step d first).1 second).1,
        (runAll step d first).2 ++ (runAll step (runAll step d first).1 second).2) := by
  induction first generalizing d with
  | nil => rfl
  | cons b rest ih =>
      have later := ih (step d b).1
      simp only [List.cons_append, runAll, later]

/-- Bindings of one family are run by a step on this family. -/
theorem runAll_map {β : Type} {wrap : β → Binding} {one : Document → β → Document × β}
    (same : ∀ d b, step d (wrap b) = ((one d b).1, wrap (one d b).2)) (d : Document)
    (bs : List β) :
    runAll step d (bs.map wrap) = ((pass one d bs).1, (pass one d bs).2.map wrap) := by
  induction bs generalizing d with
  | nil => rfl
  | cons b rest ih =>
      have later := ih (one d b).1
      simp only [List.map_cons, runAll, pass, same, later]

theorem apply_transform (table : Table) (names : NameTable) (d : Document)
    (b : TransformBinding) :
    Binding.apply table names d (.transform b) =
      ((b.apply table names d).1, .transform (b.apply table names d).2) := by
  rw [Binding.apply]

/-- A step that keeps the bindings is a fold over the document. -/
theorem pass_eq_foldl {β : Type} (one : Document → β → Document) (d : Document) (bs : List β) :
    pass (fun d b => (one d b, b)) d bs = (bs.foldl one d, bs) := by
  induction bs generalizing d with
  | nil => rfl
  | cons b rest ih =>
      have later := ih (one d b)
      simp only [pass, later, List.foldl_cons]

end Binding

namespace Template

variable (t : Template) (table : Table)

/-- What the texts of a drawing say for a table. -/
def phrases : List (NodeId × String) :=
  t.wordings.map fun b => (b.element, Phrase.fill table b.phrase)

/-- The document with the texts for a table, and nothing else written. -/
def worded : Document :=
  t.document.setTexts (t.phrases table)

/-- The document with the transforms for a table, and the bindings that wrote them. -/
def moved : Document × List TransformBinding :=
  pass (fun d b => b.apply table t.names d) (t.worded table) t.transforms

/-- The document with the paint for a table. -/
def painted : Document :=
  t.paints.foldl (PaintBinding.apply table) (t.moved table).1

variable {t}

/-- Applying a table words the texts, writes the transforms, and then the paint. -/
theorem apply_eq (sound : t.Sound) : t.apply table =
    { t with
      document := t.painted table
      bindings := t.wordings.map .wording ++ (t.moved table).2.map .transform ++
        t.paints.map .paint } := by
  let step := Binding.apply table t.names
  have texts : runAll step t.document (t.wordings.map .wording) =
      (t.worded table, t.wordings.map .wording) := by
    rw [@runAll_map step _ .wording (fun d b => (b.apply table d, b)) (fun _ _ => rfl),
      pass_eq_foldl, worded, phrases, Document.setTexts, List.foldl_map]
    rfl
  have moves : runAll step (t.worded table) (t.transforms.map .transform) =
      ((t.moved table).1, (t.moved table).2.map .transform) :=
    @runAll_map step _ .transform (fun d b => b.apply table t.names d)
      (apply_transform table t.names) _ _
  have paint : runAll step (t.moved table).1 (t.paints.map .paint) =
      (t.painted table, t.paints.map .paint) := by
    rw [@runAll_map step _ .paint (fun d b => (b.apply table d, b)) (fun _ _ => rfl),
      pass_eq_foldl]
    rfl
  have whole : runAll step t.document t.bindings =
      (t.painted table, t.wordings.map .wording ++ (t.moved table).2.map .transform ++
        t.paints.map .paint) := by
    rw [sound.families, runAll_append, runAll_append, texts, moves, paint]
  rw [apply, run, whole]

/-! ## One pass after the other -/

theorem worded_frame (t : Template) (table : Table) (n : NodeId) :
    (t.worded table).isElement n = t.document.isElement n ∧
      ∀ q, (t.worded table).style? n q = t.document.style? n q :=
  setTexts_frame (t.phrases table) n

theorem moved_frame (sound : t.Sound) :
    (t.moved table).1.unstyled = (t.worded table).unstyled ∧
      List.Forall₂ (TransformBinding.Moved fun b => b.guideAfter (t.worded table) t.names table)
        t.transforms (t.moved table).2 ∧
      (∀ b ∈ t.transforms, (t.moved table).1.style? b.element "transform" =
        b.shown? (b.settled (t.worded table) t.names) table) ∧
      ∀ n q, (q = "transform" → ∀ b ∈ t.transforms, b.element ≠ n) →
        (t.moved table).1.style? n q = t.document.style? n q := by
  have slow : ∀ b ∈ t.transforms,
      ((t.worded table).style? b.element "transition-property").isSome = true := by
    intro b member
    rw [(t.worded_frame table b.element).2]
    exact sound.slow b member
  obtain ⟨unstyled, moved, shown, kept⟩ :=
    TransformBinding.pass_frame slow sound.firm t.names table sound.apart
  exact ⟨unstyled, moved, shown, fun n q other =>
    (kept n q other).trans ((t.worded_frame table n).2 q)⟩

theorem painted_frame (sound : t.Sound) :
    (t.painted table).unstyled = (t.worded table).unstyled ∧
      (∀ b ∈ t.paints, ∀ kind, (t.painted table).style? b.element kind.property =
        (b.shown? table kind).or (t.document.style? b.element kind.property)) ∧
      ∀ n q, (∀ b ∈ t.paints, b.element = n → ∀ kind : PaintKind, kind.property ≠ q) →
        (t.painted table).style? n q = (t.moved table).1.style? n q := by
  obtain ⟨unstyled, -, -, kept⟩ := moved_frame table sound
  have elements : ∀ b ∈ t.paints, (t.moved table).1.isElement b.element = true := by
    intro b member
    rw [isElement_of_unstyled unstyled, (t.worded_frame table b.element).1]
    exact sound.painted b member
  obtain ⟨unstyled', painted, kept'⟩ :=
    PaintBinding.foldl_apply_frame table elements sound.alone
  refine ⟨unstyled'.trans unstyled, fun b member kind => ?_, kept'⟩
  have other : kind.property ≠ "transform" := PaintKind.property_ne (by decide) kind
  rw [← kept b.element kind.property fun same => absurd same other]
  exact painted b member kind

/-- A drawing stays sound while its elements and slow properties stay and its moved elements
are moved by bindings that differ in guides and easings only. -/
theorem Sound.of_moved (sound : t.Sound) {t' : Template} {ms : List TransformBinding}
    {guide : TransformBinding → Option Guide}
    (ordered : t'.bindings =
      t.wordings.map .wording ++ ms.map .transform ++ t.paints.map .paint)
    (moved : List.Forall₂ (TransformBinding.Moved guide) t.transforms ms)
    (grown : t.document.nodeCount ≤ t'.document.nodeCount)
    (slow : ∀ n, t'.document.style? n "transition-property" =
      t.document.style? n "transition-property")
    (elements : ∀ n, t'.document.isElement n = t.document.isElement n) : t'.Sound := by
  obtain ⟨ws, same, ps⟩ := families_of ordered
  refine ⟨by rw [ws, same, ps, ordered], ?_, ?_, ?_, ?_, ?_, by rw [ps]; exact sound.alone⟩
  · rw [ws]
    exact fun b member => Nat.lt_of_lt_of_le (sound.worded b member) grown
  · rw [same]
    intro b' member
    obtain ⟨b, known, easing, followed, rfl⟩ := (TransformBinding.Moved.mem moved).2 b' member
    rw [slow]
    exact sound.slow b known
  · rw [same]
    intro b' member
    obtain ⟨b, known, easing, followed, rfl⟩ := (TransformBinding.Moved.mem moved).2 b' member
    exact sound.firm b known
  · rw [same, TransformBinding.Moved.elements moved]
    exact sound.apart
  · rw [ps]
    intro b member
    rw [elements]
    exact sound.painted b member

/-- Applying a table keeps a drawing ready for the next one. -/
theorem Sound.apply (sound : t.Sound) : (t.apply table).Sound := by
  obtain ⟨-, moved, -, kept⟩ := moved_frame table sound
  obtain ⟨unstyled, -, kept'⟩ := painted_frame table sound
  have result := apply_eq table sound
  have document : (t.apply table).document = t.painted table := by rw [result]
  refine sound.of_moved (by rw [result]) moved ?_ (fun n => ?_) fun n => ?_
  · rw [document, nodeCount_of_unstyled unstyled]
    exact le_nodeCount_setTexts t.document (t.phrases table)
  · rw [document, kept' _ _ fun _ _ _ => PaintKind.property_ne (by decide), kept _ _ (by simp)]
  · rw [document, isElement_of_unstyled unstyled, (t.worded_frame table n).1]

/-! ## What several tables leave behind -/

variable (t)

/-- The document with the texts for the last of some tables. -/
def wordedLast (tables : List Table) : Document :=
  tables.getLast?.elim t.document t.worded

/-- The guide of a binding after some tables: it takes its form with the texts of the first
table that drives a position. -/
def guideAfter (tables : List Table) (b : TransformBinding) : Option Guide :=
  match tables.find? fun table => b.seeks table TransformKind.all with
  | some first => b.settled (t.worded first) t.names
  | none => b.guide

/-- The transform of an element after some tables. -/
def transformAfter? (tables : List Table) (b : TransformBinding) : Option String :=
  tables.getLast?.elim (t.document.style? b.element "transform") fun table =>
    b.shown? (t.guideAfter tables b) table

/-- The value of a painted property after some tables: the last one it was given, or else
the one that was there before. -/
def paintAfter? (tables : List Table) (b : PaintBinding) (kind : PaintKind) : Option String :=
  (tables.filterMap fun table => b.shown? table kind).getLast?.or
    (t.document.style? b.element kind.property)

/-- What a drawing has become after some tables. -/
structure After (tables : List Table) (t' : Template) : Prop where
  sound : t'.Sound
  names : t'.names = t.names
  wordings : t'.wordings = t.wordings
  paints : t'.paints = t.paints
  transforms : List.Forall₂ (TransformBinding.Moved (t.guideAfter tables)) t.transforms
    t'.transforms
  unstyled : t'.document.unstyled = (t.wordedLast tables).unstyled
  transform : ∀ b ∈ t.transforms,
    t'.document.style? b.element "transform" = t.transformAfter? tables b
  paint : ∀ b ∈ t.paints, ∀ kind,
    t'.document.style? b.element kind.property = t.paintAfter? tables b kind
  /-- All other styles are as they were. -/
  kept : ∀ n q, (q = "transform" → ∀ b ∈ t.transforms, b.element ≠ n) →
    (∀ b ∈ t.paints, b.element = n → ∀ kind : PaintKind, kind.property ≠ q) →
      t'.document.style? n q = t.document.style? n q

variable {t}

theorem after_nil (sound : t.Sound) : t.After [] t where
  sound := sound
  names := rfl
  wordings := rfl
  paints := rfl
  transforms := List.forall₂_same.2 fun b _ => ⟨b.easing, b.followed, rfl⟩
  unstyled := rfl
  transform _ _ := rfl
  paint _ _ _ := rfl
  kept _ _ _ _ := rfl

/-! ## One more table -/

theorem getLast?_elim_concat {α β : Type} (as : List α) (a : α) (other : β) (f : α → β) :
    (as ++ [a]).getLast?.elim other f = f a := by
  rw [List.getLast?_concat, Option.elim_some]

theorem transformAfter?_concat (t : Template) (tables : List Table) (table : Table)
    (b : TransformBinding) :
    t.transformAfter? (tables ++ [table]) b =
      b.shown? (t.guideAfter (tables ++ [table]) b) table :=
  getLast?_elim_concat ..

theorem paintAfter?_concat (t : Template) (tables : List Table) (table : Table)
    (b : PaintBinding) (kind : PaintKind) :
    t.paintAfter? (tables ++ [table]) b kind =
      (b.shown? table kind).or (t.paintAfter? tables b kind) := by
  rw [paintAfter?, paintAfter?, List.filterMap_append, List.getLast?_append, ← Option.or_assoc]
  cases shown : b.shown? table kind <;> simp [shown]

theorem guideAfter_concat (t : Template) (tables : List Table) (table : Table)
    (b : TransformBinding) :
    t.guideAfter (tables ++ [table]) b =
      match tables.find? fun table => b.seeks table TransformKind.all with
      | some first => b.settled (t.worded first) t.names
      | none => b.guideAfter (t.worded table) t.names table := by
  rw [guideAfter, List.find?_append]
  cases tables.find? fun table => b.seeks table TransformKind.all with
  | some first => rfl
  | none =>
      rw [TransformBinding.guideAfter]
      cases sought : b.seeks table TransformKind.all <;> simp [sought]

/-- The first table after a drawing was made ready. -/
theorem after_one (sound : t.Sound) (table : Table) : t.After [table] (t.apply table) := by
  obtain ⟨-, moved, shown, kept⟩ := moved_frame table sound
  obtain ⟨unstyled, painted, kept'⟩ := painted_frame table sound
  have result := apply_eq table sound
  have document : (t.apply table).document = t.painted table := by rw [result]
  obtain ⟨ws, ms, ps⟩ := families_of (t := t.apply table) (by rw [result])
  have guides (b : TransformBinding) :
      t.guideAfter [table] b = b.guideAfter (t.worded table) t.names table :=
    t.guideAfter_concat [] table b
  exact {
    sound := sound.apply table
    names := by rw [result]
    wordings := ws
    paints := ps
    transforms := by
      rw [ms, funext guides]
      exact moved
    unstyled := by
      rw [document, unstyled]
      rfl
    transform := fun b member => by
      rw [document, kept' _ _ fun _ _ _ => PaintKind.property_ne (by decide), shown b member,
        ← TransformBinding.shown?_guideAfter, ← guides]
      exact (t.transformAfter?_concat [] table b).symm
    paint := fun b member kind => by
      rw [document, painted b member kind]
      exact (t.paintAfter?_concat [] table b kind).symm
    kept := fun n q other apart => by
      rw [document, kept' n q apart, kept n q other] }

namespace After

variable {tables : List Table} {t' : Template}

/-- Texts for one more table make the forms that they make without the tables before it. -/
theorem sameForms (after : t.After tables t') (sound : t.Sound) (table : Table) :
    SameForms (t'.worded table) (t.worded table) := by
  have phrases : t'.phrases table = t.phrases table := by
    rw [Template.phrases, Template.phrases, after.wordings]
  have again : ((t.wordedLast tables).setTexts (t.phrases table)).unstyled =
      (t.worded table).unstyled := by
    rw [wordedLast, worded]
    cases tables.getLast? with
    | none => rfl
    | some last =>
        rw [Option.elim_some, worded, setTexts_setTexts]
        · simp [Template.phrases, Function.comp_def]
        · intro w member
          obtain ⟨b, known, rfl⟩ := List.mem_map.1 member
          exact sound.worded b known
  have style (n : NodeId) (q : String) (other : q ≠ "transform")
      (apart : ∀ kind : PaintKind, kind.property ≠ q) :
      (t'.worded table).style? n q = (t.worded table).style? n q := by
    rw [(worded_frame t' table n).2, (worded_frame t table n).2]
    exact after.kept n q (fun same => absurd same other) fun _ _ _ => apart
  refine ⟨?_, fun n => ?_, fun n => ?_⟩
  · rw [← again, worded, phrases, unstyled_setTexts, after.unstyled, ← unstyled_setTexts]
  · exact style n "font-size" (by decide) (PaintKind.property_ne (by decide))
  · exact style n "text-anchor" (by decide) (PaintKind.property_ne (by decide))

/-- A guide takes its form with the texts of the first table that drives a position. -/
theorem guideAfter (after : t.After tables t') (sound : t.Sound) (table : Table)
    {b b' : TransformBinding} (moved : TransformBinding.Moved (t.guideAfter tables) b b') :
    t'.guideAfter [table] b' = t.guideAfter (tables ++ [table]) b := by
  have same := after.sameForms sound table
  have now : t'.guideAfter [table] b' = b'.guideAfter (t.worded table) t.names table := by
    rw [← after.names, ← TransformBinding.guideAfter_congr same]
    exact t'.guideAfter_concat [] table b'
  have seeks : b'.seeks table TransformKind.all = b.seeks table TransformKind.all := by
    obtain ⟨easing, followed, rfl⟩ := moved
    rfl
  have held : b'.guide = t.guideAfter tables b := by
    obtain ⟨easing, followed, rfl⟩ := moved
    rfl
  rw [now, guideAfter_concat, TransformBinding.guideAfter, TransformBinding.settled, seeks, held,
    Template.guideAfter]
  cases tables.find? fun table => b.seeks table TransformKind.all with
  | none => rfl
  | some first => simp [TransformBinding.settled, Function.comp_def, Guide.settle_settle]

/-- One more table. -/
theorem apply (after : t.After tables t') (sound : t.Sound) (table : Table) :
    t.After (tables ++ [table]) (t'.apply table) := by
  have one := after_one after.sound table
  exact {
    sound := one.sound
    names := one.names.trans after.names
    wordings := one.wordings.trans after.wordings
    paints := one.paints.trans after.paints
    transforms := TransformBinding.Moved.trans after.transforms one.transforms
      fun b b' moved => after.guideAfter sound table moved
    unstyled := by
      rw [one.unstyled, wordedLast, wordedLast, getLast?_elim_concat]
      exact (after.sameForms sound table).unstyled
    transform := fun b member => by
      obtain ⟨b', known, moved⟩ := (TransformBinding.Moved.mem after.transforms).1 b member
      have guide := after.guideAfter sound table moved
      have shown : (t'.apply table).document.style? b'.element "transform" =
          b'.shown? (t'.guideAfter [table] b') table :=
        (one.transform b' known).trans (t'.transformAfter?_concat [] table b')
      rw [transformAfter?_concat, ← guide]
      obtain ⟨easing, followed, rfl⟩ := moved
      exact shown
    paint := fun b member kind => by
      have shown : (t'.apply table).document.style? b.element kind.property =
          (b.shown? table kind).or (t'.paintAfter? [] b kind) :=
        (one.paint b (after.paints ▸ member) kind).trans (t'.paintAfter?_concat [] table b kind)
      rw [shown, paintAfter?_concat, ← after.paint b member kind]
      rfl
    kept := fun n q other apart => by
      have moved : q = "transform" → ∀ b' ∈ t'.transforms, b'.element ≠ n := by
        intro transform b' member
        obtain ⟨b, known, easing, followed, rfl⟩ :=
          (TransformBinding.Moved.mem after.transforms).2 b' member
        exact other transform b known
      exact (one.kept n q moved (by rwa [after.paints])).trans (after.kept n q other apart) }

end After

/-- Apply some tables, one after the other. -/
def applyAll (t : Template) (tables : List Table) : Template :=
  tables.foldl (fun t table => t.apply table) t

/-- **What any tables leave behind.** -/
theorem after_applyAll (sound : t.Sound) (tables : List Table) :
    t.After tables (t.applyAll tables) := by
  induction tables using List.reverseRecOn with
  | nil => exact after_nil sound
  | append_singleton tables table ih =>
      rw [applyAll, List.foldl_concat]
      exact ih.apply sound table

/-- Texts are those of the last table. -/
theorem After.text_of_last {tables : List Table} {table : Table} {t' : Template}
    (after : t.After (tables ++ [table]) t') (n : NodeId) :
    t'.document.text n = (t.worded table).text n := by
  have same : t'.document.unstyled = (t.worded table).unstyled := by
    rw [after.unstyled, wordedLast, getLast?_elim_concat]
  rw [← Document.text_unstyled, same, Document.text_unstyled]

/-! ## Two histories -/

section

variable {ms ns : List Table} {table : Table} {first second : Template}
  (left : t.After (ms ++ [table]) first) (right : t.After (ns ++ [table]) second)

include left right

/-- Styles agree where the paint that was given last is the same and the guides make the last
table show the same transform. -/
theorem style?_of_last_iff (n : NodeId) (property : String) :
    first.document.style? n property = second.document.style? n property ↔
      (∀ b ∈ t.paints, ∀ kind : PaintKind, b.element = n → kind.property = property →
        t.paintAfter? (ms ++ [table]) b kind = t.paintAfter? (ns ++ [table]) b kind) ∧
      (∀ b ∈ t.transforms, b.element = n → property = "transform" →
        b.shown? (t.guideAfter (ms ++ [table]) b) table =
          b.shown? (t.guideAfter (ns ++ [table]) b) table) := by
  have transforms {b : TransformBinding} (member : b ∈ t.transforms) :
      first.document.style? b.element "transform" =
          b.shown? (t.guideAfter (ms ++ [table]) b) table ∧
        second.document.style? b.element "transform" =
          b.shown? (t.guideAfter (ns ++ [table]) b) table := by
    rw [left.transform b member, right.transform b member, transformAfter?_concat,
      transformAfter?_concat]
    exact ⟨rfl, rfl⟩
  constructor
  · intro same
    refine ⟨fun b member kind here named => ?_, fun b member here named => ?_⟩
    · rw [← left.paint b member kind, ← right.paint b member kind, here, named, same]
    · rw [← (transforms member).1, ← (transforms member).2, here, ← named, same]
  · rintro ⟨paint, guides⟩
    by_cases painted : ∃ b ∈ t.paints, b.element = n ∧ ∃ kind : PaintKind, kind.property = property
    · obtain ⟨b, member, rfl, kind, rfl⟩ := painted
      rw [left.paint b member kind, right.paint b member kind, paint b member kind rfl rfl]
    · by_cases moved : property = "transform" ∧ ∃ b ∈ t.transforms, b.element = n
      · obtain ⟨rfl, b, member, rfl⟩ := moved
        rw [(transforms member).1, (transforms member).2, guides b member rfl rfl]
      · have other : property = "transform" → ∀ b ∈ t.transforms, b.element ≠ n :=
          fun named b member here => moved ⟨named, b, member, here⟩
        have apart : ∀ b ∈ t.paints, b.element = n → ∀ kind : PaintKind, kind.property ≠ property :=
          fun b member here kind named => painted ⟨b, member, here, kind, named⟩
        rw [left.kept n property other apart, right.kept n property other apart]

end

end Template

end Infographic
