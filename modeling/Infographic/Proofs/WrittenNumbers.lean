/-
# Infographic.Proofs.WrittenNumbers -- when a written transform shows a number that is not finite

A number that is not finite is written `NaN`, `Infinity` or `-Infinity`, and no other text in a
transform has an `N` or an `I`.  So a text that shows some numbers (`Shows`) has one of these words
exactly if one of the numbers is not finite (`Shows.unreal_iff`).  `TransformKind.numbers` and
`TransformBinding.numbers` list the numbers in what a kind and a whole transform write.
-/
import Infographic.Proofs.FloatFields
import Infographic.Proofs.PlainNumbers
import Infographic.Proofs.TransformPass

namespace Infographic

set_option autoImplicit false

/-- The text has one of the words for a number that is not finite. -/
def Unreal (cs : List Char) : Prop :=
  "NaN".toList <:+: cs ∨ "Infinity".toList <:+: cs

/-! ## Numbers -/

namespace Number

variable {x : Float}

/-- Whether a character begins a word for a number that is not finite. -/
def isWordHead (c : Char) : Bool :=
  c == 'N' || c == 'I'

theorem isWordHead_of_isDigit {c : Char} (digit : isDigit c = true) : isWordHead c = false := by
  rw [← Bool.not_eq_true]
  intro head
  simp only [isWordHead, Bool.or_eq_true, beq_iff_eq] at head
  rcases head with rfl | rfl <;> exact absurd digit (by decide)

/-- A finite number is written without words. -/
theorem not_isWordHead_of_isFinite (finite : x.isFinite = true) :
    ∀ c ∈ plain x, isWordHead c = false := by
  obtain ⟨d, decoded⟩ := isFinite_iff.1 finite
  obtain ⟨n, proper, written⟩ := plain_eq_text d
  have text : ∀ c ∈ n.text, isDigit c = true ∨ c = '-' ∨ c = '.' := by
    have magnitude : ∀ c ∈ n.magnitude, isDigit c = true ∨ c = '.' := by
      intro c member
      rcases List.mem_append.1 member with whole | behind
      · exact .inl (proper.whole.digits c whole)
      · split at behind
        · simp at behind
        · rcases List.mem_cons.1 behind with rfl | fraction
          · exact .inr rfl
          · exact .inl (proper.fraction c fraction)
    intro c member
    unfold Decimal.text at member
    split at member
    · rcases List.mem_cons.1 member with rfl | inside
      · exact .inr (.inl rfl)
      · exact (magnitude c inside).imp_right .inr
    · exact (magnitude c member).imp_right .inr
  intro c member
  rw [plain, decoded] at member
  rcases text c (written ▸ member) with digit | rfl | rfl
  · exact isWordHead_of_isDigit digit
  · decide
  · decide

/-- A number that is not finite is written as a word, maybe behind a sign. -/
theorem unreal_plain (infinite : x.isFinite = false) : Unreal (plain x) := by
  rw [plain]
  cases decoded : decode x with
  | nan => exact .inl (List.infix_refl _)
  | infinite negative =>
      cases negative
      · exact .inr (List.infix_refl _)
      · exact .inr ⟨['-'], [], by decide⟩
  | finite d => simp [isFinite_iff.2 ⟨d, decoded⟩] at infinite

end Number

open Number (isWordHead)

/-! ## Texts that show numbers -/

/-- The text shows some numbers, and nothing else in it begins a word. -/
structure Shows (xs : List Float) (cs : List Char) : Prop where
  shown : ∀ x ∈ xs, Number.plain x <:+: cs
  heads : ∀ c ∈ cs, isWordHead c = true → ∃ x ∈ xs, c ∈ Number.plain x

namespace Shows

variable {xs ys : List Float} {cs ds : List Char}

theorem number (x : Float) : Shows [x] (Number.plain x) where
  shown := by simp
  heads c member _ := ⟨x, List.mem_cons_self, member⟩

theorem of_free (free : cs.all (fun c => !isWordHead c) = true) : Shows [] cs where
  shown := by simp
  heads c member word := by
    have plain := List.all_eq_true.1 free c member
    rw [word] at plain
    exact absurd plain (by decide)

theorem append (first : Shows xs cs) (second : Shows ys ds) : Shows (xs ++ ys) (cs ++ ds) where
  shown x member := by
    rcases List.mem_append.1 member with here | here
    · exact (first.shown x here).trans (List.prefix_append _ _).isInfix
    · exact (second.shown x here).trans (List.suffix_append _ _).isInfix
  heads c member word := by
    rcases List.mem_append.1 member with here | here
    · obtain ⟨x, known, inside⟩ := first.heads c here word
      exact ⟨x, List.mem_append_left _ known, inside⟩
    · obtain ⟨x, known, inside⟩ := second.heads c here word
      exact ⟨x, List.mem_append_right _ known, inside⟩

/-- **A text shows a word exactly if one of its numbers is not finite.** -/
theorem unreal_iff (shows : Shows xs cs) : Unreal cs ↔ ∃ x ∈ xs, x.isFinite = false := by
  constructor
  · intro unreal
    obtain ⟨c, member, word⟩ : ∃ c ∈ cs, isWordHead c = true := by
      rcases unreal with nan | infinity
      · exact ⟨'N', nan.subset (by decide), by decide⟩
      · exact ⟨'I', infinity.subset (by decide), by decide⟩
    obtain ⟨x, known, inside⟩ := shows.heads c member word
    refine ⟨x, known, Bool.eq_false_iff.2 fun finite => ?_⟩
    rw [Number.not_isWordHead_of_isFinite finite c inside] at word
    exact Bool.false_ne_true word
  · rintro ⟨x, known, infinite⟩
    have whole := shows.shown x known
    exact (Number.unreal_plain infinite).imp (fun nan => nan.trans whole)
      fun infinity => infinity.trans whole

/-- Texts on either side that begin no word. -/
theorem enclosed {before after : List Char} (shows : Shows xs cs)
    (opened : before.all (fun c => !isWordHead c) = true)
    (closed : after.all (fun c => !isWordHead c) = true) : Shows xs (before ++ cs ++ after) := by
  simpa using ((of_free opened).append shows).append (of_free closed)

/-- Pieces with a text between them that begins no word. -/
theorem join {separator : List Char} (between : separator.all (fun c => !isWordHead c) = true)
    {numbers : List (List Float)} {pieces : List (List Char)}
    (each : List.Forall₂ Shows numbers pieces) :
    Shows numbers.flatten (Text.join separator pieces) := by
  induction each with
  | nil => exact of_free rfl
  | @cons xs cs later rest first each ih =>
      cases rest with
      | nil =>
          cases each
          simpa [Text.join] using first
      | cons next more =>
          rw [Text.join_cons_cons, List.flatten_cons]
          exact first.append ((of_free between).append ih)

/-- Numbers with the same text behind each of them. -/
theorem numbers (separator unit : String)
    (between : separator.toList.all (fun c => !isWordHead c) = true)
    (measured : unit.toList.all (fun c => !isWordHead c) = true) (xs : List Float) :
    Shows xs (separator.intercalate (xs.map fun x => Number.plainText x ++ unit)).toList := by
  have each : List.Forall₂ Shows (xs.map fun x => [x])
      (xs.map fun x => (Number.plainText x ++ unit).toList) := by
    rw [List.forall₂_map_left_iff, List.forall₂_map_right_iff, List.forall₂_same]
    intro x _
    rw [String.toList_append, Number.plainText, String.toList_ofList]
    exact (Shows.number x).append (.of_free measured)
  have all := join between each
  rw [String.toList_intercalate, ← Text.join_eq_intercalate, List.map_map]
  simpa [Function.comp_def, ← List.flatMap_def] using all

end Shows

/-! ## Pieces of transforms -/

namespace TransformKind

/-- The numbers that a kind writes for a value. -/
def numbers (kind : TransformKind) (t : Float) (opts : Directive.Options) : List Float :=
  match kind with
  | .scale | .position => [t, t]
  | .rotate => [t * 360.0 * rotateRatio opts]
  | .scaleX | .scaleY | .positionX | .positionY => [t]

/-- The numbers that a kind writes to follow a guide. -/
def offsetNumbers (kind : TransformKind) (offset : Point Float) : List Float :=
  match kind with
  | .positionX => [offset.x]
  | .positionY => [offset.y]
  | _ => [offset.x, offset.y]

theorem shows_call {function unit : String}
    (named : function.toList.all (fun c => !isWordHead c) = true)
    (measured : unit.toList.all (fun c => !isWordHead c) = true) (arguments : List Float) :
    Shows arguments (call function unit arguments).toList := by
  simp only [call, String.toList_append]
  refine (Shows.numbers "," unit (by decide) measured arguments).enclosed ?_ (by decide)
  rw [List.all_append, named]
  decide

theorem shows_fragment (kind : TransformKind) (t : Float) (opts : Directive.Options) :
    Shows (kind.numbers t opts) (kind.fragment t opts).toList := by
  cases kind <;> exact shows_call (by decide) (by decide) _

theorem shows_move (p : Point Float) : Shows [p.x, p.y] (move p).toList :=
  shows_call (by decide) (by decide) _

theorem shows_offsetFragment (kind : TransformKind) (offset : Point Float) :
    Shows (kind.offsetNumbers offset) (kind.offsetFragment offset).toList := by
  cases kind <;> exact shows_call (by decide) (by decide) _

end TransformKind

theorem Matrix.shows_toCss (m : Matrix Float) : Shows m.entries m.toCss.toList := by
  have pieces := Shows.numbers "," "" (by decide) (by decide) m.entries
  simp only [String.append_empty] at pieces
  simp only [toCss, String.toList_append]
  exact pieces.enclosed (by decide) (by decide)

/-! ## Whole transforms -/

namespace Binding.TransformBinding

open Markup (Document)

variable (b : TransformBinding) (own : List (Matrix Float)) (guide : Option Guide) (table : Table)

/-- The maps in the element's own transform attribute. -/
def ownMaps (d : Document) : List (Matrix Float) :=
  ((d.attribute? b.element "transform").map Geometry.transformList).getD []

/-- The numbers that are written before the kinds. -/
def openingNumbers : List Float :=
  if own.isEmpty then []
  else
    (-b.origin).x :: (-b.origin).y :: (own.flatMap Matrix.entries ++ [b.origin.x, b.origin.y])

/-- The numbers that a kind writes for a table. -/
def pieceNumbers (kind : TransformKind) : List Float :=
  match b.value? table kind, (if kind.isPosition then guide else none) with
  | none, _ => []
  | some t, some g =>
      if g.isCurved then []
      else match g.offset? t b.origin with
        | some offset => kind.offsetNumbers offset
        | none => kind.numbers t b.options
  | some t, none => kind.numbers t b.options

/-- All numbers that are written for a table. -/
def numbers : List Float :=
  b.openingNumbers own ++ TransformKind.all.flatMap (b.pieceNumbers guide table)

variable {b own guide table}

/-- What a kind writes shows its numbers; a kind that writes nothing has none. -/
theorem shows_piece? (kind : TransformKind) :
    match b.piece? guide table kind with
    | some piece => Shows (b.pieceNumbers guide table kind) piece.toList
    | none => b.pieceNumbers guide table kind = [] := by
  cases value : b.value? table kind with
  | none => simp only [piece?, pieceNumbers, value]
  | some t =>
      cases held : (if kind.isPosition then guide else none) with
      | none =>
          simp only [piece?, pieceNumbers, value, held]
          exact kind.shows_fragment _ _
      | some g =>
          simp only [piece?, pieceNumbers, value, held]
          by_cases curved : g.isCurved = true
          · simp only [if_pos curved]
          · simp only [if_neg curved]
            cases g.offset? t b.origin with
            | some offset => exact kind.shows_offsetFragment offset
            | none => exact kind.shows_fragment _ _

theorem shows_opening (base : b.baseFragments = own.map Matrix.toCss) :
    ∃ numbers, numbers.flatten = b.openingNumbers own ∧
      List.Forall₂ Shows numbers (b.opening.map String.toList) := by
  unfold openingNumbers opening
  rw [base, List.isEmpty_map]
  split
  · exact ⟨[], rfl, .nil⟩
  · have maps : List.Forall₂ Shows (own.map Matrix.entries)
        ((own.map Matrix.toCss).map String.toList) := by
      rw [List.map_map, List.forall₂_map_left_iff, List.forall₂_map_right_iff, List.forall₂_same]
      exact fun m _ => m.shows_toCss
    have back := List.rel_append maps (.cons (TransformKind.shows_move b.origin) .nil)
    refine ⟨_, ?_, .cons (TransformKind.shows_move (-b.origin)) (by rwa [List.map_append])⟩
    simp [List.flatMap_def]

theorem shows_pieces (kinds : List TransformKind) :
    ∃ numbers, numbers.flatten = kinds.flatMap (b.pieceNumbers guide table) ∧
      List.Forall₂ Shows numbers
        ((kinds.filterMap (b.piece? guide table)).map String.toList) := by
  induction kinds with
  | nil => exact ⟨[], rfl, .nil⟩
  | cons kind rest ih =>
      obtain ⟨later, same, each⟩ := ih
      rw [List.flatMap_cons]
      have first := @shows_piece? b guide table kind
      cases wrote : b.piece? guide table kind with
      | none =>
          rw [wrote] at first
          rw [List.filterMap_cons_none wrote, first]
          exact ⟨later, same, each⟩
      | some piece =>
          rw [wrote] at first
          rw [List.filterMap_cons_some wrote]
          exact ⟨b.pieceNumbers guide table kind :: later, by rw [List.flatten_cons, same],
            .cons first each⟩

/-- **The transform shown for a table has a word exactly if one of its numbers is not finite.** -/
theorem unreal_shown?_iff (base : b.baseFragments = own.map Matrix.toCss) {text : String}
    (shown : b.shown? guide table = some text) :
    Unreal text.toList ↔ ∃ x ∈ b.numbers own guide table, x.isFinite = false := by
  obtain ⟨before, opening, first⟩ := shows_opening base
  obtain ⟨behind, pieces, later⟩ := @shows_pieces b guide table TransformKind.all
  have all : List.Forall₂ Shows (before ++ behind) ((b.written guide table).map String.toList) := by
    rw [written, List.map_append]
    exact List.rel_append first later
  have numbers : (before ++ behind).flatten = b.numbers own guide table := by
    rw [List.flatten_append, opening, pieces, TransformBinding.numbers]
  unfold shown? at shown
  split at shown
  · cases shown
  · cases shown
    rw [String.toList_intercalate, ← Text.join_eq_intercalate, ← numbers]
    exact (Shows.join (by decide) all).unreal_iff

end Binding.TransformBinding

end Infographic
