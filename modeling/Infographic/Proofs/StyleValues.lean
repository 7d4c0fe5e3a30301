/-
# Infographic.Proofs.StyleValues -- what bindings write can be read back

A text without blanks and semicolons is solid.  Numbers are written as solid texts, and so
are all pieces of transforms.  Colours and lists of pieces may hold blanks inside, but begin
and end with solid text.  So everything that a binding writes into a style is a clean value.
-/
import Infographic.Binding.Paint
import Infographic.Binding.Transform
import Infographic.Proofs.InlineStyle

namespace Infographic

set_option autoImplicit false

open Markup (CleanValue)

/-! ## Solid texts -/

/-- Whether a character is neither blank nor a semicolon. -/
def isSolid (c : Char) : Bool :=
  !Text.isBlank c && c != ';'

/-- A text of characters that are neither blank nor semicolons. -/
def Solid (cs : List Char) : Prop :=
  ∀ c ∈ cs, isSolid c = true

namespace Solid

variable {cs ds : List Char}

theorem of_all (all : cs.all isSolid = true) : Solid cs :=
  List.all_eq_true.1 all

theorem append (first : Solid cs) (second : Solid ds) : Solid (cs ++ ds) := by
  intro c member
  rcases List.mem_append.1 member with inside | inside
  · exact first c inside
  · exact second c inside

theorem cons {c : Char} (here : isSolid c = true) (rest : Solid cs) : Solid (c :: cs) := by
  intro d member
  rcases List.mem_cons.1 member with rfl | inside
  · exact here
  · exact rest d inside

theorem of_subset (solid : Solid ds) (subset : cs ⊆ ds) : Solid cs :=
  fun c member => solid c (subset member)

theorem not_blank (solid : Solid cs) {c : Char} (member : c ∈ cs) : Text.isBlank c = false := by
  have here := solid c member
  simp only [isSolid, Bool.and_eq_true, Bool.not_eq_true'] at here
  exact here.1

theorem ne_semicolon (solid : Solid cs) {c : Char} (member : c ∈ cs) : c ≠ ';' := by
  have here := solid c member
  simp only [isSolid, Bool.and_eq_true, bne_iff_ne, ne_eq] at here
  exact here.2

theorem intercalate {separator : String} {pieces : List String} (between : Solid separator.toList)
    (solid : ∀ piece ∈ pieces, Solid piece.toList) :
    Solid (separator.intercalate pieces).toList := by
  rw [String.toList_intercalate, ← Text.join_eq_intercalate]
  refine Text.forall_mem_join between fun piece member => ?_
  obtain ⟨text, known, rfl⟩ := List.mem_map.1 member
  exact solid text known

theorem cleanValue {value : String} (solid : Solid value.toList) : CleanValue value where
  trimmed := Text.trim_eq_self_of_solid fun _ member => solid.not_blank member
  whole member := solid.ne_semicolon member rfl

end Solid

/-- A text that is not empty, holds no semicolon, and has no blanks at its ends. -/
structure Firm (cs : List Char) : Prop where
  present : cs ≠ []
  whole : ';' ∉ cs
  first : ∀ c ∈ cs.head?, Text.isBlank c = false
  last : ∀ c ∈ cs.getLast?, Text.isBlank c = false

namespace Firm

variable {cs ds : List Char}

theorem of_solid (solid : Solid cs) (present : cs ≠ []) : Firm cs where
  present := present
  whole member := solid.ne_semicolon member rfl
  first _ here := solid.not_blank (List.mem_of_mem_head? here)
  last _ here := solid.not_blank (List.mem_of_mem_getLast? here)

/-- Between firm texts there may be anything but a semicolon. -/
theorem append (before : Firm cs) (after : Firm ds) {middle : List Char}
    (whole : ';' ∉ middle) : Firm (cs ++ (middle ++ ds)) where
  present := by simp [before.present]
  whole := by simp [before.whole, after.whole, whole]
  first c here := by
    refine before.first c ?_
    cases cs with
    | nil => exact absurd rfl before.present
    | cons d rest => simpa using here
  last c here := by
    refine after.last c ?_
    rw [List.getLast?_append, List.getLast?_append] at here
    have some_last := List.getLast?_isSome.2 after.present
    obtain ⟨d, found⟩ := Option.isSome_iff_exists.1 some_last
    simpa [found] using here

theorem cleanValue {value : String} (firm : Firm value.toList) : CleanValue value :=
  ⟨Text.trimWhere_eq_self firm.first firm.last, firm.whole⟩

/-- Firm pieces with anything but a semicolon between them are firm. -/
theorem join {separator : List Char} {pieces : List (List Char)} (between : ';' ∉ separator)
    (some_piece : pieces ≠ []) (firm : ∀ piece ∈ pieces, Firm piece) :
    Firm (Text.join separator pieces) := by
  induction pieces with
  | nil => exact absurd rfl some_piece
  | cons piece rest ih =>
      have here := firm piece List.mem_cons_self
      cases rest with
      | nil => exact here
      | cons next more =>
          have later := ih (by simp) fun piece member => firm piece (List.mem_cons_of_mem _ member)
          rw [Text.join_cons_cons]
          exact here.append later between

end Firm

/-! ## Numbers -/

namespace Number

theorem isSolid_of_isDigit {c : Char} (digit : c.isDigit = true) : isSolid c = true := by
  simp only [Char.isDigit, Bool.and_eq_true, decide_eq_true_eq] at digit
  have low : 48 ≤ c.toNat := UInt32.le_iff_toNat_le.1 digit.1
  have high : c.toNat ≤ 57 := UInt32.le_iff_toNat_le.1 digit.2
  have other : c ≠ ';' := by
    rintro rfl
    revert high
    decide
  simp only [isSolid, Text.isBlank, bne_iff_ne, ne_eq, other, not_false_eq_true, Bool.and_eq_true,
    Bool.not_eq_true', Bool.or_eq_false_iff, Bool.and_eq_false_iff, decide_eq_false_iff_not,
    beq_eq_false_iff_ne, and_true]
  omega

theorem solid_digitsOf (k : Nat) : Solid (digitsOf k) :=
  fun _ member => isSolid_of_isDigit (Nat.isDigit_of_mem_toDigits (by decide) (by decide) member)

theorem solid_replicate_zero (k : Nat) : Solid (List.replicate k '0') := by
  intro c member
  rw [List.eq_of_mem_replicate member]
  decide

theorem solid_stripZeros {ds : List Char} (solid : Solid ds) : Solid (stripZeros ds) := by
  refine solid.of_subset fun c member => ?_
  rw [stripZeros, List.mem_reverse] at member
  exact List.mem_reverse.1 ((List.dropWhile_suffix _).subset member)

theorem solid_shortest (d : Dyadic) : Solid (shortest d).digits := by
  rw [shortest]
  split
  · exact solid_stripZeros (solid_digitsOf _)
  · exact fun c member => by simp_all; decide

theorem solid_positional {d : Digits} (solid : Solid d.digits) : Solid d.positional := by
  unfold Digits.positional
  dsimp only
  split
  · exact .cons (by decide) (.cons (by decide) ((solid_replicate_zero _).append solid))
  · split
    · exact (solid.of_subset (List.take_subset _ _)).append
        (.cons (by decide) (solid.of_subset (List.drop_subset _ _)))
    · exact solid.append (solid_replicate_zero _)

/-- The plain text of a number is solid. -/
theorem solid_plainText (x : Float) : Solid (plainText x).toList := by
  have finite (d : Dyadic) : Solid d.plain := by
    have magnitude : Solid
        (if d.numerator % d.denominator = 0 ∧ d.numerator / d.denominator < Nat.pow 10 21 then
          digitsOf (d.numerator / d.denominator)
        else (shortest d).positional) := by
      split
      · exact solid_digitsOf _
      · exact solid_positional (solid_shortest d)
    unfold Dyadic.plain
    dsimp only
    split
    · exact .cons (by decide) magnitude
    · exact magnitude
  rw [plainText, String.toList_ofList, plain]
  split
  · exact .of_all (by decide)
  · split <;> exact .of_all (by decide)
  · exact finite _

end Number

/-! ## Transforms -/

namespace TransformKind

theorem firm_call {function unit : String} (named : Solid function.toList)
    (measured : Solid unit.toList) (arguments : List Float) :
    Firm (call function unit arguments).toList := by
  have pieces : Solid
      (",".intercalate (arguments.map fun x => Number.plainText x ++ unit)).toList := by
    refine .intercalate (.of_all (by decide)) fun piece member => ?_
    obtain ⟨x, -, rfl⟩ := List.mem_map.1 member
    rw [String.toList_append]
    exact (Number.solid_plainText x).append measured
  refine .of_solid ?_ (by simp [call])
  simp only [call, String.toList_append]
  exact ((named.append (.of_all (by decide))).append pieces).append (.of_all (by decide))

theorem firm_fragment (kind : TransformKind) (t : Float) (opts : Directive.Options) :
    Firm (kind.fragment t opts).toList := by
  cases kind <;> exact firm_call (.of_all (by decide)) (.of_all (by decide)) _

theorem firm_offsetFragment (kind : TransformKind) (offset : Point Float) :
    Firm (kind.offsetFragment offset).toList := by
  cases kind <;> exact firm_call (.of_all (by decide)) (.of_all (by decide)) _

theorem firm_move (p : Point Float) : Firm (move p).toList :=
  firm_call (.of_all (by decide)) (.of_all (by decide)) _

end TransformKind

theorem Matrix.firm_toCss (m : Matrix Float) : Firm m.toCss.toList := by
  have pieces : Solid (",".intercalate (m.entries.map Number.plainText)).toList := by
    refine .intercalate (.of_all (by decide)) fun piece member => ?_
    obtain ⟨x, -, rfl⟩ := List.mem_map.1 member
    exact Number.solid_plainText x
  refine .of_solid ?_ (by simp [toCss])
  simp only [toCss, String.toList_append]
  exact (Solid.append (.of_all (by decide)) pieces).append (.of_all (by decide))

/-! ## Colours -/

namespace Colour

theorem solid_hexByte (c : UInt8) : Solid (hexByte c) := by
  have digit : ∀ k < 16, isSolid (Nat.digitChar k) = true := by decide
  have bound := c.toNat_lt
  exact .cons (digit _ (by omega)) (.cons (digit _ (by omega)) fun d member => by simp at member)

/-- A colour is written as a clean value. -/
theorem cleanValue_toCss (c : Colour) : CleanValue c.toCss := by
  unfold toCss
  split
  · refine Solid.cleanValue ?_
    rw [String.toList_ofList]
    exact .cons (by decide)
      (((solid_hexByte c.red).append (solid_hexByte c.green)).append (solid_hexByte c.blue))
  · refine Firm.cleanValue ?_
    rw [String.toList_append, String.toList_append, List.append_assoc]
    refine Firm.append (.of_solid (.of_all (by decide)) (by decide))
      (.of_solid (.of_all (by decide)) (by decide)) ?_
    rw [String.toList_intercalate, ← Text.join_eq_intercalate]
    intro member
    refine Text.forall_mem_join (P := fun c => c ≠ ';') (by simp) (fun piece known => ?_) ';'
      member rfl
    have number (k : Nat) : Solid (toString k).toList := by
      rw [show toString k = String.ofList (Nat.toDigits 10 k) from rfl, String.toList_ofList]
      exact Number.solid_digitsOf k
    simp only [List.map_cons, List.map_nil, List.mem_cons, List.not_mem_nil, or_false] at known
    rcases known with rfl | rfl | rfl | rfl
    · exact fun c => (number _).ne_semicolon
    · exact fun c => (number _).ne_semicolon
    · exact fun c => (number _).ne_semicolon
    · exact fun c => (Number.solid_plainText _).ne_semicolon

end Colour

namespace Binding

open Markup (Document NodeId CleanDeclaration CleanProperty)

theorem cleanProperty_of_solid {property : String} (solid : Solid property.toList)
    (present : property.toList ≠ []) (closed : ':' ∉ property.toList) : CleanProperty property where
  present := present
  trimmed := solid.cleanValue.trimmed
  whole := solid.cleanValue.whole
  closed := closed

/-- The properties that are written. -/
def writtenProperties : List String :=
  ["fill", "stroke", "opacity", "transform", "transform-origin", "transition-property",
    "transition-duration"]

theorem cleanProperty_of_mem {property : String} (member : property ∈ writtenProperties) :
    CleanProperty property := by
  have all : ∀ q ∈ writtenProperties,
      q.toList.all isSolid = true ∧ q.toList ≠ [] ∧ ':' ∉ q.toList := by decide
  obtain ⟨solid, present, closed⟩ := all property member
  exact cleanProperty_of_solid (.of_all solid) present closed

/-- A text in one piece is clean in every property that is written. -/
theorem cleanDeclaration_of_solid {property value : String} (member : property ∈ writtenProperties)
    (solid : value.toList.all isSolid = true) : CleanDeclaration (property, value) :=
  ⟨cleanProperty_of_mem member, Solid.cleanValue (.of_all solid)⟩

/-! ## Paint -/

/-- The property that a kind writes. -/
def PaintKind.property : PaintKind → String
  | .fill => "fill"
  | .line => "stroke"
  | .alpha => "opacity"

namespace PaintBinding

theorem declaration_fst (b : PaintBinding) (t : Float) (kind : PaintKind) :
    (b.declaration t kind).1 = kind.property := by
  cases kind <;> rfl

/-- What a kind writes is a clean declaration. -/
theorem clean_declaration (b : PaintBinding) (t : Float) (kind : PaintKind) :
    CleanDeclaration (b.declaration t kind) where
  property := by
    rw [declaration_fst]
    cases kind <;> exact cleanProperty_of_mem (by decide)
  value := by
    cases kind with
    | fill => exact Colour.cleanValue_toCss _
    | line => exact Colour.cleanValue_toCss _
    | alpha => exact (Number.solid_plainText _).cleanValue

/-- The slow properties are written as a clean value. -/
theorem clean_slowProperties (d : Document) (id : NodeId) :
    CleanDeclaration ("transition-property",
      String.ofList (Text.join [','] (slowProperties d id))) where
  property := cleanProperty_of_mem (by simp [writtenProperties])
  value := by
    refine Firm.cleanValue ?_
    rw [String.toList_ofList]
    refine .join (by decide) (by simp [slowProperties]) fun piece member => ?_
    rcases List.mem_append.1 member with before | added
    · obtain ⟨inside, present⟩ := List.mem_filter.1 before
      cases found : d.style? id "transition-property" with
      | none => simp [found] at inside
      | some s =>
          have whole := (Markup.Document.cleanValue_of_style? found).whole
          simp only [found, Option.map_some, Option.getD_some, List.mem_map] at inside
          obtain ⟨cut, known, rfl⟩ := inside
          refine ⟨by simpa using present, fun semicolon => whole ?_,
            Text.not_of_head?_trimWhere, Text.not_of_getLast?_trimWhere⟩
          exact Text.mem_of_mem_splitWhere known (Text.mem_of_mem_trimWhere semicolon)
    · have all : ∀ piece ∈ ["fill", "stroke", "opacity"].map String.toList,
          piece.all isSolid = true ∧ piece ≠ [] := by decide
      obtain ⟨solid, present⟩ := all piece added
      exact .of_solid (.of_all solid) present

end PaintBinding

/-! ## Transforms -/

namespace TransformBinding

/-- Pieces of a transform with blanks between them are a clean value. -/
theorem clean_transform {pieces : List String} (some_piece : pieces ≠ [])
    (firm : ∀ piece ∈ pieces, Firm piece.toList) :
    CleanDeclaration ("transform", " ".intercalate pieces) where
  property := cleanProperty_of_mem (by simp [writtenProperties])
  value := by
    refine Firm.cleanValue ?_
    rw [String.toList_intercalate, ← Text.join_eq_intercalate]
    refine .join (by decide) (by simpa using some_piece) fun piece member => ?_
    obtain ⟨text, known, rfl⟩ := List.mem_map.1 member
    exact firm text known

/-- The pieces of a binding that write the element's own transform are firm. -/
def FirmBase (b : TransformBinding) : Prop :=
  ∀ piece ∈ b.baseFragments, Firm piece.toList

theorem firm_bind (d : Document) (id : NodeId) : (bind d id).2.FirmBase := by
  intro piece member
  obtain ⟨m, -, rfl⟩ := List.mem_map.1 member
  exact m.firm_toCss

/-- The point that stays in place is written as a clean value. -/
theorem clean_origin (origin : Point Float) :
    CleanDeclaration ("transform-origin",
      Number.plainText origin.x ++ "px " ++ Number.plainText origin.y ++ "px") where
  property := cleanProperty_of_mem (by simp [writtenProperties])
  value := by
    refine Firm.cleanValue ?_
    have length (x : Float) : Firm ((Number.plainText x).toList ++ "px".toList) :=
      .of_solid ((Number.solid_plainText x).append (.of_all (by decide))) (by simp)
    have blank : ';' ∉ [' '] := by decide
    have both := (length origin.x).append (length origin.y) blank
    simpa [String.toList_append] using both

end TransformBinding

end Binding

end Infographic
