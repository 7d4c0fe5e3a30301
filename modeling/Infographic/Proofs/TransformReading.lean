/-
# Infographic.Proofs.TransformReading -- a transform attribute as a list of maps and as one map

A moved element keeps the maps of its `transform` attribute, and its box is taken under one matrix
for the whole attribute.  Both come from one reading of the text, item by item up to the first fault:
an item is a name with numbers in brackets that stand for some maps (`IsItem`, `takeTransform_iff`,
`reads_iff`).  Without rounding the product of the maps does what the maps do one after
the other, the last one first (`apply_product`).  So the list and the matrix describe the same map
of a text without a fault; behind a fault the matrix is the identity, while the list still has what
comes in front of the fault (`transform_readings`).
-/
import Mathlib.Tactic.Ring
import Infographic.Binding.Transform
import Infographic.Proofs.ExactScalar
import Infographic.Proofs.RoundedArithmetic

namespace Infographic

namespace Geometry

set_option autoImplicit false

open Attribute

/-! ## The grammar of transform lists -/

/-- The numbers of a list up to the bracket that closes it, and what is left behind the bracket. -/
inductive InBrackets : List Char → List Float → List Char → Prop where
  | close {cs rest : List Char} : skipSpaces cs = ')' :: rest → InBrackets cs [] rest
  | number {cs behind rest : List Char} {x : Float} {xs : List Float} :
      listNumber? cs = some (x, behind) → InBrackets behind xs rest →
        InBrackets cs (x :: xs) rest

/-- What the name and the numbers of an item stand for.  One number scales both ways and moves along
the first axis only, and a turn about a point is a turn between two moves. -/
inductive Stands : String → List Float → List (Matrix Float) → Prop where
  | matrix (a b c d e f : Float) : Stands "matrix" [a, b, c, d, e, f] [⟨a, b, c, d, e, f⟩]
  | shiftRight (x : Float) : Stands "translate" [x] [.shift ⟨x, 0.0⟩]
  | shift (x y : Float) : Stands "translate" [x, y] [.shift ⟨x, y⟩]
  | scale (x : Float) : Stands "scale" [x] [.scaling x x]
  | stretch (x y : Float) : Stands "scale" [x, y] [.scaling x y]
  | turn (angle : Float) : Stands "rotate" [angle] [.rotation angle]
  | turnAbout (angle x y : Float) :
      Stands "rotate" [angle, x, y] [.shift ⟨x, y⟩, .rotation angle, .shift ⟨-x, -y⟩]
  | skewX (angle : Float) : Stands "skewX" [angle] [.skewX angle]
  | skewY (angle : Float) : Stands "skewY" [angle] [.skewY angle]

/-- A text begins with an item: a name and numbers in brackets that stand for some maps, and one
comma behind the brackets belongs to it. -/
def IsItem (cs : List Char) (maps : List (Matrix Float)) (rest : List Char) : Prop :=
  ∃ inside numbers behind, skipSpaces (takeWord (skipSpaces cs)).2 = '(' :: inside ∧
    InBrackets inside numbers behind ∧ Stands (takeWord (skipSpaces cs)).1 numbers maps ∧
    rest = skipSeparator behind

/-- The maps of the items of a text up to the first fault, and what is left from there on.  Nothing
is left of a text without a fault. -/
inductive Reads : List Char → List (Matrix Float) → List Char → Prop where
  | stop {cs : List Char} : (∀ maps rest, ¬IsItem cs maps rest) → Reads cs [] (skipSpaces cs)
  | item {cs rest left : List Char} {maps more : List (Matrix Float)} :
      IsItem cs maps rest → Reads rest more left → Reads cs (maps ++ more) left

variable {cs rest : List Char}

/-! ## Numbers in brackets -/

theorem closes_iff : closes cs = true ↔ ∃ rest, skipSpaces cs = ')' :: rest := by
  rw [closes, beq_iff_eq, List.head?_eq_some_iff]

/-- No number begins with a bracket. -/
theorem listNumber?_of_closes (closed : closes cs = true) : listNumber? cs = none := by
  obtain ⟨rest, bracket⟩ := closes_iff.1 closed
  have none : number? cs = none := by
    rw [number?, bracket]
    rfl
  rw [listNumber?, none, Option.map_none]

theorem takeNumbers_iff (count : Nat) {xs : List Float} :
    (∃ behind, takeNumbers count cs = some (xs, behind) ∧ skipSpaces behind = ')' :: rest) ↔
      InBrackets cs xs rest ∧ xs.length = count := by
  induction count generalizing cs xs with
  | zero =>
      constructor
      · rintro ⟨behind, taken, closed⟩
        cases taken
        exact ⟨.close closed, rfl⟩
      · rintro ⟨inside, none⟩
        cases inside with
        | close closed => exact ⟨cs, rfl, closed⟩
        | number _ _ => cases none
  | succ count ih =>
      simp only [takeNumbers, Option.bind_eq_bind, Option.bind_eq_some_iff]
      constructor
      · rintro ⟨left, ⟨⟨x, behind⟩, first, ⟨more, left'⟩, others, same⟩, closed⟩
        cases same
        obtain ⟨inside, length⟩ := ih.1 ⟨_, others, closed⟩
        exact ⟨.number first inside, congrArg Nat.succ length⟩
      · rintro ⟨inside, length⟩
        cases inside with
        | close _ => cases length
        | number first others =>
            obtain ⟨left, taken, closed⟩ := ih.2 ⟨others, Nat.succ.inj length⟩
            exact ⟨left, ⟨_, first, _, taken, rfl⟩, closed⟩

theorem takeOptional_iff (count : Nat) {xs : List Float} :
    (∃ behind, takeOptional count cs = some (xs, behind) ∧ skipSpaces behind = ')' :: rest) ↔
      InBrackets cs xs rest ∧ (xs.length = 1 ∨ xs.length = count + 1) := by
  simp only [takeOptional, Option.bind_eq_bind, Option.bind_eq_some_iff]
  constructor
  · rintro ⟨left, ⟨⟨x, behind⟩, first, taken⟩, closed⟩
    dsimp only at taken
    split at taken
    · cases taken
      exact ⟨.number first (.close closed), .inl rfl⟩
    · simp only [Option.bind_eq_some_iff] at taken
      obtain ⟨⟨more, left'⟩, others, same⟩ := taken
      cases same
      obtain ⟨inside, length⟩ := (takeNumbers_iff count).1 ⟨_, others, closed⟩
      exact ⟨.number first inside, .inr (congrArg Nat.succ length)⟩
  · rintro ⟨inside, length⟩
    cases inside with
    | close _ => simp at length
    | number first others =>
        rename_i behind x xs
        by_cases closed : closes behind = true
        · cases others with
          | close bracket => exact ⟨behind, ⟨_, first, if_pos closed⟩, bracket⟩
          | number second _ =>
              rw [listNumber?_of_closes closed] at second
              cases second
        · have more : xs.length = count := by
            cases others with
            | close bracket => exact absurd (closes_iff.2 ⟨_, bracket⟩) closed
            | number _ _ =>
                rw [List.length_cons, List.length_cons] at length
                rw [List.length_cons]
                omega
          obtain ⟨left, taken, bracket⟩ := (takeNumbers_iff count).2 ⟨others, more⟩
          refine ⟨left, ⟨_, first, ?_⟩, bracket⟩
          dsimp only
          rw [if_neg closed, taken]
          rfl

/-! ## Items -/

theorem takeMaps_iff {name : String} {maps : List (Matrix Float)} :
    (∃ behind, takeMaps name cs = some (maps, behind) ∧ skipSpaces behind = ')' :: rest) ↔
      ∃ xs, InBrackets cs xs rest ∧ Stands name xs maps := by
  constructor
  · rintro ⟨behind, taken, closed⟩
    unfold takeMaps at taken
    split at taken
    case h_1 =>
      simp only [Option.bind_eq_bind, Option.bind_eq_some_iff] at taken
      obtain ⟨⟨numbers, left⟩, first, taken⟩ := taken
      split at taken <;> cases taken
      rename_i same
      cases same
      exact ⟨_, ((takeNumbers_iff 6).1 ⟨_, first, closed⟩).1, .matrix ..⟩
    case h_2 | h_3 | h_4 =>
      simp only [Option.bind_eq_bind, Option.bind_eq_some_iff] at taken
      obtain ⟨⟨numbers, left⟩, first, taken⟩ := taken
      have inside (bracket : skipSpaces left = ')' :: rest) : InBrackets cs numbers rest :=
        ((takeOptional_iff _).1 ⟨left, first, bracket⟩).1
      split at taken <;> cases taken <;> rename_i same <;> cases same <;>
        exact ⟨_, inside closed, by constructor⟩
    case h_5 | h_6 =>
      rw [Option.map_eq_some_iff] at taken
      obtain ⟨⟨angle, left⟩, first, same⟩ := taken
      cases same
      exact ⟨_, .number first (.close closed), by constructor⟩
    case h_7 => cases taken
  · rintro ⟨xs, inside, stands⟩
    cases stands with
    | matrix =>
        obtain ⟨behind, taken, closed⟩ := (takeNumbers_iff 6).2 ⟨inside, rfl⟩
        exact ⟨behind, by rw [takeMaps, taken]; rfl, closed⟩
    | shiftRight | scale =>
        obtain ⟨behind, taken, closed⟩ := (takeOptional_iff 1).2 ⟨inside, .inl rfl⟩
        exact ⟨behind, by rw [takeMaps, taken]; rfl, closed⟩
    | shift | stretch =>
        obtain ⟨behind, taken, closed⟩ := (takeOptional_iff 1).2 ⟨inside, .inr rfl⟩
        exact ⟨behind, by rw [takeMaps, taken]; rfl, closed⟩
    | turn =>
        obtain ⟨behind, taken, closed⟩ := (takeOptional_iff 2).2 ⟨inside, .inl rfl⟩
        exact ⟨behind, by rw [takeMaps, taken]; rfl, closed⟩
    | turnAbout =>
        obtain ⟨behind, taken, closed⟩ := (takeOptional_iff 2).2 ⟨inside, .inr rfl⟩
        exact ⟨behind, by rw [takeMaps, taken]; rfl, closed⟩
    | skewX | skewY =>
        cases inside with
        | number first others =>
            cases others with
            | close closed => exact ⟨_, by rw [takeMaps, first]; rfl, closed⟩

theorem expect_iff {c : Char} : expect c cs = some rest ↔ cs = c :: rest := by
  cases cs with
  | nil => simp [expect]
  | cons d cs =>
      rw [expect, Option.ite_none_right_eq_some, Option.some_inj, List.cons.injEq]

theorem skipSeparator_of_comma (comma : skipSpaces cs = ',' :: rest) : skipSeparator cs = rest := by
  simp only [skipSeparator, comma]

theorem skipSeparator_of_other (other : ∀ rest, skipSpaces cs ≠ ',' :: rest) :
    skipSeparator cs = skipSpaces cs := by
  rw [skipSeparator]
  split
  · rename_i comma
    exact absurd comma (other _)
  · rfl

/-- Behind the brackets an item ends as a number of a list does. -/
theorem takeTransform_eq (cs : List Char) : takeTransform cs =
    (expect '(' (skipSpaces (takeWord (skipSpaces cs)).2)).bind fun inside =>
      (takeMaps (takeWord (skipSpaces cs)).1 inside).bind fun read =>
        (expect ')' (skipSpaces read.2)).bind fun behind =>
          some (read.1, skipSeparator behind) := by
  unfold takeTransform
  refine Option.bind_congr fun inside _ => Option.bind_congr fun read _ =>
    Option.bind_congr fun behind _ => ?_
  split
  · rename_i comma
    rw [skipSeparator_of_comma comma]
  · rename_i other
    rw [skipSeparator_of_other other]

/-- **What is taken is an item.** -/
theorem takeTransform_iff {maps : List (Matrix Float)} :
    takeTransform cs = some (maps, rest) ↔ IsItem cs maps rest := by
  simp only [takeTransform_eq, Option.bind_eq_some_iff, expect_iff]
  constructor
  · rintro ⟨inside, opens, ⟨found, behind⟩, read, left, closed, same⟩
    cases same
    obtain ⟨numbers, brackets, stands⟩ := takeMaps_iff.1 ⟨behind, read, closed⟩
    exact ⟨inside, numbers, left, opens, brackets, stands, rfl⟩
  · rintro ⟨inside, numbers, left, opens, brackets, stands, rfl⟩
    obtain ⟨behind, read, closed⟩ := takeMaps_iff.2 ⟨numbers, brackets, stands⟩
    exact ⟨inside, opens, _, read, left, closed, rfl⟩

/-! ## What is left of a text -/

theorem skipSpaces_suffix (cs : List Char) : skipSpaces cs <:+ cs :=
  List.dropWhile_suffix _

theorem skipSeparator_suffix (cs : List Char) : skipSeparator cs <:+ cs := by
  have spaces := skipSpaces_suffix cs
  unfold skipSeparator
  split
  · rename_i rest comma
    rw [comma] at spaces
    exact (List.suffix_cons _ _).trans spaces
  · exact spaces

theorem takeSign_suffix (cs : List Char) : (takeSign cs).2 <:+ cs := by
  cases cs with
  | nil => exact List.suffix_rfl
  | cons c cs =>
      rw [takeSign]
      split
      · exact List.suffix_cons _ _
      · exact List.suffix_rfl

theorem takeFraction_suffix (cs : List Char) : (takeFraction cs).2 <:+ cs := by
  unfold takeFraction
  split
  · exact (List.dropWhile_suffix _).trans (List.suffix_cons _ _)
  · exact List.suffix_rfl

theorem suffix_of_takeExponent {exponent : List Char}
    (taken : takeExponent cs = some (exponent, rest)) : rest <:+ cs := by
  cases cs with
  | nil =>
      cases taken
      exact List.suffix_rfl
  | cons c cs =>
      unfold takeExponent at taken
      dsimp only at taken
      split at taken
      · cases taken
        exact List.suffix_rfl
      · split at taken
        · cases taken
        · split at taken
          · cases taken
            exact List.suffix_rfl
          · split at taken
            · cases taken
            · cases taken
              exact (List.dropWhile_suffix _).trans
                ((takeSign_suffix _).trans (List.suffix_cons _ _))

theorem suffix_of_listNumber? {x : Float} (taken : listNumber? cs = some (x, rest)) :
    rest <:+ cs := by
  simp only [listNumber?, number?, Option.map_eq_some_iff, Option.bind_eq_bind,
    Option.bind_eq_some_iff] at taken
  obtain ⟨⟨y, behind⟩, ⟨⟨exponent, left⟩, last, literal, -, finite⟩, same⟩ := taken
  rw [Option.ite_none_right_eq_some] at finite
  cases finite.2
  cases same
  exact (skipSeparator_suffix _).trans <| (suffix_of_takeExponent last).trans <|
    (takeFraction_suffix _).trans <| (List.dropWhile_suffix _).trans <|
      (takeSign_suffix _).trans (skipSpaces_suffix cs)

theorem InBrackets.suffix {xs : List Float} (inside : InBrackets cs xs rest) : rest <:+ cs := by
  induction inside with
  | @close cs rest closed =>
      have bracket := skipSpaces_suffix cs
      rw [closed] at bracket
      exact (List.suffix_cons _ _).trans bracket
  | number first _ ih => exact ih.trans (suffix_of_listNumber? first)

/-- **An item takes a character at least.** -/
theorem IsItem.length_lt {maps : List (Matrix Float)} (item : IsItem cs maps rest) :
    rest.length < cs.length := by
  obtain ⟨inside, numbers, behind, opens, brackets, -, rfl⟩ := item
  have name : '(' :: inside <:+ cs := by
    rw [← opens]
    exact (skipSpaces_suffix _).trans ((List.dropWhile_suffix _).trans (skipSpaces_suffix cs))
  exact ((skipSeparator_suffix behind).trans brackets.suffix).length_le.trans_lt name.length_le

/-! ## Reading item by item -/

theorem takeItems_reads {fuel : Nat} {cs : List Char} (enough : cs.length < fuel) :
    Reads cs (takeItems takeTransform fuel cs).1.flatten
      (skipSpaces (takeItems takeTransform fuel cs).2) := by
  induction fuel generalizing cs with
  | zero => exact absurd enough (Nat.not_lt_zero _)
  | succ fuel ih =>
      cases taken : takeTransform cs with
      | none =>
          rw [takeItems, taken]
          refine .stop fun maps rest item => ?_
          rw [takeTransform_iff.2 item] at taken
          cases taken
      | some first =>
          obtain ⟨maps, rest⟩ := first
          have item := takeTransform_iff.1 taken
          have shorter := item.length_lt
          rw [takeItems, taken]
          exact .item item (ih (by omega))

/-- A text begins with one item at most. -/
theorem IsItem.unique {maps maps' : List (Matrix Float)} {rest' : List Char}
    (first : IsItem cs maps rest) (second : IsItem cs maps' rest') :
    maps = maps' ∧ rest = rest' := by
  have same := (takeTransform_iff.2 first).symm.trans (takeTransform_iff.2 second)
  cases same
  exact ⟨rfl, rfl⟩

/-- A text is read in one way. -/
theorem Reads.unique {left left' : List Char} {maps maps' : List (Matrix Float)}
    (first : Reads cs maps left) (second : Reads cs maps' left') : maps = maps' ∧ left = left' := by
  induction first generalizing maps' with
  | stop none =>
      cases second with
      | stop _ => exact ⟨rfl, rfl⟩
      | item item _ => exact absurd item (none _ _)
  | item item _ ih =>
      cases second with
      | stop none => exact absurd item (none _ _)
      | item item' others =>
          obtain ⟨rfl, rfl⟩ := item.unique item'
          obtain ⟨rfl, rfl⟩ := ih others
          exact ⟨rfl, rfl⟩

/-- **The list is read item by item up to its first fault.** -/
theorem reads_iff {s : String} {maps : List (Matrix Float)} {left : List Char} :
    Reads s.toList maps left ↔ readTransforms s = (maps, left) := by
  have read : Reads s.toList (readTransforms s).1 (readTransforms s).2 :=
    takeItems_reads (Nat.lt_succ_self _)
  constructor
  · intro other
    obtain ⟨same, same'⟩ := read.unique other
    exact Prod.ext same same'
  · rintro same
    rwa [same] at read

end Geometry

/-! ## Maps without rounding -/

namespace Matrix

section

variable {α β : Type}

/-- A matrix with its numbers read otherwise. -/
def map (value : α → β) (m : Matrix α) : Matrix β :=
  ⟨value m.a, value m.b, value m.c, value m.d, value m.e, value m.f⟩

/-- The product of some maps, in order. -/
def product [Scalar α] (maps : List (Matrix α)) : Matrix α :=
  maps.foldl (· * ·) .identity

end

section

variable {K : Type} [Field K] [LinearOrder K]

attribute [local instance] Scalar.exact

theorem apply_identity (p : Point K) : (identity : Matrix K).apply p = p := by
  have zero : (Scalar.whole 0 : K) = 0 := Nat.cast_zero
  have one : (Scalar.whole 1 : K) = 1 := Nat.cast_one
  simp [apply, identity, zero, one]

theorem apply_mul (m n : Matrix K) (p : Point K) : (m * n).apply p = m.apply (n.apply p) := by
  change (mul m n).apply p = _
  simp only [apply, mul, Point.mk.injEq]
  constructor <;> ring

/-- **The product of maps does what they do one after the other, the last one first.** -/
theorem apply_product (maps : List (Matrix K)) (p : Point K) :
    (product maps).apply p = maps.foldr apply p := by
  have onto (m : Matrix K) : (maps.foldl (· * ·) m).apply p = m.apply (maps.foldr apply p) := by
    induction maps generalizing m with
    | nil => rfl
    | cons n maps ih =>
        rw [List.foldl_cons, ih, apply_mul]
        rfl
  rw [product, onto, apply_identity]

/-- A map is given by what it does. -/
theorem eq_iff_apply {m n : Matrix K} : m = n ↔ ∀ p, m.apply p = n.apply p := by
  refine ⟨fun same p => congrArg (apply · p) same, fun same => ?_⟩
  have origin := same ⟨0, 0⟩
  have right := same ⟨1, 0⟩
  have down := same ⟨0, 1⟩
  obtain ⟨a, b, c, d, e, f⟩ := m
  obtain ⟨a', b', c', d', e', f'⟩ := n
  simp only [apply, Point.mk.injEq, mul_zero, mul_one, zero_add, add_zero] at origin right down
  obtain ⟨rfl, rfl⟩ := origin
  simp only [add_left_inj] at right down
  obtain ⟨⟨rfl, rfl⟩, rfl, rfl⟩ := right, down
  rfl

end

end Matrix

namespace Geometry

/-! ## The list and the matrix -/

/-- A transform list as one map, its numbers read as some others. -/
def wholeOf {α : Type} [Scalar α] (value : Float → α) (s : String) : Matrix α :=
  match readTransforms s with
  | (maps, []) => .product (maps.map (Matrix.map value))
  | _ => .identity

/-- Over floats it is the matrix that boxes are taken under. -/
theorem wholeOf_id (s : String) : wholeOf id s = transformOf s := by
  have same (maps : List (Matrix Float)) : maps.map (Matrix.map id) = maps := List.map_id maps
  rw [wholeOf, transformOf]
  obtain ⟨maps, left⟩ := readTransforms s
  cases left with
  | nil => exact congrArg Matrix.product (same maps)
  | cons c left => rfl

theorem wholeOf_of_reads {α : Type} [Scalar α] (value : Float → α) {s : String}
    {maps : List (Matrix Float)} {left : List Char} (reads : Reads s.toList maps left) :
    (left = [] → wholeOf value s = .product (maps.map (Matrix.map value))) ∧
      (left ≠ [] → wholeOf value s = .identity) := by
  rw [wholeOf, reads_iff.1 reads]
  cases left with
  | nil => exact ⟨fun _ => rfl, fun fault => absurd rfl fault⟩
  | cons c left => exact ⟨fun none => absurd none (List.cons_ne_nil _ _), fun _ => rfl⟩

/-- Small whole numbers are exact. -/
theorem toRat_ofNat {n : ℕ} (small : n < 2 ^ 53) : Number.toRat (.ofNat n) = n :=
  (Number.rounds_ofNat n).natCast small |>.2

section

variable {K : Type} [Field K] [LinearOrder K]

attribute [local instance] Scalar.exact

/-- **The list and the matrix of a transform attribute describe the same map of a text without a
fault.**  Both are made of the same items, up to the same place.  Where nothing is left of the text,
the matrix is the product of the maps in order; where something is left it is the identity.  So
without rounding it does what the maps do one after the other, the last one first, exactly if there
is no fault or the maps in front of it come to nothing.  The maps are what a moved element's base is
written from, and the matrix is what its box is taken under. -/
theorem transform_readings (value : Float → K) (s : String) :
    ∃ maps left, Reads s.toList maps left ∧ transformList s = maps ∧
      (left = [] → transformOf s = .product maps ∧
        wholeOf value s = .product (maps.map (Matrix.map value))) ∧
      (left ≠ [] → transformOf s = .identity ∧ wholeOf value s = .identity) ∧
      ((∀ p, (wholeOf value s).apply p = (maps.map (Matrix.map value)).foldr Matrix.apply p) ↔
        left = [] ∨ Matrix.product (maps.map (Matrix.map value)) = .identity) ∧
      ∀ (d : Markup.Document) (element : Markup.NodeId),
        d.attribute? element "transform" = some s →
          (Binding.TransformBinding.bind d element).2.baseFragments = maps.map Matrix.toCss ∧
          Shape.ownTransform d element = transformOf s := by
  have reads : Reads s.toList (transformList s) (readTransforms s).2 := reads_iff.2 rfl
  generalize (readTransforms s).2 = left at reads
  obtain ⟨clean, faulty⟩ := wholeOf_of_reads value reads
  obtain ⟨clean', faulty'⟩ := wholeOf_of_reads id reads
  have same (maps : List (Matrix Float)) : maps.map (Matrix.map id) = maps := List.map_id maps
  rw [wholeOf_id, same] at clean'
  rw [wholeOf_id] at faulty'
  refine ⟨_, left, reads, rfl, fun none => ⟨clean' none, clean none⟩,
    fun fault => ⟨faulty' fault, faulty fault⟩, ?_, fun d element written => ⟨?_, ?_⟩⟩
  · simp only [← Matrix.apply_product]
    rw [← Matrix.eq_iff_apply]
    by_cases none : left = []
    · exact iff_of_true (clean none) (.inl none)
    · rw [faulty none, or_iff_right none, eq_comm]
  · rw [Binding.TransformBinding.bind, written]
    rfl
  · rw [Shape.ownTransform, written]
    rfl

/-- The theorem at a list whose maps do not commute: the last one comes first. -/
theorem transform_readings_scaled :
    (readTransforms "translate(10 0) scale(2)").2 = [] ∧
      (wholeOf Number.toRat "translate(10 0) scale(2)").apply ⟨1, 1⟩ = ⟨12, 2⟩ := by
  have nothing : (readTransforms "translate(10 0) scale(2)").2 = [] := by decide +kernel
  obtain ⟨maps, left, reads, list, -, -, agree, -⟩ :=
    transform_readings Number.toRat "translate(10 0) scale(2)"
  have none : left = [] := by rw [← nothing, reads_iff.1 reads]
  have made : transformList "translate(10 0) scale(2)" =
      [.shift ⟨.ofNat 10, .ofNat 0⟩, .scaling (.ofNat 2) (.ofNat 2)] := rfl
  refine ⟨nothing, (agree.2 (.inl none) ⟨1, 1⟩).trans ?_⟩
  rw [← list, made]
  simp [Matrix.apply, Matrix.map, Matrix.shift, Matrix.scaling, Matrix.identity, Scalar.whole,
    toRat_ofNat]
  norm_num

/-- In front of a fault the list has a map that the matrix does not have. -/
theorem not_transform_readings :
    ¬ ∀ (s : String) (p : Point ℚ), (wholeOf Number.toRat s).apply p =
      ((transformList s).map (Matrix.map Number.toRat)).foldr Matrix.apply p := by
  intro all
  have list : transformList "translate(10 0) bogus(1)" = [.shift ⟨.ofNat 10, .ofNat 0⟩] := rfl
  have fault : (readTransforms "translate(10 0) bogus(1)").2 ≠ [] := by decide +kernel
  have whole := (wholeOf_of_reads Number.toRat (reads_iff.2 Prod.mk.eta.symm)).2 fault
  have stated := congrArg Point.x (all "translate(10 0) bogus(1)" ⟨0, 0⟩)
  rw [whole, Matrix.apply_identity, list] at stated
  simp [Matrix.apply, Matrix.map, Matrix.shift, toRat_ofNat] at stated

end

end Geometry

end Infographic
