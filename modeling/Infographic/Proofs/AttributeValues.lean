/-
# Infographic.Proofs.AttributeValues -- what attribute values stand for

Normalizing a value comes back to the nesting it began with (`normalizeValue_depth`), so the
attributes of a tag are normalized one by one.  References are nested at most ten deep, and an
entity is no longer than the text that declares it (`entities_short`): fuel for twelve times the
length of the text is enough for every value that has a meaning at all
(`normalizeValue_enough`).
-/
import Infographic.Proofs.ResolvedTree
import Infographic.Proofs.TagAttributes
import Mathlib.Data.List.Forall2

namespace Infographic.Markup

set_option autoImplicit false

variable {entities : Entities} {fuel : Nat} {nesting last : Nesting} {acc cs out : List Char}

/-- What an attribute value stands for outside all entities. -/
def StandsFor (entities : Entities) (value : List Char) (s : String) : Prop :=
  ∃ fuel last acc, normalizeValue entities fuel .none [] value = some (last, acc) ∧
    s = String.ofList acc.reverse

/-! ## Nesting -/

theorem Nesting.enter_eq_some {n inner : Nesting} (entered : n.enter = some inner) :
    n.depth < 10 ∧ inner.depth = n.depth + 1 := by
  rw [enter] at entered
  split at entered
  · cases entered
  · split at entered
    · cases entered
    · cases entered
      exact ⟨by omega, rfl⟩

theorem Nesting.leave_depth {n : Nesting} {depth : Nat} (inside : n.depth = depth + 1) :
    n.leave.depth = depth ∧ (depth = 0 → n.leave = .none) := by
  rw [leave]
  split
  · exact ⟨by show 0 = depth; omega, fun _ => rfl⟩
  · exact ⟨by show n.depth - 1 = depth; omega, fun _ => by omega⟩

/-- Every reference that was followed is left again. -/
theorem normalizeValue_depth
    (normal : normalizeValue entities fuel nesting acc cs = some (last, out)) :
    last.depth = nesting.depth ∧ (nesting = .none → last = .none) := by
  induction fuel generalizing nesting acc cs last out with
  | zero => cases normal
  | succ fuel ih =>
      cases normalizeValue_iff.1 normal with
      | done => exact ⟨rfl, id⟩
      | outer _ _ later => exact ih later
      | inner _ _ _ later => exact ih later
      | entity _ _ entered content later =>
          obtain ⟨-, deeper⟩ := Nesting.enter_eq_some entered
          obtain ⟨back, outermost⟩ := Nesting.leave_depth ((ih content).1.trans deeper)
          obtain ⟨same, none⟩ := ih later
          exact ⟨same.trans back, fun flat => none (outermost (by rw [flat]; rfl))⟩
      | newline later => exact ih later
      | char _ _ later => exact ih later

/-- The values of a tag are normalized one after the other. -/
theorem normalizeAttributes_cons {a : QualifiedName × List Char}
    {others : List (QualifiedName × List Char)} {attributes : List RawAttribute} :
    normalizeAttributes entities fuel nesting (a :: others) = some (last, attributes) ↔
      ∃ mid acc, normalizeValue entities fuel nesting [] a.2 = some (mid, acc) ∧
        ∃ more, normalizeAttributes entities fuel mid others = some (last, more) ∧
          ⟨a.1, String.ofList acc.reverse⟩ :: more = attributes := by
  rw [normalizeAttributes, Option.bind_eq_bind, Option.bind_eq_some_iff, Prod.exists]
  refine exists_congr fun mid => exists_congr fun acc => and_congr_right fun _ => ?_
  rw [Option.bind_eq_bind, Option.bind_eq_some_iff, Prod.exists]
  simp only [Option.pure_def, Option.some.injEq, Prod.mk.injEq]
  constructor
  · rintro ⟨_, more, later, rfl, whole⟩
    exact ⟨more, later, whole⟩
  · rintro ⟨more, later, whole⟩
    exact ⟨last, more, later, rfl, whole⟩

theorem normalizeAttributes_append {first second : List (QualifiedName × List Char)}
    {attributes : List RawAttribute} :
    normalizeAttributes entities fuel nesting (first ++ second) = some (last, attributes) ↔
      ∃ mid as, normalizeAttributes entities fuel nesting first = some (mid, as) ∧
        ∃ bs, normalizeAttributes entities fuel mid second = some (last, bs) ∧
          as ++ bs = attributes := by
  induction first generalizing nesting attributes with
  | nil =>
      constructor
      · exact fun normal => ⟨nesting, [], rfl, attributes, normal, rfl⟩
      · rintro ⟨_, _, nothing, bs, normal, rfl⟩
        cases nothing
        exact normal
  | cons a first ih =>
      rw [List.cons_append, normalizeAttributes_cons]
      simp only [ih, normalizeAttributes_cons]
      constructor
      · rintro ⟨mid, acc, value, more, ⟨mid', as, before, bs, after, rfl⟩, rfl⟩
        exact ⟨mid', _, ⟨mid, acc, value, as, before, rfl⟩, bs, after, rfl⟩
      · rintro ⟨mid', _, ⟨mid, acc, value, as, before, rfl⟩, bs, after, rfl⟩
        exact ⟨mid, acc, value, _, ⟨mid', as, before, bs, after, rfl⟩, rfl⟩

theorem normalizeAttributes_none {raw : List (QualifiedName × List Char)}
    {attributes : List RawAttribute}
    (normal : normalizeAttributes entities fuel .none raw = some (last, attributes)) :
    last = .none := by
  induction raw generalizing attributes with
  | nil =>
      cases normal
      rfl
  | cons a raw ih =>
      obtain ⟨mid, acc, first, more, later, -⟩ := normalizeAttributes_cons.1 normal
      rw [(normalizeValue_depth first).2 rfl] at later
      exact ih later

/-- Every attribute of a tag has the value that stands in the text. -/
theorem standsFor_of_normalized {raw : List (QualifiedName × List Char)}
    {attributes : List RawAttribute}
    (normal : normalizeAttributes entities fuel .none raw = some (last, attributes)) :
    List.Forall₂ (fun a b => b.name = a.1 ∧ StandsFor entities a.2 b.value) raw attributes := by
  induction raw generalizing attributes with
  | nil =>
      cases normal
      exact .nil
  | cons a raw ih =>
      obtain ⟨mid, acc, first, more, later, rfl⟩ := normalizeAttributes_cons.1 normal
      rw [(normalizeValue_depth first).2 rfl] at later
      exact .cons ⟨rfl, fuel, mid, acc, first, rfl⟩ (ih later)

/-! ## Enough fuel -/

/-- References are nested at most ten deep, so fuel for eleven times the longest text is
enough. -/
theorem normalizeValue_enough {longest more : Nat}
    (short : ∀ e ∈ entities, e.2.length ≤ longest)
    (normal : normalizeValue entities fuel nesting acc cs = some (last, out))
    (shallow : nesting.depth ≤ 10)
    (enough : (10 - nesting.depth) * (longest + 1) + cs.length < more) :
    normalizeValue entities more nesting acc cs = some (last, out) := by
  induction fuel generalizing nesting acc cs last out more with
  | zero => cases normal
  | succ fuel ih =>
      obtain ⟨more, rfl⟩ : ∃ n, more = n + 1 := ⟨more - 1, by omega⟩
      refine normalizeValue_iff.2 ?_
      cases normalizeValue_iff.1 normal with
      | done => exact .done
      | outer refers flat later =>
          have shorter := (readReference_cases refers).1.length_le
          rw [List.length_cons] at enough
          exact .outer refers flat (ih later shallow (by omega))
      | inner refers deep other later =>
          have shorter := (readReference_cases refers).1.length_le
          rw [List.length_cons] at enough
          exact .inner refers deep other (ih later shallow (by omega))
      | entity refers declared entered content later =>
          rename_i inner inside _ _ _ _ value
          have shorter := (readReference_cases refers).1.length_le
          have small : value.length ≤ longest := by
            obtain ⟨e, found, rfl⟩ := Option.map_eq_some_iff.1 declared
            exact short e (List.mem_of_find?_eq_some found)
          obtain ⟨room, deeper⟩ := Nesting.enter_eq_some entered
          obtain ⟨back, -⟩ := Nesting.leave_depth ((normalizeValue_depth content).1.trans deeper)
          obtain ⟨left, here⟩ : ∃ n, 10 - nesting.depth = n + 1 := ⟨9 - nesting.depth, by omega⟩
          have below : 10 - inner.depth = left := by omega
          rw [List.length_cons, here, Nat.succ_mul] at enough
          refine .entity refers declared entered
            (ih content (by omega) (by rw [below]; omega)) (ih later (by omega) ?_)
          rw [back, here, Nat.succ_mul]
          omega
      | newline later =>
          rw [List.length_cons, List.length_cons] at enough
          exact .newline (ih later shallow (by rw [List.length_cons]; omega))
      | char plain apart later =>
          rw [List.length_cons] at enough
          exact .char plain apart (ih later shallow (by omega))

/-- A value that stands for something is normalized with fuel for eleven times the longest
text. -/
theorem StandsFor.normalizeValue {value : List Char} {s : String}
    (stands : StandsFor entities value s) {longest more : Nat}
    (short : ∀ e ∈ entities, e.2.length ≤ longest) (inside : value.length ≤ longest)
    (enough : 11 * (longest + 1) ≤ more) :
    ∃ acc, Markup.normalizeValue entities more .none [] value = some (.none, acc) ∧
      String.ofList acc.reverse = s := by
  obtain ⟨fuel, last, acc, normal, rfl⟩ := stands
  obtain rfl := (normalizeValue_depth normal).2 rfl
  refine ⟨acc, normalizeValue_enough short normal (by decide) ?_, rfl⟩
  show (10 - 0) * (longest + 1) + value.length < more
  omega

/-! ## Declared entities -/

/-- A tag to stand at the end of a text. -/
theorem startsTag_a : StartsTag ['<', 'a'] := ⟨'a', [], rfl, by decide⟩

/-- A reader that keeps to its part leaves no more than there was. -/
theorem KeepsTo.length_le {α : Type} {reads : List Char → α → List Char → Prop} {a : α}
    {rest : List Char} (keeps : KeepsTo ['<', 'a'] ['<', 'a'] reads) (read : reads cs a rest) :
    rest.length ≤ cs.length := by
  obtain ⟨used, rfl, -⟩ := keeps cs a rest read
  simp

variable {rest : List Char} {longest : Nat}

/-- The value of an entity stands in its declaration. -/
theorem readEntityValue_short {general : Bool} {value : List Char}
    (read : readEntityValue general cs = some (some value, rest)) : value.length ≤ cs.length := by
  rw [readEntityValue.eq_def] at read
  split at read
  · cases read
  · rename_i c more
    split at read
    · obtain ⟨⟨quote, inside⟩, opens, read⟩ := Option.bind_eq_some_iff.1 read
      obtain ⟨⟨value', behind⟩, quoted, read⟩ := Option.bind_eq_some_iff.1 read
      cases read
      have whole := (readQuoted_eq_some_iff.1 quoted).1
      have within := keepsTo_readQuote.length_le opens
      rw [whole, List.length_append] at within
      omega
    · obtain ⟨⟨found, behind⟩, -, read⟩ := Option.bind_eq_some_iff.1 read
      dsimp only at read
      split at read
      · cases read
      · split at read
        · split at read
          · obtain ⟨inside, -, read⟩ := Option.bind_eq_some_iff.1 read
            obtain ⟨⟨name, left⟩, -, read⟩ := Option.bind_eq_some_iff.1 read
            cases read
          · cases read
        · cases read

theorem readEntity_short {declared : Entities} (short : ∀ e ∈ entities, e.2.length ≤ longest)
    (inside : cs.length ≤ longest) (read : readEntity entities cs = some (declared, rest)) :
    ∀ e ∈ declared, e.2.length ≤ longest := by
  rw [readEntity_eq] at read
  obtain ⟨spaced, spaces, read⟩ := Option.bind_eq_some_iff.1 read
  obtain ⟨⟨general, marked⟩, mark, read⟩ := Option.bind_eq_some_iff.1 read
  obtain ⟨⟨name, named⟩, name', read⟩ := Option.bind_eq_some_iff.1 read
  obtain ⟨valued, spaces', read⟩ := Option.bind_eq_some_iff.1 read
  obtain ⟨⟨value, left⟩, valued', read⟩ := Option.bind_eq_some_iff.1 read
  have first := (keepsTo_needSpaces startsTag_a startsTag_a).length_le (a := ()) spaces
  have second := (keepsTo_readMark startsTag_a startsTag_a).length_le mark
  have third : named.length ≤ marked.length :=
    (keepsTo_readName startsTag_a startsTag_a).length_le name'
  have fourth := (keepsTo_needSpaces startsTag_a startsTag_a).length_le (a := ()) spaces'
  dsimp only at read
  split at read
  · cases read
    cases value with
    | none => exact short
    | some value =>
        have last := readEntityValue_short valued'
        intro e member
        rcases List.mem_append.1 member with old | new
        · exact short e old
        · rw [List.mem_singleton.1 new]
          show value.length ≤ longest
          omega
  · cases read

theorem readSubset_short {fuel : Nat} {declared : Entities}
    (short : ∀ e ∈ entities, e.2.length ≤ longest) (inside : cs.length ≤ longest)
    (read : readSubset fuel entities cs = some (declared, rest)) :
    ∀ e ∈ declared, e.2.length ≤ longest := by
  induction fuel generalizing entities cs with
  | zero => cases read
  | succ fuel ih =>
      have spaces := (keepsTo_skipSpaces startsTag_a startsTag_a).length_le (a := ())
        (rfl : some (skipSpaces cs) = some (skipSpaces cs))
      have word {w behind : List Char} (begins : Text.afterWord w (skipSpaces cs) = some behind) :=
        (KeepsTo.word w).length_le (a := ()) begins
      obtain ⟨-, same⟩ | ⟨_, -, _, -, same⟩ | ⟨behind, entities', left, begins, entity, read⟩ |
        ⟨behind, left, begins, skipped, read⟩ | ⟨behind, left, begins, skipped, read⟩ |
        ⟨left, skipped, read⟩ := readSubset_iff.1 read
      · cases same
        exact short
      · cases same
        exact short
      · have before := word begins
        have after := (keepsTo_readEntity startsTag_a startsTag_a _).length_le entity
        exact ih (readEntity_short short (by omega) entity) (by omega) read
      · have before := word begins
        have after := keepsTo_skipComment.length_le (a := ()) skipped
        exact ih short (by omega) read
      · have before := word begins
        have after := (keepsTo_skipInstruction startsTag_a startsTag_a).length_le (a := ()) skipped
        exact ih short (by omega) read
      · have after :=
          (keepsTo_skipMarkupDeclaration startsTag_a startsTag_a).length_le (a := ()) skipped
        exact ih short (by omega) read

theorem readDoctype_short {declared : Entities} (read : readDoctype cs = some (declared, rest)) :
    ∀ e ∈ declared, e.2.length ≤ cs.length := by
  obtain ⟨spaced, spaces, read⟩ := Option.bind_eq_some_iff.1 read
  obtain ⟨⟨name, named⟩, name', read⟩ := Option.bind_eq_some_iff.1 read
  obtain ⟨⟨found, behind⟩, outside, read⟩ := Option.bind_eq_some_iff.1 read
  have skip (cs : List Char) : (skipSpaces cs).length ≤ cs.length :=
    (keepsTo_skipSpaces startsTag_a startsTag_a).length_le (a := ())
      (rfl : some (skipSpaces cs) = some (skipSpaces cs))
  have first := (keepsTo_needSpaces startsTag_a startsTag_a).length_le (a := ()) spaces
  have second := (keepsTo_readName startsTag_a startsTag_a).length_le name'
  have third : behind.length ≤ (skipSpaces named).length :=
    (keepsTo_skipExternal startsTag_a startsTag_a).length_le outside
  have fourth := skip named
  have fifth := skip behind
  dsimp only at read
  split at read
  · cases read
    simp
  · rename_i inside begins
    rw [begins, List.length_cons] at fifth
    exact readSubset_short (by simp) (by omega) read
  · cases read

theorem readType_short {declared : Entities} (read : readType cs = some (declared, rest)) :
    ∀ e ∈ declared, e.2.length ≤ cs.length := by
  rw [readType] at read
  split at read
  · rename_i inside begins
    obtain ⟨⟨found, left⟩, doctype, read⟩ := Option.bind_eq_some_iff.1 read
    obtain ⟨_, -, read⟩ := Option.bind_eq_some_iff.1 read
    cases read
    have within := (KeepsTo.word _).length_le (a := ()) begins
    exact fun e member => (readDoctype_short doctype e member).trans within
  · cases read
    simp

/-- **Entities are no longer than the text** that declares them. -/
theorem entities_short (read : readProlog cs = some (entities, rest)) :
    ∀ e ∈ entities, e.2.length ≤ cs.length := by
  rw [readProlog_eq] at read
  obtain ⟨opened, opening, read⟩ := Option.bind_eq_some_iff.1 read
  obtain ⟨behind, skipped, read⟩ := Option.bind_eq_some_iff.1 read
  have first := (keepsTo_skipOpening startsTag_a startsTag_a).length_le (a := ()) opening
  have second := (keepsTo_skipMisc startsTag_a startsTag_a _).length_le (a := ()) skipped
  exact fun e member => (readType_short read e member).trans (second.trans first)

end Infographic.Markup
