/-
# Infographic.Proofs.FirstTag -- the first tag of a text and what its body says

A tag is found by its place: the first tag is the one that begins furthest left, and a text
has none exactly when no stretch of it is a tag.  The body of a tag is laid out in one of
three ways, around a bar, with a colon or as a name alone, and read accordingly.
-/
import Infographic.Directive.Basic
import Infographic.Proofs.TextPieces

namespace Infographic.Directive

set_option autoImplicit false

variable {cs body rest : List Char}

/-! ## Places of tags -/

/-- A text is cut around a tag. -/
structure TagAt (cs before body after : List Char) : Prop where
  whole : cs = before ++ (wholeTag body ++ after)
  nonempty : body ≠ []
  unclosed : '\x7d' ∉ body

/-- The first tag of a text has this body: no tag begins further left. -/
def FirstTag (cs body : List Char) : Prop :=
  ∃ before after, TagAt cs before body after ∧
    ∀ {otherBefore otherBody otherAfter}, TagAt cs otherBefore otherBody otherAfter →
      before.length ≤ otherBefore.length

theorem TagAt.cons {before after : List Char} (placed : TagAt cs before body after) (c : Char) :
    TagAt (c :: cs) (c :: before) body after :=
  ⟨by rw [placed.whole, List.cons_append], placed.nonempty, placed.unclosed⟩

theorem tagBody?_wholeTag (nonempty : body ≠ []) (unclosed : '\x7d' ∉ body) :
    tagBody? (wholeTag body ++ rest) = some body := by
  have inside : ∀ c ∈ body, (c != '\x7d') = true := fun c member => by
    simpa using fun (same : c = '\x7d') => unclosed (same ▸ member)
  have head : (body ++ '\x7d' :: '\x7d' :: rest).takeWhile (· != '\x7d') = body := by
    rw [List.takeWhile_append_of_pos inside]
    simp
  have tail : (body ++ '\x7d' :: '\x7d' :: rest).dropWhile (· != '\x7d') =
      '\x7d' :: '\x7d' :: rest := by
    rw [List.dropWhile_append_of_pos inside]
    simp
  have whole : wholeTag body ++ rest = '\x7b' :: '\x7b' :: (body ++ '\x7d' :: '\x7d' :: rest) := by
    simp [wholeTag, openBraces, closeBraces]
  rw [whole, tagBody?, head, tail]
  simp [nonempty]

theorem TagAt.tagBody? {after : List Char} (placed : TagAt cs [] body after) :
    tagBody? cs = some body := by
  rw [placed.whole, List.nil_append, tagBody?_wholeTag placed.nonempty placed.unclosed]

theorem tagAt_of_tagBody? (found : tagBody? cs = some body) : ∃ after, TagAt cs [] body after := by
  obtain ⟨after, whole, nonempty, inside⟩ := eq_wholeTag_of_tagBody? found
  exact ⟨after, whole, nonempty, fun member => inside _ member rfl⟩

theorem firstTag_of_firstTag? (found : firstTag? cs = some body) : FirstTag cs body := by
  induction cs with
  | nil => simp [firstTag?] at found
  | cons c rest ih =>
      rw [firstTag?] at found
      cases here : tagBody? (c :: rest) with
      | some first =>
          rw [here] at found
          cases found
          obtain ⟨after, placed⟩ := tagAt_of_tagBody? here
          exact ⟨[], after, placed, fun _ => Nat.zero_le _⟩
      | none =>
          rw [here] at found
          obtain ⟨before, after, placed, least⟩ := ih found
          refine ⟨c :: before, after, placed.cons c, fun {otherBefore _ _} other => ?_⟩
          -- No tag begins at the first character, so every other one lies in the rest too.
          cases otherBefore with
          | nil => simp [other.tagBody?] at here
          | cons d otherBefore =>
              have tail : rest = otherBefore ++ _ := (List.cons.inj other.whole).2
              have later := least ⟨tail, other.nonempty, other.unclosed⟩
              simpa using later

theorem firstTag?_eq_none_iff :
    firstTag? cs = none ↔ ∀ before body after, ¬ TagAt cs before body after := by
  induction cs with
  | nil =>
      refine iff_of_true rfl fun before body after placed => ?_
      simpa [wholeTag, openBraces] using placed.whole
  | cons c rest ih =>
      rw [firstTag?]
      cases here : tagBody? (c :: rest) with
      | some first =>
          obtain ⟨after, placed⟩ := tagAt_of_tagBody? here
          exact iff_of_false (by simp) fun none => none _ _ _ placed
      | none =>
          refine ih.trans ⟨fun none before body after placed => ?_, fun none _ _ _ placed =>
            none _ _ _ (placed.cons c)⟩
          cases before with
          | nil => simp [placed.tagBody?] at here
          | cons d before =>
              have tail := (List.cons.inj placed.whole).2
              exact none before body after ⟨tail, placed.nonempty, placed.unclosed⟩

theorem firstTag?_eq_some_iff : firstTag? cs = some body ↔ FirstTag cs body := by
  refine ⟨firstTag_of_firstTag?, fun ⟨before, after, placed, least⟩ => ?_⟩
  cases found : firstTag? cs with
  | none => exact absurd placed (firstTag?_eq_none_iff.1 found before body after)
  | some first =>
      obtain ⟨others, rest, other, least'⟩ := firstTag_of_firstTag? found
      -- Both tags begin at the same place, and a tag is read off the text behind its place.
      have cut := placed.whole.symm.trans other.whole
      have behind := (List.append_inj cut (Nat.le_antisymm (least other) (least' placed))).2
      have same : tagBody? (wholeTag body ++ after) = some body :=
        tagBody?_wholeTag placed.nonempty placed.unclosed
      rw [behind, tagBody?_wholeTag other.nonempty other.unclosed] at same
      exact same

/-! ## Layouts of bodies -/

/-- What the body of a tag says: its name, and its option list if it has one. -/
inductive Layout : List Char → List Char → Option (List Char) → Prop
  /-- A name, without spaces and hyphens around it, and a list behind the first bar. -/
  | bar {name list : List Char} (free : '|' ∉ name) :
      Layout (name ++ '|' :: list) (Text.trimWhere (fun c => c == ' ' || c == '-') name) (some list)
  /-- A list alone. -/
  | colon {body : List Char} (free : '|' ∉ body) (colon : ':' ∈ body) : Layout body [] (some body)
  /-- A name alone. -/
  | name {body : List Char} (free : '|' ∉ body) (plain : ':' ∉ body) :
      Layout body (Text.trim body) none

theorem beq_of_not_mem {c : Char} (free : c ∉ body) : ∀ d ∈ body, (d == c) = false :=
  fun d member => by simpa using fun (same : d = c) => free (same ▸ member)

/-- Every body is laid out in one way. -/
theorem exists_layout (body : List Char) : ∃ name list?, Layout body name list? := by
  cases cut : Text.cutWhere (· == '|') body with
  | some found =>
      obtain ⟨c, bar, rfl, free⟩ := Text.append_of_cutWhere cut
      obtain rfl : c = '|' := by simpa using bar
      exact ⟨_, _, .bar fun member => by simpa using free _ member⟩
  | none =>
      have free : '|' ∉ body := fun member => by
        simpa using Text.cutWhere_eq_none_iff.1 cut _ member
      by_cases colon : ':' ∈ body
      · exact ⟨_, _, .colon free colon⟩
      · exact ⟨_, _, .name free colon⟩

/-- A directive with a name and the options of a list, if there is one. -/
def withList (name : List Char) : Option (List Char) → Except Fault Directive
  | none => .ok ⟨String.ofList name, []⟩
  | some list => (readOptions list).map fun opts => ⟨String.ofList name, opts⟩

theorem ofBody_of_layout {name : List Char} {list? : Option (List Char)}
    (layout : Layout body name list?) : ofBody body = withList name list? := by
  cases layout with
  | bar free =>
      rw [ofBody, Text.cutWhere_append (beq_of_not_mem free) (by decide)]
      dsimp only [withList]
      cases readOptions _ <;> rfl
  | colon free colon =>
      rw [ofBody, Text.cutWhere_eq_none_iff.2 (beq_of_not_mem free), if_pos (by simpa using colon)]
      cases read : readOptions body <;> simp [withList, read] <;> rfl
  | name free plain =>
      rw [ofBody, Text.cutWhere_eq_none_iff.2 (beq_of_not_mem free), if_neg (by simpa using plain)]
      rfl

theorem ofText_of_firstTag {text : String} {body name : List Char} {list? : Option (List Char)}
    (first : FirstTag (decode text.toList) body) (layout : Layout body name list?) :
    ofText text = withList name list? := by
  rw [ofText, firstTag?_eq_some_iff.2 first]
  exact ofBody_of_layout layout

end Infographic.Directive
