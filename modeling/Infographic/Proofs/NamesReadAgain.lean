/-
# Infographic.Proofs.NamesReadAgain -- reading the name of a directive again

The name of a directive holds no tag, whatever braces and escapes it was read from.  Reading it
again decodes its escapes once more, so it gives the name back exactly if no genuine escape is taken
in it (`name_read_again`); an escape of an underscore can leave one behind.
-/
import Infographic.Proofs.FirstTag
import Infographic.Proofs.TakenEscapes

namespace Infographic.Directive

set_option autoImplicit false

open Text (Cut Cuts refill)

variable {cs body name tail : List Char} {cuts : List Cut} {text : String} {d : Directive}

/-! ## Texts without genuine escapes -/

theorem length_shown_lt {w : List Char} {c : Char} (genuine : Genuine w c) :
    (shown w).length < w.length := by
  rw [shown_of_genuine genuine]
  obtain ⟨body, rfl, -⟩ := genuine
  simp [wholeEscape]

theorem shown_eq_self_iff {w : List Char} (escape : IsEscape w) :
    shown w = w ↔ ∀ c, ¬ Genuine w c := by
  refine ⟨fun same c genuine => ?_, shown_of_not_genuine escape⟩
  have shorter := length_shown_lt genuine
  rw [same] at shorter
  exact Nat.lt_irrefl _ shorter

theorem length_shown_le {w : List Char} (escape : IsEscape w) : (shown w).length ≤ w.length := by
  by_cases genuine : ∃ c, Genuine w c
  · obtain ⟨c, genuine⟩ := genuine
    exact (length_shown_lt genuine).le
  · rw [shown_of_not_genuine escape (not_exists.1 genuine)]

theorem length_decode_le (cs : List Char) : (decode cs).length ≤ cs.length := by
  obtain ⟨cuts, tail, cut⟩ := Text.exists_cuts distinct_escapes cs
  induction cut with
  | last free => simp [decode_eq (.last free)]
  | next word whole first later ih =>
      have here := length_shown_le word
      rw [decode_next word whole first, whole]
      simp only [List.length_append]
      omega

/-- A text is its own decoding exactly if no genuine escape is taken in it. -/
theorem decode_eq_self_iff (cut : Cuts IsEscape cs cuts tail) :
    decode cs = cs ↔ ∀ c ∈ cuts, ∀ e, ¬ Genuine c.word e := by
  induction cut with
  | last free => simp [decode_eq (.last free)]
  | @next cs gap w after tail cuts word whole first later ih =>
      rw [decode_next word whole first, whole, List.append_cancel_left_eq, List.forall_mem_cons,
        ← ih, ← shown_eq_self_iff word]
      constructor
      · intro same
        -- Neither part gets longer, so both keep their lengths.
        have here := length_shown_le word
        have behind := length_decode_le after
        have lengths := congrArg List.length same
        simp only [List.length_append] at lengths
        exact List.append_inj same (by omega)
      · rintro ⟨here, behind⟩
        rw [here, behind]

/-! ## Names -/

theorem firstTag?_eq_none_of_not_mem (free : '\x7d' ∉ cs) : firstTag? cs = none := by
  refine firstTag?_eq_none_iff.2 fun before body after placed => free ?_
  rw [placed.whole]
  simp [wholeTag, closeBraces]

/-- A name is what is left of a body when characters are dropped. -/
theorem Layout.sublist {list? : Option (List Char)} (layout : Layout body name list?) :
    name.Sublist body := by
  cases layout with
  | bar free => exact (Text.trimWhere_sublist _ _).trans (List.sublist_append_left _ _)
  | colon free colon => exact List.nil_sublist _
  | name free plain => exact Text.trimWhere_sublist _ _

theorem name_of_withList {list? : Option (List Char)} (read : withList name list? = .ok d) :
    d.name = String.ofList name := by
  cases list? with
  | none =>
      cases read
      rfl
  | some list =>
      rw [withList] at read
      cases opts : readOptions list with
      | error fault => simp [opts, Except.map] at read
      | ok opts' =>
          rw [opts] at read
          cases read
          rfl

/-- The name of a directive is the decoded text, or part of the body of its first tag. -/
theorem name_of_ofText (read : ofText text = .ok d) :
    (firstTag? (decode text.toList) = none ∧ d = ⟨String.ofList (decode text.toList), []⟩) ∨
      ∃ body, FirstTag (decode text.toList) body ∧ d.name.toList.Sublist body := by
  cases found : firstTag? (decode text.toList) with
  | none =>
      rw [ofText, found] at read
      cases read
      exact .inl ⟨rfl, rfl⟩
  | some body =>
      have first := firstTag?_eq_some_iff.1 found
      obtain ⟨name, list?, layout⟩ := exists_layout body
      rw [ofText_of_firstTag first layout] at read
      rw [name_of_withList read, String.toList_ofList]
      exact .inr ⟨body, first, layout.sublist⟩

theorem hasTag_name (read : ofText text = .ok d) : hasTag d.name.toList = false := by
  rw [hasTag, Option.isSome_eq_false_iff, Option.isNone_iff_eq_none]
  rcases name_of_ofText read with ⟨none, rfl⟩ | ⟨body, ⟨before, after, placed, -⟩, part⟩
  · rwa [String.toList_ofList]
  · exact firstTag?_eq_none_of_not_mem fun member => placed.unclosed (part.subset member)

/-- **Reading a name again.**  The name of a directive holds no tag, and reading it gives it back
without options exactly if none of the escapes that are taken in it names a character. -/
theorem name_read_again (read : ofText text = .ok d) :
    hasTag d.name.toList = false ∧ ∃ cuts tail, Cuts IsEscape d.name.toList cuts tail ∧
      (ofText d.name = .ok ⟨d.name, []⟩ ↔ ∀ c ∈ cuts, ∀ e, ¬ Genuine c.word e) := by
  have untagged := hasTag_name read
  obtain ⟨cuts, tail, cut⟩ := Text.exists_cuts distinct_escapes d.name.toList
  refine ⟨untagged, cuts, tail, cut, ?_⟩
  rw [← decode_eq_self_iff cut]
  constructor
  · intro again
    rcases name_of_ofText again with ⟨-, same⟩ | ⟨body, ⟨before, after, placed, -⟩, part⟩
    · have named := congrArg (fun d => d.name.toList) same
      simpa using named.symm
    · -- A name that is read from a tag is shorter than the text with the tag.
      have shorter : d.name.toList.length ≤ body.length := part.length_le
      have decoded := length_decode_le d.name.toList
      rw [placed.whole] at decoded
      simp only [List.length_append, wholeTag, openBraces, List.length_cons] at decoded
      omega
  · intro same
    rw [hasTag, Option.isSome_eq_false_iff, Option.isNone_iff_eq_none] at untagged
    rw [ofText, same, untagged, String.ofList_toList]

/-- A name with an escape that names no character. -/
theorem name_read_again_net_sales :
    let text := "bar_x7B__x7B_ net_xyz_sales -|c_x7D__x7D_"
    let d : Directive := ⟨"net_xyz_sales", [("c", .switch true)]⟩
    ofText text = .ok d ∧ hasTag d.name.toList = false ∧
      ∃ cuts tail, Cuts IsEscape d.name.toList cuts tail ∧
        (ofText d.name = .ok ⟨d.name, []⟩ ↔ ∀ c ∈ cuts, ∀ e, ¬ Genuine c.word e) := by
  have read : ofText "bar_x7B__x7B_ net_xyz_sales -|c_x7D__x7D_" =
      .ok ⟨"net_xyz_sales", [("c", .switch true)]⟩ := by
    rfl
  exact ⟨read, name_read_again read⟩

/-- The escape of an underscore leaves an escape behind, which is decoded when the name is read
again. -/
theorem not_name_read_again :
    ¬ ∀ text d, ofText text = .ok d → ofText d.name = .ok ⟨d.name, []⟩ := by
  intro kept
  have read : ofText "_x5F_x41_" = .ok ⟨"_x41_", []⟩ := rfl
  have again : ofText "_x41_" = .ok ⟨"A", []⟩ := rfl
  have same := (kept _ _ read).symm.trans again
  simp at same

end Infographic.Directive
