/-
# Infographic.Proofs.ColumnNames -- naming a column reaches it

A column is named by its label in two ways, as the body of a tag and as the value of an option.
A label goes through the tag as it stands, unless part of it is an escape.  An option reads it
first: a label that is a numeral becomes a number, and is found again only where that number
prints as the label (`PrintsBack`).
-/
import Infographic.Binding.Wording
import Infographic.Proofs.DirectiveGrammar
import Infographic.Proofs.TableInStep

namespace Infographic

set_option autoImplicit false

open Number (AllDigits isDigit plain plainText readCell)

/-! ## Escapes -/

namespace Directive

variable {mark : Char}

/-- A character that stands in no escape. -/
def Breaks (c : Char) : Prop := isWordChar c = false ∧ c ≠ '_'

theorem escapeBody?_eq_none {c d : Char} (other : ¬ (c = '_' ∧ d = 'x')) (rest : List Char) :
    escapeBody? (c :: d :: rest) = none := by
  rw [escapeBody?.eq_def]
  split
  · rename_i begins
    cases begins
    exact absurd ⟨rfl, rfl⟩ other
  · rfl

theorem takeWhile_append_stop {p : Char → Bool} (stop : p mark = false) (cs more : List Char) :
    (cs ++ mark :: more).takeWhile p = cs.takeWhile p := by
  induction cs with
  | nil => simp [stop]
  | cons c cs ih => rw [List.cons_append, List.takeWhile_cons, List.takeWhile_cons, ih]

theorem dropWhile_append_stop {p : Char → Bool} (stop : p mark = false) (cs more : List Char) :
    (cs ++ mark :: more).dropWhile p = cs.dropWhile p ++ mark :: more := by
  induction cs with
  | nil => simp [stop]
  | cons c cs ih =>
      rw [List.cons_append, List.dropWhile_cons, List.dropWhile_cons, ih]
      split <;> rfl

theorem escapeBody?_append (breaks : Breaks mark) (cs more : List Char) :
    escapeBody? (cs ++ mark :: more) = escapeBody? cs := by
  obtain ⟨noWord, noLine⟩ := breaks
  have noX : mark ≠ 'x' := by
    rintro rfl
    exact absurd noWord (by decide)
  match cs with
  | [] => simp [escapeBody?, noLine]
  | [c] =>
      rw [List.cons_append, List.nil_append, escapeBody?_eq_none fun escape => noX escape.2]
      simp [escapeBody?]
  | c :: d :: rest =>
      by_cases escape : c = '_' ∧ d = 'x'
      · obtain ⟨rfl, rfl⟩ := escape
        rw [List.cons_append, List.cons_append, escapeBody?, escapeBody?,
          takeWhile_append_stop noWord, dropWhile_append_stop noWord]
        cases rest.dropWhile isWordChar with
        | nil => simp [noLine]
        | cons e behind => by_cases closing : e = '_' <;> simp [closing]
      · rw [escapeBody?_eq_none escape]
        exact escapeBody?_eq_none escape _

theorem length_escapeBody? {cs body : List Char} (found : escapeBody? cs = some body) :
    body.length + 3 ≤ cs.length := by
  rw [escapeBody?.eq_def] at found
  split at found
  · rename_i rest
    simp only at found
    split at found
    · rename_i behind closing
      have cut := List.takeWhile_append_dropWhile (p := isWordChar) (l := rest)
      have length := congrArg List.length cut
      rw [closing] at length
      split at found
      · cases found
      · cases found
        simp at length ⊢
        omega
    · cases found
  · cases found

theorem decodeFrom_append (breaks : Breaks mark) (cs more : List Char) {skip : Nat}
    (inside : skip ≤ cs.length) :
    decodeFrom skip (cs ++ mark :: more) = decodeFrom skip cs ++ mark :: decode more := by
  induction cs generalizing skip with
  | nil =>
      obtain rfl : skip = 0 := Nat.le_zero.1 inside
      have none := escapeBody?_append breaks [] more
      rw [List.nil_append] at none
      change decodeFrom 0 (mark :: more) = mark :: decode more
      rw [decodeFrom, none]
      rfl
  | cons c cs ih =>
      cases skip with
      | succ skip => exact ih (Nat.le_of_succ_le_succ inside)
      | zero =>
          have same := escapeBody?_append breaks (c :: cs) more
          rw [List.cons_append] at same ⊢
          rw [decodeFrom, decodeFrom, same]
          cases found : escapeBody? (c :: cs) with
          | none => simp [ih]
          | some body =>
              have length := length_escapeBody? found
              rw [List.length_cons] at length
              dsimp only
              rw [ih (by omega)]
              split <;> simp

/-- A text is decoded on both sides of a character that stands in no escape. -/
theorem decode_append (breaks : Breaks mark) (cs more : List Char) :
    decode (cs ++ mark :: more) = decode cs ++ mark :: decode more :=
  decodeFrom_append breaks cs more (Nat.zero_le _)

theorem decode_wholeTag (body : List Char) : decode (wholeTag body) = wholeTag (decode body) := by
  have opening : Breaks '\x7b' := ⟨by decide, by decide⟩
  have closing : Breaks '\x7d' := ⟨by decide, by decide⟩
  have whole (cs : List Char) :
      wholeTag cs = [] ++ '\x7b' :: ([] ++ '\x7b' :: (cs ++ '\x7d' :: ([] ++ '\x7d' :: []))) := by
    simp [wholeTag, openBraces, closeBraces]
  rw [whole, decode_append opening, decode_append opening, decode_append closing,
    decode_append closing, whole]
  rfl

/-! ## Labels in tags -/

/-- A text that can stand in a tag as a name, a key or a value. -/
def IsPlain (cs : List Char) : Prop :=
  ∀ c ∈ ['\x7b', '\x7d', '|', ':', ','], c ∉ cs

/-- The form `@n`, `#n` or `$n` of a reference by number. -/
def IsPositional (cs : List Char) : Prop :=
  ∃ mark ∈ ['@', '#', '$'], ∃ ds, AllDigits ds ∧ ds ≠ [] ∧ cs = mark :: ds

theorem positional?_eq_none {cs : List Char} (other : ¬ IsPositional cs) :
    positional? cs = none := by
  match cs with
  | [] => rfl
  | mark :: ds =>
      rw [positional?]
      split
      · rfl
      · rename_i number
        simp only [Bool.or_eq_true, List.isEmpty_iff, Bool.not_eq_true', decide_eq_true_eq,
          not_or, Bool.not_eq_false, List.all_eq_true] at number
        obtain ⟨⟨nonempty, digits⟩, -⟩ := number
        have unmarked : kindOfMark mark = none := by
          by_contra marked
          refine other ⟨mark, ?_, ds, digits, nonempty, rfl⟩
          rw [kindOfMark.eq_def] at marked
          split at marked <;> simp_all
        rw [unmarked, Option.map_none]

theorem firstTag_wholeTag {body : List Char} (nonempty : body ≠ []) (unclosed : '\x7d' ∉ body) :
    FirstTag (wholeTag body) body :=
  ⟨[], [], ⟨by simp, nonempty, unclosed⟩, fun _ => Nat.zero_le _⟩

theorem piecesFrom_of_length_le {skip : Nat} {cs : List Char} (short : cs.length ≤ skip) :
    piecesFrom skip cs = [] := by
  induction cs generalizing skip with
  | nil => rfl
  | cons c cs ih =>
      cases skip with
      | zero => simp at short
      | succ skip => exact ih (by simpa using short)

theorem pieces_wholeTag {body : List Char} (nonempty : body ≠ []) (unclosed : '\x7d' ∉ body) :
    pieces (wholeTag body) = [.tag body] := by
  have here : tagBody? (wholeTag body ++ []) = some body := tagBody?_wholeTag nonempty unclosed
  have whole : wholeTag body = '\x7b' :: ('\x7b' :: (body ++ closeBraces)) := by
    simp [wholeTag, openBraces]
  rw [List.append_nil, whole] at here
  rw [whole, pieces, piecesFrom, here]
  dsimp only
  rw [piecesFrom_of_length_le (by simp [closeBraces])]

end Directive

namespace Phrase

open Directive

/-- A phrase that is one tag writes what the tag writes. -/
theorem fill_wholeTag (t : Table) {body : List Char} (nonempty : body ≠ [])
    (unclosed : '\x7d' ∉ body) :
    fill t (String.ofList (wholeTag body)) = String.ofList (fillTag t (wholeTag body)) := by
  rw [fill, String.toList_ofList, replaceTags, pieces_wholeTag nonempty unclosed]
  simp

/-- A tag with a name alone shows the first cell of the column referred to. -/
theorem fillTag_name (t : Table) {body : List Char} (plain : IsPlain body) (nonempty : body ≠ [])
    (unescaped : decode body = body) {c : Column}
    (reached : t.referred? (String.ofList (Text.trim body)) = some c) :
    fillTag t (wholeTag body) = (t.display 0 (.name c.name) false).toList := by
  have first : FirstTag (decode (String.ofList (wholeTag body)).toList) body := by
    rw [String.toList_ofList, decode_wholeTag, unescaped]
    exact firstTag_wholeTag nonempty (plain _ (by simp))
  have layout : Layout body (Text.trim body) none := .name (plain _ (by simp)) (plain _ (by simp))
  rw [fillTag, ofText_of_firstTag first layout]
  dsimp only [withList]
  rw [fillDirective, reached]
  rfl

end Phrase

/-! ## Options as names -/

namespace Directive

/-- A label survives being read as an option value: it is no numeral, or the number read from
it prints as the label. -/
def PrintsBack (label : List Char) : Prop :=
  IsNumeral label →
    (jsonNumber? (plainText (readCell label))).map plainText = some (String.ofList label)

theorem toText_of_denotes {label : List Char} {value : OptionValue} (denoted : Denotes label value) :
    value.toText = String.ofList label ↔ PrintsBack label := by
  cases denoted with
  | on =>
      refine iff_of_true rfl fun numeral => ?_
      exact absurd (isNumberToken_of_isNumeral numeral) (by decide)
  | off =>
      refine iff_of_true rfl fun numeral => ?_
      exact absurd (isNumberToken_of_isNumeral numeral) (by decide)
  | number numeral read =>
      rw [PrintsBack, read, Option.map_some, Option.some_inj]
      exact ⟨fun same _ => same, fun same => same numeral⟩
  | text _ _ other => exact iff_of_true rfl fun numeral => absurd numeral other

/-- The plain text of a number is no reference by number. -/
theorem not_isPositional_plain (x : Float) : ¬ IsPositional (plain x) := by
  rintro ⟨mark, marked, ds, -, -, whole⟩
  obtain ⟨c, more, begins, known⟩ := plain_eq_cons x
  obtain rfl : c = mark := (List.cons.inj (begins.symm.trans whole)).1
  simp only [List.mem_cons, List.not_mem_nil, or_false] at marked known
  rcases marked with rfl | rfl | rfl <;> rcases known with digit | known | known | known <;>
    first | exact absurd digit (by decide) | exact absurd known (by decide)

theorem Options.find?_of_mem {opts : Options} (keyed : opts.Keyed) {key : String}
    {value : OptionValue} (member : (key, value) ∈ opts) : opts.find? key = some value := by
  rw [Options.find?, Option.map_eq_some_iff]
  cases found : List.find? (fun entry => entry.1 == key) opts with
  | none => simpa using List.find?_eq_none.1 found _ member
  | some entry =>
      have named : entry.1 = key := by simpa using List.find?_some found
      have same := List.inj_on_of_nodup_map keyed (List.mem_of_find?_eq_some found) member named
      exact ⟨entry, rfl, by rw [same]⟩

/-- The option list in a text gives a key one value at last, a token. -/
def Gives (text : String) (key token : List Char) : Prop :=
  ∃ body name list before cs after, FirstTag (decode text.toList) body ∧
    Layout body name (some list) ∧ segmentTexts list = before ++ cs :: after ∧ keyOf cs = key ∧
    (valuesOf cs).map Text.trim = [token] ∧ ∀ later ∈ after, keyOf later ≠ key

/-- The value of an option that is given a token is what the token stands for. -/
theorem find?_of_gives {text : String} {d : Directive} {key token : List Char}
    (read : ofText text = .ok d) (gives : Gives text key token) :
    ∃ value, d.options.find? (String.ofList key) = some value ∧ Denotes token value := by
  obtain ⟨body, name, list, before, cs, after, first, layout, whole, named, given, last⟩ := gives
  rw [ofText_of_firstTag first layout, withList, readOptions] at read
  cases taken : Options.ofText list with
  | error fault => simp [taken, Except.map] at read
  | ok opts =>
      obtain rfl : d = ⟨String.ofList name, opts⟩ := by simpa [taken, Except.map] using read.symm
      obtain ⟨keyed, members⟩ := mem_ofText_iff taken
      obtain ⟨segment, one, rfl⟩ := List.map_eq_singleton_iff.1 given
      -- The segment can be read, since the whole list was.
      have readable : ¬ Unreadable cs := fun unreadable => by
        have fails := ofText_fails_iff.2 ⟨cs, by rw [whole]; simp, unreadable⟩
        simp [taken] at fails
      rw [Unreadable, ← option_ofText_eq_none_iff, ← Ne, Option.ne_none_iff_exists'] at readable
      obtain ⟨value, stands⟩ := readable
      have states := option_ofText_iff.1 stands
      have member := (members (String.ofList key) value).2
        ⟨before, cs, after, whole, by rw [named, String.toList_ofList], states,
          by rwa [String.toList_ofList]⟩
      refine ⟨value, Options.find?_of_mem keyed member, ?_⟩
      cases states with
      | alone none => rw [none] at one; cases one
      | valued same denoted =>
          rw [same] at one
          cases one
          exact denoted

/-- The body of a tag with one option. -/
def oneOption (key label : List Char) : List Char :=
  key ++ ':' :: label

section OneOption

variable {key label : List Char} (plainKey : IsPlain key) (plainLabel : IsPlain label)

include plainKey plainLabel

theorem segmentTexts_oneOption : segmentTexts (oneOption key label) = [oneOption key label] := by
  have comma : ',' ∉ oneOption key label := by
    simp [oneOption, plainKey ',' (by simp), plainLabel ',' (by simp)]
  have colon : ':' ∈ Text.trim (oneOption key label) :=
    Text.mem_trimWhere (by simp [oneOption]) (by decide)
  have nonblank : (Text.trim (oneOption key label)).isEmpty = false :=
    List.isEmpty_eq_false_iff.2 (List.ne_nil_of_mem colon)
  simp [segmentTexts, Text.splitAt_of_not_mem comma, nonblank]

theorem splitAt_oneOption : Text.splitAt ':' (oneOption key label) = [key, label] := by
  rw [oneOption, Text.splitAt_append_sep (plainKey ':' (by simp)),
    Text.splitAt_of_not_mem (plainLabel ':' (by simp))]

theorem keyOf_oneOption : keyOf (oneOption key label) = Text.trim key := by
  have cut := (splitAt_colon _).symm.trans (splitAt_oneOption plainKey plainLabel)
  rw [keyOf, (List.cons.inj cut).1]

theorem valuesOf_oneOption : valuesOf (oneOption key label) = [label] := by
  rw [valuesOf, splitAt_oneOption plainKey plainLabel, List.tail_cons]

theorem firstTag_oneOption (unescapedKey : decode key = key) (unescapedLabel : decode label = label) :
    FirstTag (decode (String.ofList (wholeTag (oneOption key label))).toList)
      (oneOption key label) := by
  have colon : Breaks ':' := ⟨by decide, by decide⟩
  rw [String.toList_ofList, decode_wholeTag, oneOption, decode_append colon, unescapedKey,
    unescapedLabel]
  refine firstTag_wholeTag (by simp) ?_
  simp [plainKey '\x7d' (by simp), plainLabel '\x7d' (by simp)]

theorem layout_oneOption : Layout (oneOption key label) [] (some (oneOption key label)) :=
  .colon (by simp [oneOption, plainKey '|' (by simp), plainLabel '|' (by simp)])
    (by simp [oneOption])

/-- A tag with one option gives its key a value. -/
theorem gives_oneOption (unescapedKey : decode key = key) (unescapedLabel : decode label = label) :
    Gives (String.ofList (wholeTag (oneOption key label))) (Text.trim key) (Text.trim label) :=
  ⟨_, _, _, [], _, [], firstTag_oneOption plainKey plainLabel unescapedKey unescapedLabel,
    layout_oneOption plainKey plainLabel, segmentTexts_oneOption plainKey plainLabel,
    keyOf_oneOption plainKey plainLabel, by rw [valuesOf_oneOption plainKey plainLabel]; rfl,
    by simp⟩

/-- A tag with one option is read, if its value survives that. -/
theorem ofText_oneOption (unescapedKey : decode key = key) (unescapedLabel : decode label = label)
    (printed : PrintsBack (Text.trim label)) :
    ∃ d, ofText (String.ofList (wholeTag (oneOption key label))) = .ok d := by
  rw [ofText_of_firstTag (firstTag_oneOption plainKey plainLabel unescapedKey unescapedLabel)
    (layout_oneOption plainKey plainLabel), withList, readOptions]
  cases read : Options.ofText (oneOption key label) with
  | ok opts => exact ⟨_, rfl⟩
  | error fault =>
      obtain ⟨cs, member, unreadable⟩ := ofText_fails_iff.1 ⟨fault, read⟩
      rw [segmentTexts_oneOption plainKey plainLabel, List.mem_singleton] at member
      subst member
      rw [Unreadable, ← length_valuesOf, valuesOf_oneOption plainKey plainLabel] at unreadable
      obtain ⟨numeral, none⟩ : Numberless label := by simpa using unreadable
      simpa [none] using printed numeral

end OneOption

end Directive

/-! ## Reaching columns -/

/-- A label that a tag and an option can name: neither blank around it nor a separator in it,
and no reference by number. -/
structure IsLabel (label : String) : Prop where
  nonempty : label ≠ ""
  trimmed : Text.trimmed label = label
  plain : Directive.IsPlain label.toList
  named : ¬ Directive.IsPositional label.toList

namespace Table

open Directive

variable {t : Table} {name : String}

/-- In a table in step a column is found by its name, and no other one. -/
theorem InStep.map_column? (h : t.InStep) (member : name ∈ t.columnNames) :
    (t.column? (.name name)).map Column.name = some name := by
  obtain ⟨i, place⟩ := List.mem_iff_getElem?.1 member
  rw [column?, locate, h.index.locate_name.2 place, Option.bind_some, ← List.getElem?_map]
  exact place

theorem referred?_of_not_isPositional (named : ¬ IsPositional name.toList) :
    t.referred? name = t.column? (.name name) := by
  rw [referred?, positional?_eq_none named]

/-- An option whose value is a label reaches the column exactly when the label survives being
read. -/
theorem InStep.referred?_of_denotes (h : t.InStep) {label : String} (plain : IsLabel label)
    (member : label ∈ t.columnNames) {value : OptionValue}
    (denoted : Denotes label.toList value) :
    (t.referred? value.toText).map Column.name = some label ↔ PrintsBack label.toList := by
  rw [← toText_of_denotes denoted, String.ofList_toList]
  constructor
  · intro reached
    obtain ⟨cs, rfl⟩ : ∃ cs, label = String.ofList cs := ⟨_, String.ofList_toList.symm⟩
    rw [String.toList_ofList] at denoted
    cases denoted with
    | on => rfl
    | off => rfl
    | text => rfl
    | number numeral read =>
        rename_i x
        have named : ¬ IsPositional (plainText x).toList := by
          rw [plainText, String.toList_ofList]
          exact not_isPositional_plain x
        obtain ⟨c, found, same⟩ := Option.map_eq_some_iff.1 reached
        rw [OptionValue.toText, referred?_of_not_isPositional named] at found
        exact (h.name_of_column? found).symm.trans same
  · intro same
    rw [same, referred?_of_not_isPositional plain.named, h.map_column? member]

/-- **Naming a column reaches it.**  In a table made with distinct names and changed in any way,
take a column whose label no escape is part of.  A tag with the label shows the first cell of
the column.  An option that a text gives the label as its value is there, and reaches the column
exactly when the label survives being read as a value; a tag with such an option is read. -/
theorem named_column (rows : List (List (Option Cell))) (names : List String)
    (distinct : names.Nodup) (changes : List Change) (label : String)
    (member : label ∈ ((ofRows rows names).run changes).columnNames) (plain : IsLabel label)
    (unescaped : decode label.toList = label.toList) :
    let t := (ofRows rows names).run changes
    Phrase.fill t (String.ofList (wholeTag label.toList)) = t.display 0 (.name label) false ∧
      (∀ text key d, Gives text key label.toList → Directive.ofText text = .ok d →
        ∃ value, d.options.find? (String.ofList key) = some value ∧
          ((t.referred? value.toText).map Column.name = some label ↔
            PrintsBack label.toList)) ∧
      ∀ key, IsPlain key → decode key = key → PrintsBack label.toList →
        ∃ d value, Directive.ofText (String.ofList (wholeTag (oneOption key label.toList))) = .ok d ∧
          d.options.find? (String.ofList (Text.trim key)) = some value ∧
          (t.referred? value.toText).map Column.name = some label := by
  intro t
  have h : t.InStep := (inStep_ofRows rows distinct).run changes
  have given : ∀ text key d, Gives text key label.toList → Directive.ofText text = .ok d →
      ∃ value, d.options.find? (String.ofList key) = some value ∧
        ((t.referred? value.toText).map Column.name = some label ↔ PrintsBack label.toList) := by
    intro text key d gives read
    obtain ⟨value, found, denoted⟩ := find?_of_gives read gives
    exact ⟨value, found, h.referred?_of_denotes plain member denoted⟩
  have trimmed : Text.trim label.toList = label.toList := by
    rw [← String.toList_ofList (l := Text.trim label.toList), ← Text.trimmed, plain.trimmed]
  refine ⟨?_, given, fun key plainKey unescapedKey printed => ?_⟩
  · obtain ⟨c, found, same⟩ := Option.map_eq_some_iff.1 (h.map_column? member)
    have nonempty : label.toList ≠ [] := by simpa using plain.nonempty
    have reached : t.referred? (String.ofList (Text.trim label.toList)) = some c := by
      rw [trimmed, String.ofList_toList, referred?_of_not_isPositional plain.named, found]
    rw [Phrase.fill_wholeTag t nonempty (plain.plain _ (by simp)),
      Phrase.fillTag_name t plain.plain nonempty unescaped reached, String.ofList_toList, same]
  · rw [← trimmed] at printed
    obtain ⟨d, read⟩ := ofText_oneOption plainKey plain.plain unescapedKey unescaped printed
    have gives := gives_oneOption plainKey plain.plain unescapedKey unescaped
    rw [trimmed] at gives printed
    obtain ⟨value, found, reaches⟩ := given _ _ d gives read
    exact ⟨d, value, read, found, reaches.2 printed⟩

theorem isLabel_of_solid {label : String} (nonempty : label ≠ "")
    (trimmed : Text.trimmed label = label)
    (plain : ['\x7b', '\x7d', '|', ':', ','].all (fun c => !label.toList.contains c) = true)
    (unmarked : label.toList.head?.any (['@', '#', '$'].contains ·) = false) : IsLabel label where
  nonempty := nonempty
  trimmed := trimmed
  plain := fun c separator => by simpa using List.all_eq_true.1 plain c separator
  named := by
    rintro ⟨mark, marked, ds, -, -, whole⟩
    rw [whole, List.head?_cons, Option.any_some, List.contains_iff_mem.2 marked] at unmarked
    cases unmarked

/-- The theorem at a label with a space in it. -/
theorem named_column_net_sales :
    ["Region", "Net sales"].Nodup ∧
      let t := (ofRows [[some (.text "North"), some (.text "x")]] ["Region", "Net sales"]).run []
      Phrase.fill t "\x7b\x7bNet sales\x7d\x7d" = t.display 0 (.name "Net sales") false ∧
        t.display 0 (.name "Net sales") false = "x" ∧
        ∃ d value, Directive.ofText "\x7b\x7bfill:Net sales\x7d\x7d" = .ok d ∧
          d.options.find? "fill" = some value ∧
          (t.referred? value.toText).map Column.name = some "Net sales" := by
  have plain : IsLabel "Net sales" :=
    isLabel_of_solid (by decide) (by decide) (by decide) (by decide)
  have printed : PrintsBack "Net sales".toList := fun numeral =>
    absurd (isNumberToken_of_isNumeral numeral) (by decide)
  obtain ⟨shown, -, reached⟩ := named_column [[some (.text "North"), some (.text "x")]]
    ["Region", "Net sales"] (by decide) [] "Net sales" (by decide +kernel) plain (by decide)
  exact ⟨by decide, shown, by decide +kernel,
    reached "fill".toList (by simp [IsPlain]) (by decide) printed⟩

/-- Not every label reaches its column: a tag decodes an escape in it, and an option prints a
numeral without the zeros it begins with. -/
theorem not_named_column :
    let escaped := ofRows [[some (.text "x")]] ["_x41_"]
    let padded := ofRows [[some (.text "x")]] ["007"]
    ("_x41_" ∈ escaped.columnNames ∧ IsLabel "_x41_" ∧
      Phrase.fill escaped "\x7b\x7b_x41_\x7d\x7d" ≠ escaped.display 0 (.name "_x41_") false) ∧
    "007" ∈ padded.columnNames ∧ IsLabel "007" ∧
      (Directive.ofText "\x7b\x7bfill:007\x7d\x7d").toOption.map (fun d =>
        ((d.options.find? "fill").bind fun value => padded.referred? value.toText).isSome) =
          some false := by
  have escaped : IsLabel "_x41_" := isLabel_of_solid (by decide) (by decide) (by decide) (by decide)
  have padded : IsLabel "007" := isLabel_of_solid (by decide) (by decide) (by decide) (by decide)
  refine ⟨⟨by decide +kernel, escaped, by decide +kernel⟩, by decide +kernel, padded, ?_⟩
  decide +kernel

end Table

end Infographic
