/-
# Infographic.Proofs.WrittenOptions -- option lists and their written form

The written form of an option list is a JSON object: a field for every segment that is not
blank, with its key in quotes and its value tokens behind colons.  Reading a list and reading
its written form come to the same (`toOption_ofText`), so no key and no value breaks out of
its quotes, and a list is refused exactly where its written form is.
-/
import Infographic.Directive.OptionList
import Infographic.Json.Value
import Infographic.Proofs.FloatFields
import Infographic.Proofs.PlainNumbers
import Infographic.Proofs.QuotedText

namespace Infographic.Directive

set_option autoImplicit false

open Infographic.Number (plain)
open Infographic.Json (Value readValue readFields)

/-! ## The written form -/

/-- The written form of a segment: its key and, each behind a colon, its value tokens.  A key
without value is switched on. -/
def Segment.written (s : Segment) : List Char :=
  Json.quote s.key ++
    match s.values with
    | [] => ":true".toList
    | values => values.flatMap fun v => ':' :: (Token.ofSegment v).written

/-- The fields of a JSON object around written segments, up to its closing brace. -/
def writtenFields (ss : List Segment) : List Char :=
  Text.join [','] (ss.map Segment.written) ++ ['\x7d']

/-- The written form of an option list. -/
def written (list : List Char) : List Char :=
  '\x7b' :: writtenFields (segments list)

/-! ## Options of a JSON object -/

/-- The option value a JSON value stands for: a truth value, a number in range, a text. -/
def OptionValue.ofJson? : Value → Option OptionValue
  | .bool on => some (.switch on)
  | .number n => n.toFloat?.map .number
  | .text s => s.map .text
  | _ => none

/-- Take in the field of a JSON object; a later field takes the place of an earlier one. -/
def Options.addField? (opts : Options) (field : Option String × Value) : Option Options := do
  return opts.set (← field.1) (← OptionValue.ofJson? field.2)

/-- The options of a JSON object. -/
def Options.ofJson? : Value → Option Options
  | .object fields => fields.foldlM addField? []
  | _ => none

/-! ## Tokens -/

/-- What the written form of a token is read as. -/
def Token.json? : Token → Option Value
  | .switch on => some (.bool on)
  | .number x => (Json.Lexeme.read (plain x)).map fun l => .number l.1.value
  | .text cs => some (.text (some (String.ofList cs)))

/-- What stands behind a token in a written form. -/
def Follows (rest : List Char) : Prop :=
  ∃ c more, rest = c :: more ∧ (c = ',' ∨ c = ':' ∨ c = '\x7d')

variable {rest : List Char}

theorem Follows.stops (follows : Follows rest) : Json.Lexeme.Stops rest := by
  obtain ⟨c, more, rfl, known⟩ := follows
  rintro d ⟨⟩
  rcases known with rfl | rfl | rfl <;> decide

theorem skipSpaces_of_solid {c : Char} {more : List Char} (solid : Json.isSpace c = false) :
    Json.skipSpaces (c :: more) = c :: more := by
  rw [Json.skipSpaces, List.dropWhile_cons_of_neg (by simp [solid])]

theorem Follows.skipSpaces (follows : Follows rest) : Json.skipSpaces rest = rest := by
  obtain ⟨c, more, rfl, known⟩ := follows
  exact skipSpaces_of_solid (by rcases known with rfl | rfl | rfl <;> decide)

/-- A character that begins no JSON value but a number. -/
def StartsNumber (c : Char) : Prop :=
  Json.isSpace c = false ∧ c ∉ ['"', '[', '\x7b', 't', 'f', 'n']

theorem startsNumber_of_isDigit {c : Char} (digit : Number.isDigit c = true) : StartsNumber c := by
  have other {d : Char} (no : Number.isDigit d = false) : c ≠ d := by
    rintro rfl
    exact absurd digit (by simp [no])
  refine ⟨?_, ?_⟩
  · simp only [Json.isSpace, Bool.or_eq_false_iff, beq_eq_false_iff_ne]
    exact ⟨⟨⟨other (by decide), other (by decide)⟩, other (by decide)⟩, other (by decide)⟩
  · simp only [List.mem_cons, List.not_mem_nil, or_false, not_or]
    exact ⟨other (by decide), other (by decide), other (by decide), other (by decide),
      other (by decide), other (by decide)⟩

/-- The plain text of a number begins with a digit, a minus or the letter of a word. -/
theorem plain_eq_cons (x : Float) : ∃ c more, plain x = c :: more ∧
    (Number.isDigit c = true ∨ c ∈ ['-', 'N', 'I']) := by
  rw [plain]
  split
  · exact ⟨'N', "aN".toList, rfl, .inr (by simp)⟩
  · split
    · exact ⟨'-', "Infinity".toList, rfl, .inr (by simp)⟩
    · exact ⟨'I', "nfinity".toList, rfl, .inr (by simp)⟩
  · rename_i d _
    obtain ⟨n, proper, written⟩ := Number.plain_eq_text d
    rw [written, Number.Decimal.text]
    split
    · exact ⟨'-', n.magnitude, rfl, .inr (by simp)⟩
    · obtain ⟨c, more, whole⟩ := List.exists_cons_of_ne_nil proper.whole.nonempty
      rw [Number.Decimal.magnitude, whole]
      exact ⟨c, _, rfl, .inl (proper.whole.digits c (by simp [whole]))⟩

/-- The plain text of a number begins like no other JSON value. -/
theorem plain_starts (x : Float) : ∃ c more, plain x = c :: more ∧ StartsNumber c := by
  obtain ⟨c, more, begins, digit | other⟩ := plain_eq_cons x
  · exact ⟨c, more, begins, startsNumber_of_isDigit digit⟩
  · simp only [List.mem_cons, List.not_mem_nil, or_false] at other
    refine ⟨c, more, begins, ?_⟩
    rcases other with rfl | rfl | rfl <;> simp [StartsNumber, Json.isSpace]

theorem readValue_of_startsNumber {c : Char} {more : List Char} (starts : StartsNumber c)
    (fuel : Nat) :
    readValue (fuel + 1) (c :: more) =
      (Json.Lexeme.read (c :: more)).map fun read => (.number read.1.value, read.2) := by
  obtain ⟨solid, other⟩ := starts
  simp only [List.mem_cons, List.not_mem_nil, or_false, not_or] at other
  obtain ⟨quote, bracket, brace, t, f, n⟩ := other
  rw [readValue, skipSpaces_of_solid solid]
  split <;> first | rfl | (rename_i h; cases h <;> contradiction)

theorem readValue_token (token : Token) (follows : Follows rest) (fuel : Nat) :
    readValue (fuel + 1) (token.written ++ rest) = token.json?.map fun v => (v, rest) := by
  cases token with
  | switch on => cases on <;> rfl
  | number x =>
      obtain ⟨c, more, begins, starts⟩ := plain_starts x
      have read := Json.Lexeme.read_plain x follows.stops
      rw [Token.written, begins, List.cons_append, readValue_of_startsNumber starts,
        ← List.cons_append, ← begins, read, Token.json?, Option.map_map, Option.map_map]
      rfl
  | text cs =>
      rw [Token.written, Json.quote_append, readValue, skipSpaces_of_solid (by decide)]
      change (Json.readText _).map _ = _
      rw [Json.readText_quoted]
      rfl

/-! ## Segments -/

/-- What the written form of a segment's value is read as; a second value is refused. -/
def Segment.json? (s : Segment) : Option Value :=
  match s.values with
  | [] => some (.bool true)
  | [v] => (Token.ofSegment v).json?
  | _ => none

/-- The fields that the written forms of segments are read as. -/
def fields? (ss : List Segment) : Option (List (Option String × Value)) :=
  ss.mapM fun s => s.json?.map fun v => (some (String.ofList s.key), v)

/-- Go on behind the value of a field. -/
def finishField (fuel : Nat) (key : Option String) (v : Value) (rest : List Char) :
    Option (List (Option String × Value) × List Char) :=
  match Json.skipSpaces rest with
  | '\x7d' :: rest => some ([(key, v)], rest)
  | ',' :: rest => (readFields fuel rest).map fun (fs, rest) => ((key, v) :: fs, rest)
  | _ => none

theorem finishField_last (fuel : Nat) (key : Option String) (v : Value) (rest : List Char) :
    finishField fuel key v ('\x7d' :: rest) = some ([(key, v)], rest) := rfl

theorem finishField_next (fuel : Nat) (key : Option String) (v : Value) (rest : List Char) :
    finishField fuel key v (',' :: rest) =
      (readFields fuel rest).map fun (fs, rest) => ((key, v) :: fs, rest) := rfl

theorem finishField_colon (fuel : Nat) (key : Option String) (v : Value) (rest : List Char) :
    finishField fuel key v (':' :: rest) = none := rfl

theorem readFields_quote (fuel : Nat) (key cs : List Char) :
    readFields (fuel + 1) (Json.quote key ++ ':' :: cs) =
      (readValue fuel cs).bind fun read =>
        finishField fuel (some (String.ofList key)) read.1 read.2 := by
  rw [Json.quote_append, readFields, skipSpaces_of_solid (by decide)]
  change (Json.readText _).bind _ = _
  rw [Json.readText_quoted, Option.bind_some]
  dsimp only
  rw [skipSpaces_of_solid (by decide)]
  rfl

theorem follows_cons {c : Char} (known : c = ',' ∨ c = ':' ∨ c = '\x7d') (more : List Char) :
    Follows (c :: more) := ⟨c, more, rfl, known⟩

/-- A segment is read as its value, and a segment with a second value is refused. -/
theorem readFields_segment (s : Segment) (follows : Follows rest) (fuel : Nat) :
    readFields (fuel + 2) (s.written ++ rest) =
      s.json?.bind fun v => finishField (fuel + 1) (some (String.ofList s.key)) v rest := by
  obtain ⟨key, values⟩ := s
  match values with
  | [] =>
      have switch := readValue_token (.switch true) follows fuel
      have written : (Segment.mk key []).written ++ rest =
          Json.quote key ++ ':' :: ((Token.switch true).written ++ rest) := by
        simp [Segment.written, Token.written]
      rw [written, readFields_quote, switch]
      rfl
  | [v] =>
      have written : (Segment.mk key [v]).written ++ rest =
          Json.quote key ++ ':' :: ((Token.ofSegment v).written ++ rest) := by
        simp [Segment.written]
      rw [written, readFields_quote, readValue_token _ follows, Option.bind_map]
      rfl
  | v :: w :: more =>
      have written : (Segment.mk key (v :: w :: more)).written ++ rest =
          Json.quote key ++ ':' :: ((Token.ofSegment v).written ++ ':' ::
            ((Token.ofSegment w).written ++
              ((more.flatMap fun v => ':' :: (Token.ofSegment v).written) ++ rest))) := by
        simp [Segment.written]
      rw [written, readFields_quote, readValue_token _ (follows_cons (.inr (.inl rfl)) _),
        Option.bind_map]
      simp only [Function.comp_def, finishField_colon, Option.bind_fun_none]
      rfl

theorem fields?_cons (s : Segment) (ss : List Segment) :
    fields? (s :: ss) = s.json?.bind fun v =>
      (fields? ss).map fun fs => (some (String.ofList s.key), v) :: fs := by
  rw [fields?, List.mapM_cons, ← fields?]
  cases s.json? with
  | none => rfl
  | some v => cases fields? ss <;> rfl

theorem readFields_written (ss : List Segment) (nonempty : ss ≠ []) (fuel : Nat)
    (enough : ss.length < fuel) :
    readFields fuel (writtenFields ss) = (fields? ss).map fun fs => (fs, []) := by
  induction ss generalizing fuel with
  | nil => exact absurd rfl nonempty
  | cons s ss ih =>
      obtain ⟨fuel, rfl⟩ : ∃ n, fuel = n + 2 := ⟨fuel - 2, by simp at enough; omega⟩
      cases ss with
      | nil =>
          have written : writtenFields [s] = s.written ++ ['\x7d'] := rfl
          rw [written, readFields_segment s (follows_cons (.inr (.inr rfl)) _), fields?_cons]
          simp only [finishField_last]
          cases s.json? <;> rfl
      | cons next more =>
          have written : writtenFields (s :: next :: more) =
              s.written ++ ',' :: writtenFields (next :: more) := by
            simp [writtenFields, Text.join]
          have later := ih (by simp) (fuel + 1) (by simp at enough ⊢; omega)
          rw [written, readFields_segment s (follows_cons (.inl rfl) _), fields?_cons]
          simp only [finishField_next, later, Option.map_bind, Option.map_map, Function.comp_def]

theorem length_lt_writtenFields (ss : List Segment) : ss.length < (writtenFields ss).length := by
  induction ss with
  | nil => simp [writtenFields, Text.join]
  | cons s ss ih =>
      have key : 0 < s.written.length := by simp [Segment.written, Json.quote]
      cases ss with
      | nil => simp [writtenFields, Text.join]; omega
      | cons next more =>
          simp only [writtenFields, List.map_cons, Text.join, List.length_append,
            List.length_cons, List.length_nil] at ih ⊢
          omega

theorem readValue_fields (fuel : Nat) (cs : List Char) :
    readValue (fuel + 1) ('\x7b' :: '"' :: cs) =
      (readFields fuel ('"' :: cs)).map fun read => (.object read.1, read.2) := rfl

/-- The written form of a list is read as an object with a field for every segment. -/
theorem read_written (list : List Char) :
    Json.read (String.ofList (written list)) = (fields? (segments list)).map Value.object := by
  rw [Json.read, String.toList_ofList, written]
  generalize segments list = ss
  cases ss with
  | nil => rfl
  | cons s ss =>
      have fields := readFields_written (s :: ss) (by simp) _
        (Nat.lt_succ_of_lt (length_lt_writtenFields (s :: ss)))
      obtain ⟨more, quoted⟩ : ∃ more, writtenFields (s :: ss) = '"' :: more := by
        cases ss <;> exact ⟨_, rfl⟩
      rw [quoted] at fields ⊢
      rw [readValue_fields, List.length_cons, fields]
      cases fields? (s :: ss) <;> rfl

/-! ## Reading a list -/

/-- A value token is taken in exactly where its written form is read as a value in range. -/
theorem toOption_ofToken (offset : Nat) (token : Token) :
    (OptionValue.ofToken offset token).toOption = token.json?.bind OptionValue.ofJson? := by
  cases token with
  | switch on => rfl
  | text cs => rfl
  | number x =>
      rw [OptionValue.ofToken, Token.json?, Option.bind_map]
      split
      · rename_i infinite
        obtain ⟨negative, decoded⟩ := Number.isInf_iff.1 infinite
        have unread : Json.Lexeme.read (plain x) = none := by
          rw [plain, decoded]
          cases negative <;> rfl
        rw [unread]
        rfl
      · cases Json.Lexeme.read (plain x) with
        | none => rfl
        | some l =>
            simp only [Option.bind_some, Function.comp_def, OptionValue.ofJson?]
            cases l.1.value.toFloat? <;> rfl

/-- The option a segment stands for, if it has one. -/
def Segment.option? (s : Segment) : Option OptionValue :=
  s.json?.bind OptionValue.ofJson?

theorem toOption_read (offset : Nat) (s : Segment) :
    (s.read offset).toOption.map Prod.fst = s.option? := by
  obtain ⟨key, values⟩ := s
  match values with
  | [] => rfl
  | [v] =>
      have token := toOption_ofToken (offset + (Json.byteWidth (Json.quote key) + 1))
        (Token.ofSegment v)
      rw [Segment.option?, Segment.json?]
      dsimp only
      rw [← token, Segment.read]
      dsimp only
      cases OptionValue.ofToken _ (Token.ofSegment v) <;> rfl
  | v :: w :: more =>
      rw [Segment.option?, Segment.json?, Segment.read]
      dsimp only
      cases OptionValue.ofToken _ (Token.ofSegment v) <;> rfl

/-- Take in the option of a segment. -/
def Options.addSegment? (opts : Options) (s : Segment) : Option Options :=
  s.option?.map (opts.set (String.ofList s.key))

/-- The places of faults apart, a list is read segment by segment. -/
theorem toOption_readSegments (ss : List Segment) (offset : Nat) (opts : Options) :
    (readSegments offset ss opts).toOption = ss.foldlM Options.addSegment? opts := by
  induction ss generalizing offset opts with
  | nil => rfl
  | cons s ss ih =>
      have option := toOption_read offset s
      rw [readSegments, List.foldlM_cons, Options.addSegment?, ← option]
      cases read : s.read offset with
      | error fault => rfl
      | ok found => exact ih _ _

theorem foldlM_fields? (ss : List Segment) (opts : Options) :
    ss.foldlM Options.addSegment? opts =
      (fields? ss).bind fun fs => fs.foldlM Options.addField? opts := by
  induction ss generalizing opts with
  | nil => rfl
  | cons s ss ih =>
      rw [List.foldlM_cons, fields?_cons, Options.addSegment?, Segment.option?]
      cases s.json? with
      | none => rfl
      | some v =>
          rw [Option.bind_some, Option.bind_some, Option.bind_map]
          simp only [Function.comp_def, List.foldlM_cons, Options.addField?]
          cases OptionValue.ofJson? v with
          | none => simp
          | some value => exact ih _

/-- A list is read as its written form is. -/
theorem toOption_ofText (list : List Char) :
    (Options.ofText list).toOption =
      (Json.read (String.ofList (written list))).bind Options.ofJson? := by
  rw [Options.ofText, toOption_readSegments, foldlM_fields?, read_written, Option.bind_map]
  rfl

end Infographic.Directive
