/-
# Infographic.Proofs.DirectiveGrammar -- what a directive says, by its written form

The grammar of directives.  A segment of an option list is a key alone or a key, a colon and a
value token (`Says`); a list is refused exactly when a segment has a second colon or a numeral
that no number is read from; and the options of a list that is read are its keys, each with what
its last segment says (`mem_ofText_iff`).  The detour over the written form of the list, which is
JSON text, comes to the same (`ofText_grammar`).
-/
import Infographic.Proofs.CellNumerals
import Infographic.Proofs.FirstTag
import Infographic.Proofs.WrittenOptions

namespace Infographic.Directive

set_option autoImplicit false

open Infographic.Number (AllDigits isDigit plain plainText readCell)
open Infographic.Number.Literal (exists_readSign ne_sign_of_isDigit readSign_append)

/-! ## Numerals -/

/-- Digits behind an optional sign, with an optional point that has digits behind it. -/
inductive IsNumeral : List Char → Prop
  | whole {sign digits : List Char} (signed : sign ∈ [[], ['-'], ['+']])
      (all : AllDigits digits) (nonempty : digits ≠ []) : IsNumeral (sign ++ digits)
  | point {sign digits fraction : List Char} (signed : sign ∈ [[], ['-'], ['+']])
      (all : AllDigits digits) (behind : AllDigits fraction) (nonempty : fraction ≠ []) :
      IsNumeral (sign ++ (digits ++ '.' :: fraction))

theorem isNumberToken_of_isNumeral {cs : List Char} (numeral : IsNumeral cs) :
    isNumberToken cs = true := by
  cases numeral with
  | whole signed all nonempty =>
      rename_i digits
      have unsigned : ∀ c ∈ digits.head?, c ≠ '-' ∧ c ≠ '+' := fun c first =>
        ne_sign_of_isDigit (all c (List.mem_of_mem_head? first))
      rw [isNumberToken, readSign_append signed unsigned, List.dropWhile_eq_nil_iff.2 all]
      simpa using nonempty
  | point signed all behind nonempty =>
      rename_i digits fraction
      have unsigned : ∀ c ∈ (digits ++ '.' :: fraction).head?, c ≠ '-' ∧ c ≠ '+' := by
        cases digits with
        | nil => simp
        | cons d digits => simpa using ne_sign_of_isDigit (all d (by simp))
      have rest : (digits ++ '.' :: fraction).dropWhile isDigit = '.' :: fraction := by
        rw [List.dropWhile_append_of_pos all]
        rfl
      rw [isNumberToken, readSign_append signed unsigned, rest]
      simpa [nonempty] using fun c member => behind c member

theorem isNumeral_of_isNumberToken {cs : List Char} (token : isNumberToken cs = true) :
    IsNumeral cs := by
  obtain ⟨sign, signed, whole⟩ := exists_readSign cs
  rw [isNumberToken] at token
  generalize (Number.Literal.readSign cs).2 = unsigned at whole token
  subst whole
  have cut := List.takeWhile_append_dropWhile (p := isDigit) (l := unsigned)
  have digits : AllDigits (unsigned.takeWhile isDigit) := fun c member =>
    List.all_eq_true.1 List.all_takeWhile c member
  split at token
  · rename_i behind
    rw [behind, List.append_nil] at cut
    rw [cut] at digits
    exact .whole signed digits (by simpa using token)
  · rename_i fraction behind
    rw [behind] at cut
    rw [← cut]
    simp only [Bool.and_eq_true, Bool.not_eq_true', List.isEmpty_eq_false_iff,
      List.all_eq_true] at token
    exact .point signed digits token.2 token.1
  · cases token

/-! ## Value tokens -/

/-- The number that a JSON text is read as, if it is one in range. -/
def jsonNumber? (s : String) : Option Float :=
  match Json.read s with
  | some (.number n) => n.toFloat?
  | _ => none

/-- What a trimmed value token stands for. -/
inductive Denotes : List Char → OptionValue → Prop
  | on : Denotes "true".toList (.switch true)
  | off : Denotes "false".toList (.switch false)
  /-- A numeral stands for the number that its printed value is read as. -/
  | number {cs : List Char} {x : Float} (numeral : IsNumeral cs)
      (read : jsonNumber? (plainText (readCell cs)) = some x) : Denotes cs (.number x)
  | text {cs : List Char} (true_ : cs ≠ "true".toList) (false_ : cs ≠ "false".toList)
      (other : ¬ IsNumeral cs) : Denotes cs (.text (String.ofList cs))

theorem read_plainText (x : Float) :
    Json.read (plainText x) =
      (Json.Lexeme.read (plain x)).map fun read => .number read.1.value := by
  have alone := Json.Lexeme.read_plain x Json.Lexeme.stops_nil
  rw [List.append_nil] at alone
  obtain ⟨c, more, begins, starts⟩ := plain_starts x
  rw [Json.read, plainText, String.toList_ofList]
  rw [begins] at alone ⊢
  rw [readValue_of_startsNumber starts, alone]
  cases Json.Lexeme.read (c :: more) <;> rfl

theorem jsonNumber?_plainText (x : Float) :
    jsonNumber? (plainText x) = (Json.Lexeme.read (plain x)).bind fun read =>
      read.1.value.toFloat? := by
  rw [jsonNumber?, read_plainText]
  cases Json.Lexeme.read (plain x) <;> rfl

theorem option_number_iff {cs : List Char} {value : OptionValue} :
    (Token.number (readCell cs)).json?.bind OptionValue.ofJson? = some value ↔
      ∃ x, jsonNumber? (plainText (readCell cs)) = some x ∧ value = .number x := by
  rw [Token.json?, Option.bind_map, jsonNumber?_plainText]
  cases Json.Lexeme.read (plain (readCell cs)) with
  | none => simp
  | some read =>
      simp only [Option.bind_some, Function.comp_def, OptionValue.ofJson?, Option.map_eq_some_iff]
      exact exists_congr fun x => and_congr_right fun _ => eq_comm

theorem ofSegment_of_isNumeral {segment : List Char} (numeral : IsNumeral (Text.trim segment)) :
    Token.ofSegment segment = .number (readCell (Text.trim segment)) := by
  have token := isNumberToken_of_isNumeral numeral
  have word {w : List Char} (other : isNumberToken w = false) : Text.trim segment ≠ w := by
    rintro same
    rw [same, other] at token
    cases token
  rw [Token.ofSegment, if_neg (word (by decide)), if_neg (word (by decide)), if_pos token]

/-- A value token is taken in as what it stands for. -/
theorem option_ofSegment_iff {segment : List Char} {value : OptionValue} :
    (Token.ofSegment segment).json?.bind OptionValue.ofJson? = some value ↔
      Denotes (Text.trim segment) value := by
  constructor
  · intro taken
    rw [Token.ofSegment] at taken
    generalize Text.trim segment = cs at taken ⊢
    split at taken
    · rename_i word
      cases taken
      exact word ▸ .on
    · rename_i notTrue
      split at taken
      · rename_i word
        cases taken
        exact word ▸ .off
      · rename_i notFalse
        split at taken
        · rename_i token
          obtain ⟨x, read, rfl⟩ := option_number_iff.1 taken
          exact .number (isNumeral_of_isNumberToken token) read
        · rename_i token
          cases taken
          exact .text notTrue notFalse fun numeral => token (isNumberToken_of_isNumeral numeral)
  · intro denoted
    generalize trimmed : Text.trim segment = cs at denoted
    cases denoted with
    | on => rw [Token.ofSegment, if_pos trimmed]; rfl
    | off =>
        have other : Text.trim segment ≠ "true".toList := by rw [trimmed]; decide
        rw [Token.ofSegment, if_neg other, if_pos trimmed]
        rfl
    | number numeral read =>
        rw [ofSegment_of_isNumeral (trimmed ▸ numeral), option_number_iff, trimmed]
        exact ⟨_, read, rfl⟩
    | text notTrue notFalse other =>
        rw [← trimmed] at notTrue notFalse other
        rw [Token.ofSegment, if_neg notTrue, if_neg notFalse,
          if_neg fun token => other (isNumeral_of_isNumberToken token), trimmed]
        rfl

/-! ## Segments -/

/-- The key of a segment: what stands before its first colon. -/
def keyOf (cs : List Char) : List Char :=
  Text.trim (cs.takeWhile (· != ':'))

/-- The value tokens of a segment: what stands behind each of its colons. -/
def valuesOf (cs : List Char) : List (List Char) :=
  (Text.splitAt ':' cs).tail

/-- What a segment says about its key. -/
inductive Says (cs : List Char) : OptionValue → Prop
  /-- A key alone is switched on. -/
  | alone (none : valuesOf cs = []) : Says cs (.switch true)
  | valued {token : List Char} {value : OptionValue} (one : valuesOf cs = [token])
      (denoted : Denotes (Text.trim token) value) : Says cs value

/-- A value token that stands for nothing: a numeral that no number is read from. -/
def Numberless (token : List Char) : Prop :=
  IsNumeral (Text.trim token) ∧ jsonNumber? (plainText (readCell (Text.trim token))) = none

variable {cs : List Char}

theorem splitAt_colon (cs : List Char) :
    Text.splitAt ':' cs = cs.takeWhile (· != ':') :: valuesOf cs := by
  rw [valuesOf]
  induction cs with
  | nil => rfl
  | cons c cs ih =>
      by_cases colon : c = ':'
      · subst colon
        exact Text.splitAt_cons_sep ':' cs
      · obtain ⟨piece, pieces, tail, whole⟩ := Text.splitAt_cons colon cs
        rw [tail] at ih
        rw [whole, List.takeWhile_cons_of_pos (by simpa using colon), List.tail_cons,
          (List.cons.inj ih).1]

theorem ofText_eq (cs : List Char) : Segment.ofText cs = ⟨keyOf cs, valuesOf cs⟩ := by
  rw [Segment.ofText, splitAt_colon]
  rfl

theorem length_valuesOf (cs : List Char) : (valuesOf cs).length = cs.count ':' := by
  rw [valuesOf]
  induction cs with
  | nil => rfl
  | cons c cs ih =>
      by_cases colon : c = ':'
      · subst colon
        rw [Text.splitAt_cons_sep, List.tail_cons, List.count_cons_self, ← ih, splitAt_colon]
        rfl
      · obtain ⟨piece, pieces, tail, whole⟩ := Text.splitAt_cons colon cs
        rw [tail] at ih
        rw [whole, List.count_cons_of_ne colon, ← ih]
        rfl

/-- A segment stands for what it says. -/
theorem option_ofText_iff {value : OptionValue} :
    (Segment.ofText cs).option? = some value ↔ Says cs value := by
  rw [ofText_eq, Segment.option?, Segment.json?]
  constructor
  · intro taken
    dsimp only at taken
    split at taken
    · rename_i none
      cases taken
      exact .alone none
    · rename_i token one
      exact .valued one (option_ofSegment_iff.1 taken)
    · cases taken
  · rintro (none | ⟨one, denoted⟩)
    · simp only [none]
      rfl
    · simp only [one]
      exact option_ofSegment_iff.2 denoted

theorem numberless_iff {token : List Char} :
    (Token.ofSegment token).json?.bind OptionValue.ofJson? = none ↔ Numberless token := by
  by_cases numeral : IsNumeral (Text.trim token)
  · rw [ofSegment_of_isNumeral numeral, Numberless, and_iff_right numeral,
      Option.eq_none_iff_forall_ne_some, Option.eq_none_iff_forall_ne_some]
    refine ⟨fun none x read => none _ (option_number_iff.2 ⟨x, read, rfl⟩),
      fun none value taken => ?_⟩
    obtain ⟨x, read, -⟩ := option_number_iff.1 taken
    exact none x read
  · refine iff_of_false (fun none => ?_) fun numberless => numeral numberless.1
    -- A token that is no numeral stands for a switch or for itself.
    rw [Option.eq_none_iff_forall_ne_some] at none
    by_cases on : Text.trim token = "true".toList
    · exact none _ (option_ofSegment_iff.2 (on ▸ Denotes.on))
    · by_cases off : Text.trim token = "false".toList
      · exact none _ (option_ofSegment_iff.2 (off ▸ Denotes.off))
      · exact none _ (option_ofSegment_iff.2 (.text on off numeral))

/-- A segment stands for nothing when it has a second colon or its value stands for nothing. -/
theorem option_ofText_eq_none_iff :
    (Segment.ofText cs).option? = none ↔
      2 ≤ cs.count ':' ∨ ∃ token ∈ valuesOf cs, Numberless token := by
  rw [ofText_eq, Segment.option?, Segment.json?, ← length_valuesOf]
  dsimp only
  rcases valuesOf cs with _ | ⟨token, _ | ⟨next, more⟩⟩
  · simp [OptionValue.ofJson?]
  · simpa using numberless_iff
  · simp

/-! ## Options by key -/

/-- Each key once. -/
def Options.Keyed (opts : Options) : Prop :=
  (opts.map Prod.fst).Nodup

namespace Options

variable {opts : Options} {key name : String} {value worth : OptionValue}

theorem mem_set_iff (keyed : opts.Keyed) :
    (name, worth) ∈ opts.set key value ↔
      (name = key ∧ worth = value) ∨ (name ≠ key ∧ (name, worth) ∈ opts) := by
  induction opts with
  | nil => simp [set]
  | cons entry opts ih =>
      obtain ⟨fresh, later⟩ := List.nodup_cons.1 keyed
      have absent : (entry.1, worth) ∉ opts := fun member =>
        fresh (List.mem_map.2 ⟨_, member, rfl⟩)
      rw [set]
      split
      · rename_i same
        subst same
        obtain ⟨key, held⟩ := entry
        by_cases this : name = key
        · subst this
          simp [absent]
        · simp [this]
      · rename_i other
        rw [List.mem_cons, ih later, List.mem_cons]
        by_cases this : name = key
        · subst this
          have away : (name, worth) ≠ entry := fun same => other (congrArg Prod.fst same).symm
          simp [away]
        · simp [this]

theorem mem_keys_set : name ∈ (opts.set key value).map Prod.fst →
    name = key ∨ name ∈ opts.map Prod.fst := by
  induction opts with
  | nil => simp [set]
  | cons entry opts ih =>
      rw [set]
      split
      · intro member
        rcases List.mem_cons.1 member with rfl | member
        · exact .inl rfl
        · exact .inr (List.mem_cons_of_mem _ member)
      · intro member
        rcases List.mem_cons.1 member with rfl | member
        · exact .inr List.mem_cons_self
        · exact (ih member).imp_right (List.mem_cons_of_mem _)

theorem Keyed.set (keyed : opts.Keyed) : (opts.set key value).Keyed := by
  induction opts with
  | nil => simp [Keyed, Options.set]
  | cons entry opts ih =>
      obtain ⟨fresh, later⟩ := List.nodup_cons.1 keyed
      rw [Options.set]
      split
      · rename_i same
        subst same
        exact keyed
      · rename_i other
        refine List.nodup_cons.2 ⟨fun member => ?_, ih later⟩
        exact (mem_keys_set member).elim other fresh

end Options

/-- A segment is the last one of a list with its key. -/
def LastWith (key : String) (s : Segment) (ss : List Segment) : Prop :=
  ∃ before after, ss = before ++ s :: after ∧ String.ofList s.key = key ∧
    ∀ later ∈ after, String.ofList later.key ≠ key

theorem lastWith_cons_iff {key : String} {s first : Segment} {ss : List Segment} :
    LastWith key s (first :: ss) ↔ LastWith key s ss ∨
      (s = first ∧ String.ofList s.key = key ∧ ∀ later ∈ ss, String.ofList later.key ≠ key) := by
  constructor
  · rintro ⟨before, after, whole, named, last⟩
    cases before with
    | nil =>
        cases whole
        exact .inr ⟨rfl, named, last⟩
    | cons _ before =>
        cases whole
        exact .inl ⟨before, after, rfl, named, last⟩
  · rintro (⟨before, after, rfl, named, last⟩ | ⟨rfl, named, last⟩)
    · exact ⟨first :: before, after, rfl, named, last⟩
    · exact ⟨[], ss, rfl, named, last⟩

/-- What segments add to options: each key keeps what its last segment stands for, and keys
without a segment keep their values. -/
theorem foldlM_addSegment? {ss : List Segment} {opts out : Options} (keyed : opts.Keyed)
    (taken : ss.foldlM Options.addSegment? opts = some out) :
    out.Keyed ∧ ∀ key value, (key, value) ∈ out ↔
      (∃ s, LastWith key s ss ∧ s.option? = some value) ∨
      ((∀ s ∈ ss, String.ofList s.key ≠ key) ∧ (key, value) ∈ opts) := by
  induction ss generalizing opts with
  | nil =>
      cases taken
      refine ⟨keyed, fun key value => ?_⟩
      simp [LastWith]
  | cons s ss ih =>
      rw [List.foldlM_cons, Options.addSegment?] at taken
      cases held : s.option? with
      | none => simp [held] at taken
      | some first =>
          rw [held] at taken
          obtain ⟨unique, members⟩ := ih keyed.set taken
          refine ⟨unique, fun key value => ?_⟩
          rw [members, Options.mem_set_iff keyed, List.forall_mem_cons]
          simp only [lastWith_cons_iff, or_and_right, exists_or, or_assoc]
          refine or_congr_right ?_
          constructor
          · rintro ⟨last, ⟨rfl, rfl⟩ | ⟨other, member⟩⟩
            · exact .inl ⟨s, ⟨rfl, rfl, last⟩, held⟩
            · exact .inr ⟨⟨Ne.symm other, last⟩, member⟩
          · rintro (⟨_, ⟨rfl, named, last⟩, same⟩ | ⟨⟨other, last⟩, member⟩)
            · exact ⟨last, .inl ⟨named.symm, Option.some.inj (same.symm.trans held)⟩⟩
            · exact ⟨last, .inr ⟨Ne.symm other, member⟩⟩

/-- Segments are refused exactly when one of them stands for nothing. -/
theorem foldlM_addSegment?_eq_none_iff {ss : List Segment} {opts : Options} :
    ss.foldlM Options.addSegment? opts = none ↔ ∃ s ∈ ss, s.option? = none := by
  induction ss generalizing opts with
  | nil => simp
  | cons s ss ih =>
      rw [List.foldlM_cons, Options.addSegment?]
      simp only [List.mem_cons, exists_eq_or_imp]
      cases s.option? with
      | none => simp
      | some held =>
          simp only [reduceCtorEq, false_or]
          exact ih

/-! ## Option lists -/

/-- The segments of an option list as they are written, blank ones left out. -/
def segmentTexts (list : List Char) : List (List Char) :=
  (Text.splitAt ',' list).filter fun cs => !(Text.trim cs).isEmpty

theorem segments_eq (list : List Char) :
    segments list = (segmentTexts list).map Segment.ofText := rfl

/-- The last segment of a list with a key says something about it. -/
def LastSays (list key : List Char) (value : OptionValue) : Prop :=
  ∃ before cs after, segmentTexts list = before ++ cs :: after ∧ keyOf cs = key ∧
    Says cs value ∧ ∀ later ∈ after, keyOf later ≠ key

theorem lastSays_iff {list : List Char} {key : String} {value : OptionValue} :
    (∃ s, LastWith key s (segments list) ∧ s.option? = some value) ↔
      LastSays list key.toList value := by
  have named (cs : List Char) : String.ofList (Segment.ofText cs).key = key ↔
      keyOf cs = key.toList := by
    rw [ofText_eq]
    exact ⟨fun same => by rw [← same, String.toList_ofList], fun same => by rw [same]; simp⟩
  rw [segments_eq]
  constructor
  · rintro ⟨s, ⟨before, after, whole, same, last⟩, held⟩
    obtain ⟨before, rest, cut, rfl, behind⟩ := List.map_eq_append_iff.1 whole
    obtain ⟨cs, after, rfl, rfl, rfl⟩ := List.map_eq_cons_iff.1 behind
    refine ⟨before, cs, after, cut, (named cs).1 same, option_ofText_iff.1 held, ?_⟩
    exact fun later member => mt (named later).2 (last _ (List.mem_map_of_mem member))
  · rintro ⟨before, cs, after, cut, same, stated, last⟩
    refine ⟨Segment.ofText cs, ⟨before.map Segment.ofText, after.map Segment.ofText, ?_,
      (named cs).2 same, ?_⟩, option_ofText_iff.2 stated⟩
    · rw [cut, List.map_append, List.map_cons]
    · intro later member
      obtain ⟨text, inside, rfl⟩ := List.mem_map.1 member
      exact mt (named text).1 (last text inside)

/-- The options of a list that is read are its keys, each once, with what the last segment of
the key says. -/
theorem mem_ofText_iff {list : List Char} {opts : Options} (read : Options.ofText list = .ok opts) :
    opts.Keyed ∧ ∀ key value, (key, value) ∈ opts ↔ LastSays list key.toList value := by
  have taken : (segments list).foldlM Options.addSegment? [] = some opts := by
    rw [← toOption_readSegments (segments list) 1 [], ← Options.ofText, read]
    rfl
  have nothing : Options.Keyed [] := List.nodup_nil
  obtain ⟨keyed, members⟩ := foldlM_addSegment? nothing taken
  refine ⟨keyed, fun key value => (members key value).trans ?_⟩
  rw [← lastSays_iff]
  simp

/-- What makes a segment unreadable: a second colon, or a numeral that no number is read from. -/
def Unreadable (cs : List Char) : Prop :=
  2 ≤ cs.count ':' ∨ ∃ token ∈ valuesOf cs, Numberless token

/-- A list is refused exactly when it has an unreadable segment. -/
theorem ofText_fails_iff {list : List Char} :
    (∃ fault, Options.ofText list = .error fault) ↔ ∃ cs ∈ segmentTexts list, Unreadable cs := by
  have refused : (∃ fault, Options.ofText list = .error fault) ↔
      (Options.ofText list).toOption = none := by
    cases Options.ofText list <;> simp [Except.toOption]
  rw [refused, Options.ofText, toOption_readSegments, foldlM_addSegment?_eq_none_iff, segments_eq]
  simp only [List.mem_map, exists_exists_and_eq_and, option_ofText_eq_none_iff, Unreadable]

/-! ## Directives -/

/-- **Directive grammar.**  A text without a tag is a name.  Otherwise the body of its first tag
is laid out as a name or as a list.  The options of a list are those of the JSON object that is
read from its written form, whatever characters its keys and values have; the list is refused
exactly when it has an unreadable segment, and else gives each of its keys once, with what the
last segment of the key says. -/
theorem ofText_grammar (text : String) :
    ((∀ before body after, ¬ TagAt (decode text.toList) before body after) →
      ofText text = .ok ⟨String.ofList (decode text.toList), []⟩) ∧
    ∀ body, FirstTag (decode text.toList) body →
      (∃ name list?, Layout body name list?) ∧
      (∀ name, Layout body name none → ofText text = .ok ⟨String.ofList name, []⟩) ∧
      ∀ name list, Layout body name (some list) →
        (ofText text).toOption = ((Json.read (String.ofList (written list))).bind
          Options.ofJson?).map (Directive.mk (String.ofList name)) ∧
        ((∃ fault, ofText text = .error fault) ↔ ∃ cs ∈ segmentTexts list, Unreadable cs) ∧
        ∀ d, ofText text = .ok d → d.name = String.ofList name ∧ d.options.Keyed ∧
          ∀ key value, (key, value) ∈ d.options ↔ LastSays list key.toList value := by
  refine ⟨fun none => ?_, fun body first => ⟨exists_layout body, fun name layout =>
    ofText_of_firstTag first layout, fun name list layout => ?_⟩⟩
  · rw [ofText, firstTag?_eq_none_iff.2 none]
  · rw [ofText_of_firstTag first layout, ← ofText_fails_iff, ← toOption_ofText, withList,
      readOptions]
    cases read : Options.ofText list with
    | error cause => exact ⟨rfl, by simp [Except.map], fun d same => by cases same⟩
    | ok opts =>
        refine ⟨rfl, by simp [Except.map], fun d same => ?_⟩
        cases same
        exact ⟨rfl, mem_ofText_iff read⟩

/-- The greatest number is finite, but its printed value is refused as one out of range. -/
theorem not_ofText_grammar :
    let token := "17976931348623157".toList ++ List.replicate 292 '0'
    (readCell token).isFinite = true ∧
      (ofText (String.ofList ("\x7b\x7bk:".toList ++ token ++ "\x7d\x7d".toList))).toOption.isNone =
        true := by
  refine ⟨by decide +kernel, ?_⟩
  rw [ofText, String.toList_ofList]
  decide +kernel

end Infographic.Directive
