/-
# Infographic.Proofs.EscapedText -- what escaped text is read back as

The writer escapes the five characters with a meaning in markup, and no others.  A reader
takes the references back, but white space in attribute values becomes spaces and line breaks
in texts become line feeds: `settleValue` and `settleText` are what is read back of a value and
of a text.  Values without tabs and line breaks and texts without carriage returns come back
as they are.
-/
import Infographic.Markup.Writer
import Infographic.Proofs.ReaderSteps

namespace Infographic.Markup

set_option autoImplicit false

/-! ## Escaping -/

/-- The characters that are written as references. -/
def isEscaped (c : Char) : Bool :=
  c == '<' || c == '>' || c == '&' || c == '\'' || c == '"'

/-- How a character is written: as it is, or as a reference that stands for it. -/
inductive EscapedAs (c : Char) : List Char → Prop
  | plain (other : isEscaped c = false) : EscapedAs c [c]
  | reference (body : List Char) (special : isEscaped c = true)
      (quiet : ∀ d ∈ body, isXmlChar d = true ∧ isEscaped d = false)
      (refers : ∀ rest, readReference (body ++ rest) = some (.char c, rest)) :
      EscapedAs c ('&' :: body)

theorem escapedAs_escapeChar (c : Char) : EscapedAs c (escapeChar c) := by
  have quiet {body : List Char}
      (known : body.all (fun d => isXmlChar d && !isEscaped d) = true) (d : Char)
      (member : d ∈ body) : isXmlChar d = true ∧ isEscaped d = false := by
    simpa using List.all_eq_true.1 known d member
  rw [escapeChar]
  split
  · rename_i same; subst same
    exact .reference "lt;".toList rfl (quiet (by decide)) fun rest => rfl
  split
  · rename_i same; subst same
    exact .reference "gt;".toList rfl (quiet (by decide)) fun rest => rfl
  split
  · rename_i same; subst same
    exact .reference "amp;".toList rfl (quiet (by decide)) fun rest => rfl
  split
  · rename_i same; subst same
    exact .reference "apos;".toList rfl (quiet (by decide)) fun rest => rfl
  split
  · rename_i same; subst same
    exact .reference "quot;".toList rfl (quiet (by decide)) fun rest => rfl
  · exact .plain (by simp [isEscaped, *])

theorem special_of_mem_escape {cs : List Char} {d : Char} (member : d ∈ cs.flatMap escapeChar)
    (special : isEscaped d = true) : d = '&' := by
  obtain ⟨c, -, inside⟩ := List.mem_flatMap.1 member
  have written := escapedAs_escapeChar c
  generalize escapeChar c = cs at written inside
  cases written with
  | plain other =>
      rw [List.mem_singleton.1 inside, other] at special
      cases special
  | reference body _ quiet =>
      rcases List.mem_cons.1 inside with same | inside
      · exact same
      · rw [(quiet d inside).2] at special
        cases special

theorem legal_of_mem_escape {cs : List Char} (legal : ∀ c ∈ cs, isXmlChar c = true) :
    ∀ d ∈ cs.flatMap escapeChar, isXmlChar d = true := by
  intro d member
  obtain ⟨c, there, inside⟩ := List.mem_flatMap.1 member
  have written := escapedAs_escapeChar c
  generalize escapeChar c = cs at written inside
  cases written with
  | plain => exact List.mem_singleton.1 inside ▸ legal c there
  | reference body _ quiet =>
      rcases List.mem_cons.1 inside with rfl | inside
      · decide
      · exact (quiet d inside).1

theorem head_of_escape {cs rest : List Char} {d : Char} (plain : d ≠ '&')
    (first : cs.flatMap escapeChar = d :: rest) : ∃ more, cs = d :: more := by
  cases cs with
  | nil => cases first
  | cons c cs =>
      rw [List.flatMap_cons] at first
      have written := escapedAs_escapeChar c
      generalize escapeChar c = as at written first
      cases written with
      | plain =>
          cases first
          exact ⟨cs, rfl⟩
      | reference =>
          cases first
          exact absurd rfl plain

theorem isEmpty_escape (cs : List Char) : (cs.flatMap escapeChar).isEmpty = cs.isEmpty := by
  cases cs with
  | nil => rfl
  | cons c cs =>
      rw [List.flatMap_cons]
      have written := escapedAs_escapeChar c
      generalize escapeChar c = as at written
      cases written <;> rfl

/-! ## Attribute values -/

/-- What is read back of an attribute value: every tab and every line break is a space. -/
def settleValue : List Char → List Char
  | [] => []
  | '\r' :: '\n' :: rest => ' ' :: settleValue rest
  | c :: rest => attributeChar c :: settleValue rest

section

variable {entities : Entities} {fuel : Nat} {acc : List Char}

theorem normalizeValue_reference {c : Char} {body rest : List Char}
    (refers : readReference body = some (.char c, rest)) :
    normalizeValue entities (fuel + 1) .none acc ('&' :: body) =
      normalizeValue entities fuel .none (c :: acc) rest := by
  simp only [normalizeValue, refers, Option.bind_eq_bind, Option.bind_some]
  rfl

theorem attributeChar_of_isEscaped {c : Char} (special : isEscaped c = true) :
    attributeChar c = c := by
  rw [attributeChar, if_neg]
  rintro (rfl | rfl | rfl) <;> exact absurd special (by decide)

theorem normalizeValue_escape {cs : List Char} (enough : (cs.flatMap escapeChar).length < fuel) :
    normalizeValue entities fuel .none acc (cs.flatMap escapeChar) =
      some (.none, (settleValue cs).reverse ++ acc) := by
  fun_induction settleValue cs generalizing fuel acc with
  | case1 =>
      obtain ⟨fuel, rfl⟩ := Nat.exists_eq_add_of_lt enough
      rfl
  | case2 rest ih =>
      have both : ('\r' :: '\n' :: rest).flatMap escapeChar =
          '\r' :: '\n' :: rest.flatMap escapeChar := rfl
      rw [both] at enough ⊢
      simp only [List.length_cons] at enough
      obtain ⟨fuel, rfl⟩ : ∃ n, fuel = n + 2 := ⟨fuel - 2, by omega⟩
      have step : normalizeValue entities (fuel + 2) .none acc
          ('\r' :: '\n' :: rest.flatMap escapeChar) =
          normalizeValue entities fuel .none (' ' :: acc) (rest.flatMap escapeChar) :=
        normalizeValue_cons (c := '\n') (by decide) (by simp)
      rw [step, ih (by omega), List.reverse_cons, List.append_assoc]
      rfl
  | case3 c rest other ih =>
      obtain ⟨fuel, rfl⟩ : ∃ n, fuel = n + 1 := ⟨fuel - 1, by omega⟩
      rw [List.reverse_cons, List.append_assoc, List.singleton_append]
      rw [List.flatMap_cons] at enough ⊢
      have written := escapedAs_escapeChar c
      generalize escapeChar c = as at written enough
      cases written with
      | plain quiet =>
          have amp : c ≠ '&' := by
            rintro rfl
            cases quiet
          rw [List.singleton_append, normalizeValue_cons amp]
          · exact ih (by simpa using enough)
          · rintro rfl more begins
            obtain ⟨more, rfl⟩ := head_of_escape (by decide) begins
            exact other _ rfl rfl
      | reference body special _ refers =>
          rw [attributeChar_of_isEscaped special, List.cons_append,
            normalizeValue_reference (refers _)]
          refine ih ?_
          simp only [List.length_append, List.length_cons] at enough
          omega

end

/-- A value without tabs and line breaks comes back as it is. -/
theorem settleValue_eq_self {cs : List Char} (plain : ∀ c ∈ cs, attributeChar c = c) :
    settleValue cs = cs := by
  fun_induction settleValue cs with
  | case1 => rfl
  | case2 rest ih => exact absurd (plain '\r' List.mem_cons_self) (by decide)
  | case3 c rest other ih =>
      rw [plain c List.mem_cons_self, ih fun d member => plain d (List.mem_cons_of_mem c member)]

/-! ## Texts -/

/-- What is read back of a text, backwards and onto what was read of it before: a line break in
any form is a line feed, except beside a character that is written as a reference. -/
def settleOnto : List Char → Bool → List Char → List Char
  | acc, _, [] => acc
  | acc, asIs, c :: rest =>
      if isEscaped c then settleOnto (c :: acc) true rest
      else settleOnto (if asIs then c :: acc else pushText acc c rest.isEmpty) false rest

/-- What is read back of a text. -/
def settleText (cs : List Char) : List Char :=
  (settleOnto [] false cs).reverse

theorem readText_escape {fuel : Nat} {st : State} {acc cs : List Char} {asIs : Bool}
    (flat : st.nesting.depth = 0) (enough : (cs.flatMap escapeChar).length < fuel) :
    readText fuel st acc asIs (cs.flatMap escapeChar) =
      some (st.flush (settleOnto acc asIs cs)) := by
  induction cs generalizing fuel acc asIs with
  | nil =>
      obtain ⟨fuel, rfl⟩ := Nat.exists_eq_add_of_lt enough
      exact readText_iff.2 .done
  | cons c rest ih =>
      obtain ⟨fuel, rfl⟩ : ∃ n, fuel = n + 1 := ⟨fuel - 1, by omega⟩
      rw [settleOnto]
      rw [List.flatMap_cons] at enough ⊢
      have written := escapedAs_escapeChar c
      generalize escapeChar c = as at written enough
      refine readText_iff.2 ?_
      cases written with
      | plain quiet =>
          have amp : c ≠ '&' := by
            rintro rfl
            cases quiet
          rw [if_neg (by simp [quiet]), List.singleton_append, ← isEmpty_escape]
          exact .char amp (ih (by simpa using enough))
      | reference body special _ refers =>
          rw [if_pos special, List.cons_append]
          refine .outer (refers _) (by omega) (ih ?_)
          simp only [List.length_append, List.length_cons] at enough
          omega

theorem pushText_ne_nil (acc : List Char) (c : Char) (last : Bool) : pushText acc c last ≠ [] := by
  rw [pushText.eq_def]
  split <;> split <;> (try split) <;> simp

theorem settleOnto_ne_nil {acc cs : List Char} {asIs : Bool} (some : acc ≠ [] ∨ cs ≠ []) :
    settleOnto acc asIs cs ≠ [] := by
  induction cs generalizing acc asIs with
  | nil => exact some.resolve_right (by simp)
  | cons c rest ih =>
      rw [settleOnto]
      split
      · exact ih (.inl (by simp))
      · refine ih (.inl ?_)
        split
        · simp
        · exact pushText_ne_nil _ _ _

/-- A text without carriage returns comes back as it is. -/
theorem settleText_eq_self {cs : List Char} (plain : '\r' ∉ cs) : settleText cs = cs := by
  have onto (acc : List Char) (asIs : Bool) (before : '\r' ∉ acc) :
      settleOnto acc asIs cs = cs.reverse ++ acc := by
    induction cs generalizing acc asIs with
    | nil => rfl
    | cons c rest ih =>
        rw [List.mem_cons, not_or] at plain
        have push : pushText acc c rest.isEmpty = c :: acc := by
          rw [pushText.eq_def]
          split
          · exact absurd List.mem_cons_self before
          · rw [if_neg (by simpa using fun _ => Ne.symm plain.1)]
        have after : '\r' ∉ c :: acc := by
          rw [List.mem_cons, not_or]
          exact ⟨plain.1, before⟩
        rw [settleOnto, push, ite_self, ih plain.2 _ _ after, ih plain.2 _ _ after, ite_self,
          List.reverse_cons, List.append_assoc]
        rfl
  rw [settleText, onto [] false (by simp), List.append_nil, List.reverse_reverse]

end Infographic.Markup
