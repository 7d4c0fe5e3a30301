/-
# Infographic.Proofs.LeftmostCuts -- a text cut at the words of a kind

A search for words of a kind takes the leftmost word, goes on right behind it and never looks
back.  `Cuts` says which words that are: each with the gap in front of it, where no word begins
further left, and behind the last one a tail without a word.  Words that can be told apart
(`Distinct`) cut every text in exactly one way (`exists_cuts`, `Cuts.unique`).  A word that stands
in the text is taken exactly if it begins inside no word that is taken (`Cuts.taken_iff`), and the
texts in front of it and behind it are cut by themselves (`Cuts.around`).
-/
import Mathlib.Data.List.Basic
import Mathlib.Data.Nat.Find

namespace Infographic.Text

set_option autoImplicit false

/-- No word is empty, and at most one word begins at each place of a text. -/
structure Distinct (IsWord : List Char → Prop) : Prop where
  nonempty : ∀ {w : List Char}, IsWord w → w ≠ []
  unique : ∀ {v w rest more : List Char}, IsWord v → IsWord w → v ++ rest = w ++ more → v = w

/-- A word that is taken, and the gap between it and what was taken before. -/
structure Cut where
  gap : List Char
  word : List Char

def Cut.text (c : Cut) : List Char :=
  c.gap ++ c.word

/-- No word begins in the gap at the start of a text. -/
def Clear (IsWord : List Char → Prop) (gap cs : List Char) : Prop :=
  ∀ before v more, IsWord v → cs = before ++ (v ++ more) → gap.length ≤ before.length

/-- A text is cut at the leftmost words that do not overlap. -/
inductive Cuts (IsWord : List Char → Prop) : List Char → List Cut → List Char → Prop
  /-- There is no word left. -/
  | last {tail : List Char} (free : ∀ w, IsWord w → ¬ w <:+: tail) : Cuts IsWord tail [] tail
  /-- No word begins further left than the one behind the gap, and the search goes on behind it. -/
  | next {cs gap w after tail : List Char} {cuts : List Cut} (word : IsWord w)
      (whole : cs = gap ++ (w ++ after)) (first : Clear IsWord gap cs)
      (later : Cuts IsWord after cuts tail) : Cuts IsWord cs (⟨gap, w⟩ :: cuts) tail

/-- What becomes of a text when something is put in the place of each word. -/
def refill : List Cut → List (List Char) → List Char → List Char
  | c :: cuts, out :: outs, tail => c.gap ++ (out ++ refill cuts outs tail)
  | _, _, tail => tail

/-- The word behind `before` is one of those that are taken. -/
def Taken (cuts : List Cut) (before w : List Char) : Prop :=
  ∃ front gap later, cuts = front ++ ⟨gap, w⟩ :: later ∧ before = front.flatMap Cut.text ++ gap

variable {IsWord : List Char → Prop} {cs gap tail before after v w : List Char} {cuts : List Cut}

/-! ## Gaps -/

theorem Clear.of_cons {c : Char} (clear : Clear IsWord (c :: gap) (c :: cs)) :
    Clear IsWord gap cs := by
  intro before v more word whole
  have shifted := clear (c :: before) v more word (by rw [whole, List.cons_append])
  simpa using shifted

/-- Where a gap is no word begins. -/
theorem Clear.ne_append {c : Char} (clear : Clear IsWord (c :: gap) cs) (word : IsWord v) :
    cs ≠ v ++ after := fun whole => by
  simpa using clear [] v after word whole

/-- A text without a word is a gap. -/
theorem clear_of_free (free : ∀ w, IsWord w → ¬ w <:+: cs) : Clear IsWord cs cs :=
  fun before v more word whole =>
    absurd ⟨before, more, by rw [whole, List.append_assoc]⟩ (free v word)

/-! ## Every text is cut in one way -/

theorem not_infix_of_forall (free : ∀ before v more, IsWord v → cs ≠ before ++ (v ++ more)) :
    ∀ w, IsWord w → ¬ w <:+: cs := by
  rintro w word ⟨before, more, whole⟩
  exact free before w more word (by rw [← whole, List.append_assoc])

theorem infix_of_whole (whole : cs = before ++ (w ++ after)) : w <:+: cs :=
  ⟨before, after, by rw [whole, List.append_assoc]⟩

theorem exists_cuts (words : Distinct IsWord) (cs : List Char) :
    ∃ cuts tail, Cuts IsWord cs cuts tail := by
  induction length : cs.length using Nat.strongRecOn generalizing cs with
  | ind n ih =>
      by_cases free : ∀ before v more, IsWord v → cs ≠ before ++ (v ++ more)
      · exact ⟨[], cs, .last (not_infix_of_forall free)⟩
      · -- The leftmost word is one with the shortest text in front of it.
        have somewhere : ∃ n before v more, before.length = n ∧ IsWord v ∧
            cs = before ++ (v ++ more) := by
          simp only [not_forall, not_not] at free
          obtain ⟨before, v, more, word, whole⟩ := free
          exact ⟨_, before, v, more, rfl, word, whole⟩
        classical
        obtain ⟨gap, w, after, place, word, whole⟩ := Nat.find_spec somewhere
        have shorter : after.length < n := by
          have nonempty := List.length_pos_iff.2 (words.nonempty word)
          rw [← length, whole, List.length_append, List.length_append]
          omega
        obtain ⟨cuts, tail, later⟩ := ih _ shorter after rfl
        refine ⟨⟨gap, w⟩ :: cuts, tail, .next word whole (fun before v more other here => ?_) later⟩
        rw [place]
        exact Nat.find_min' somewhere ⟨before, v, more, rfl, other, here⟩

theorem Cuts.unique (words : Distinct IsWord) (cut : Cuts IsWord cs cuts tail)
    {others : List Cut} {rest : List Char} (other : Cuts IsWord cs others rest) :
    others = cuts ∧ rest = tail := by
  induction cut generalizing others rest with
  | last free =>
      cases other with
      | last => exact ⟨rfl, rfl⟩
      | next word whole => exact absurd (infix_of_whole whole) (free _ word)
  | @next cs gap w after _ _ word whole first later ih =>
      cases other with
      | last free => exact absurd (infix_of_whole whole) (free w word)
      | @next _ gap' w' after' _ _ word' whole' first' later' =>
          have place : gap'.length = gap.length :=
            Nat.le_antisymm (first' gap w after word whole) (first gap' w' after' word' whole')
          obtain ⟨rfl, behind⟩ := List.append_inj (whole'.symm.trans whole) place
          obtain rfl := words.unique word' word behind
          obtain rfl := List.append_cancel_left behind
          obtain ⟨rfl, rfl⟩ := ih later'
          exact ⟨rfl, rfl⟩

/-- Gaps and words in order make up the text. -/
theorem Cuts.concat (cut : Cuts IsWord cs cuts tail) : cs = cuts.flatMap Cut.text ++ tail := by
  induction cut with
  | last free => rfl
  | next word whole first later ih =>
      rw [whole, List.flatMap_cons, Cut.text, List.append_assoc, List.append_assoc, ← ih]

theorem Cuts.words (cut : Cuts IsWord cs cuts tail) : ∀ c ∈ cuts, IsWord c.word := by
  induction cut with
  | last free => simp
  | next word whole first later ih => exact List.forall_mem_cons.2 ⟨word, ih⟩

/-- Something is taken exactly if there is a word. -/
theorem Cuts.ne_nil_iff (cut : Cuts IsWord cs cuts tail) :
    cuts ≠ [] ↔ ∃ w, IsWord w ∧ w <:+: cs := by
  cases cut with
  | last free => simpa using free
  | next word whole => exact iff_of_true (List.cons_ne_nil _ _) ⟨_, word, infix_of_whole whole⟩

/-! ## Words that are taken -/

theorem taken_cons_iff :
    Taken (⟨gap, w⟩ :: cuts) before v ↔
      (before = gap ∧ v = w) ∨ ∃ more, before = gap ++ (w ++ more) ∧ Taken cuts more v := by
  constructor
  · rintro ⟨_ | ⟨c, front⟩, gap', later, same, rfl⟩
    · cases same
      exact .inl ⟨rfl, rfl⟩
    · cases same
      refine .inr ⟨_, ?_, front, gap', later, rfl, rfl⟩
      rw [List.flatMap_cons, Cut.text]
      simp
  · rintro (⟨rfl, rfl⟩ | ⟨more, rfl, front, gap', later, rfl, rfl⟩)
    · exact ⟨[], _, cuts, rfl, rfl⟩
    · refine ⟨⟨gap, w⟩ :: front, gap', later, rfl, ?_⟩
      rw [List.flatMap_cons, Cut.text]
      simp

theorem le_of_taken (taken : Taken (⟨gap, w⟩ :: cuts) before v) :
    gap.length ≤ before.length := by
  rcases taken_cons_iff.1 taken with ⟨rfl, -⟩ | ⟨more, rfl, -⟩
  · exact Nat.le_refl _
  · rw [List.length_append]
    exact Nat.le_add_right _ _

/-- Behind the first word it is the later ones that are taken. -/
theorem taken_append_iff {more : List Char} (nonempty : w ≠ []) :
    Taken (⟨gap, w⟩ :: cuts) (gap ++ (w ++ more)) v ↔ Taken cuts more v := by
  rw [taken_cons_iff]
  constructor
  · rintro (⟨same, -⟩ | ⟨more', same, taken⟩)
    · exact absurd (List.append_eq_nil_iff.1 (List.append_right_eq_self.1 same)).1 nonempty
    · obtain rfl : more = more' := by simpa using same
      exact taken
  · exact fun taken => .inr ⟨more, rfl, taken⟩

/-- A place that is inside none of the words that are taken. -/
def Outside (cuts : List Cut) (before : List Char) : Prop :=
  ∀ other w, Taken cuts other w →
    ¬ (other.length < before.length ∧ before.length < other.length + w.length)

theorem outside_append_iff {more : List Char} (nonempty : w ≠ []) :
    Outside (⟨gap, w⟩ :: cuts) (gap ++ (w ++ more)) ↔ Outside cuts more := by
  constructor
  · intro outside other v taken inside
    refine outside (gap ++ (w ++ other)) v ((taken_append_iff nonempty).2 taken) ?_
    simp only [List.length_append]
    omega
  · intro outside other v taken inside
    simp only [List.length_append] at inside
    rcases taken_cons_iff.1 taken with ⟨rfl, rfl⟩ | ⟨more', rfl, later⟩
    · omega
    · refine outside more' v later ?_
      simp only [List.length_append] at inside
      omega

/-- **A word is taken exactly if it begins inside none that is taken.** -/
theorem Cuts.taken_iff (words : Distinct IsWord) (cut : Cuts IsWord cs cuts tail)
    (word : IsWord v) (whole : cs = before ++ (v ++ after)) :
    Taken cuts before v ↔ Outside cuts before := by
  induction cut generalizing before with
  | last free => exact absurd (infix_of_whole whole) (free v word)
  | @next cs gap w rest _ cuts word' whole' first later ih =>
      rcases Nat.eq_or_lt_of_le (first before v after word whole) with same | behind
      · obtain ⟨rfl, here⟩ := List.append_inj (whole'.symm.trans whole) same
        obtain rfl := words.unique word' word here
        exact iff_of_true (taken_cons_iff.2 (.inl ⟨rfl, rfl⟩)) fun other u taken inside =>
          absurd inside.1 (not_lt.2 (le_of_taken taken))
      · by_cases inside : before.length < gap.length + w.length
        · refine iff_of_false (fun taken => ?_) fun outside =>
            outside gap w (taken_cons_iff.2 (.inl ⟨rfl, rfl⟩)) ⟨behind, inside⟩
          rcases taken_cons_iff.1 taken with ⟨rfl, -⟩ | ⟨more, rfl, -⟩
          · exact Nat.lt_irrefl _ behind
          · simp only [List.length_append] at inside
            omega
        · -- The word stands behind the first one that is taken, where the search goes on.
          obtain ⟨more, rfl⟩ : ∃ more, before = gap ++ (w ++ more) := by
            have front : gap ++ w <+: cs := ⟨rest, by rw [whole', List.append_assoc]⟩
            have initial : gap ++ w <+: before :=
              List.prefix_of_prefix_length_le front ⟨v ++ after, whole.symm⟩ (by simpa using inside)
            obtain ⟨more, rfl⟩ := initial
            exact ⟨more, List.append_assoc _ _ _⟩
          have nonempty := words.nonempty word'
          rw [taken_append_iff nonempty, outside_append_iff nonempty]
          exact ih (by simpa using whole'.symm.trans whole)

/-! ## Parts of a text -/

/-- Where a word has just been taken the cuts of a text fall into those in front and those behind.
The ones in front are those of the text in front, also with more behind it that has no word. -/
theorem Cuts.split {front later : List Cut} (cut : Cuts IsWord cs (front ++ later) tail) :
    ∃ rest, cs = front.flatMap Cut.text ++ rest ∧ Cuts IsWord rest later tail ∧
      ∀ part more, rest = part ++ more → (∀ w, IsWord w → ¬ w <:+: part) →
        Cuts IsWord (front.flatMap Cut.text ++ part) front part := by
  induction front generalizing cs with
  | nil => exact ⟨cs, rfl, cut, fun part more whole free => .last free⟩
  | cons c front ih =>
      cases cut with
      | @next _ gap w _ _ _ word whole first behind =>
          obtain ⟨rest, here, last, before⟩ := ih behind
          have joined (back : List Char) : List.flatMap Cut.text (⟨gap, w⟩ :: front) ++ back =
              gap ++ (w ++ (front.flatMap Cut.text ++ back)) := by
            rw [List.flatMap_cons, Cut.text]
            simp
          refine ⟨rest, by rw [whole, here, joined], last, fun part more cut free => ?_⟩
          rw [joined]
          refine .next word rfl (fun before' v more' other place => ?_) (before part more cut free)
          refine first before' v (more' ++ more) other ?_
          rw [whole, here, cut]
          simpa using congrArg (· ++ more) place

/-- The text in front of a word that is taken is cut by itself, also with the word, and so is the
text behind it. -/
theorem Cuts.around (words : Distinct IsWord) (cut : Cuts IsWord cs cuts tail)
    (taken : Taken cuts before w) :
    IsWord w ∧ ∃ front gap later after, cuts = front ++ ⟨gap, w⟩ :: later ∧
      cs = before ++ (w ++ after) ∧ Cuts IsWord before front gap ∧
      Cuts IsWord (before ++ w) (front ++ [⟨gap, w⟩]) [] ∧ Cuts IsWord after later tail := by
  obtain ⟨front, gap, later, rfl, rfl⟩ := taken
  obtain ⟨rest, whole, last, ahead⟩ := cut.split
  cases last with
  | @next _ _ _ after _ _ word here first behind =>
      have whole : cs = front.flatMap Cut.text ++ gap ++ (w ++ after) := by
        rw [whole, here, List.append_assoc]
      refine ⟨word, front, gap, later, after, rfl, whole, ahead gap (w ++ after) here ?_, ?_,
        behind⟩
      · -- A word inside the gap would begin further left.
        refine not_infix_of_forall fun place v more other inside => ?_
        have left := first place v (more ++ (w ++ after)) other <| by
          rw [here, inside]
          simp
        have nonempty := List.length_pos_iff.2 (words.nonempty other)
        have longer := congrArg List.length inside
        simp only [List.length_append] at longer
        omega
      · have through : Cuts IsWord cs ((front ++ [⟨gap, w⟩]) ++ later) tail := by
          rwa [List.append_assoc, List.singleton_append]
        obtain ⟨rest, -, -, ahead⟩ := through.split
        have alone := ahead [] rest rfl fun v other inside =>
          words.nonempty other (List.eq_nil_of_infix_nil inside)
        rw [List.append_nil, List.flatMap_append, List.flatMap_singleton, Cut.text] at alone
        rwa [List.append_assoc]

@[simp] theorem refill_nil (outs : List (List Char)) (tail : List Char) :
    refill [] outs tail = tail := by
  cases outs <;> rfl

theorem refill_append (f : List Char → List Char) (front later : List Cut) (gap w : List Char) :
    refill (front ++ ⟨gap, w⟩ :: later) ((front ++ ⟨gap, w⟩ :: later).map fun c => f c.word) tail =
      refill front (front.map fun c => f c.word) gap ++
        (f w ++ refill later (later.map fun c => f c.word) tail) := by
  induction front with
  | nil => rfl
  | cons c front ih =>
      rw [List.cons_append, List.map_cons, refill, ih, List.map_cons, refill, List.append_assoc,
        List.append_assoc]

/-- If all words that are taken are of a narrower kind, the narrower kind cuts the text alike. -/
theorem Cuts.narrow {IsRare : List Char → Prop} (rare : ∀ w, IsRare w → IsWord w)
    (cut : Cuts IsWord cs cuts tail) (all : ∀ c ∈ cuts, IsRare c.word) :
    Cuts IsRare cs cuts tail := by
  induction cut with
  | last free => exact .last fun w word => free w (rare w word)
  | next word whole first later ih =>
      obtain ⟨here, behind⟩ := List.forall_mem_cons.1 all
      exact .next here whole (fun before v more other => first before v more (rare v other))
        (ih behind)

end Infographic.Text
