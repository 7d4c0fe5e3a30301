/-
# Infographic.Proofs.TakenTags -- the tags of a text that are replaced

A text is cut at its tags: the leftmost tag is taken, and the search goes on behind it.  Replacing
tags writes each tag that is taken once, from left to right, in the place where it stands, and reads
nothing of it again (`replaceTagsM_eq`).  Whether a text has a tag, what is left without its tags
and which tag a directive is read from follow from the same cuts.
-/
import Infographic.Proofs.FirstTag
import Infographic.Proofs.LeftmostCuts

namespace Infographic.Directive

set_option autoImplicit false

open Text (Clear Cut Cuts Distinct refill)

/-! ## Tags as words -/

/-- Two opening braces, one or more characters other than a closing brace, two closing braces. -/
def IsTag (w : List Char) : Prop :=
  ∃ body, w = wholeTag body ∧ body ≠ [] ∧ '\x7d' ∉ body

theorem distinct_tags : Distinct IsTag where
  nonempty := by
    rintro w ⟨body, rfl, -, -⟩
    simp [wholeTag, openBraces]
  unique := by
    rintro v w rest more ⟨body, rfl, nonempty, unclosed⟩ ⟨body', rfl, nonempty', unclosed'⟩ same
    have read : tagBody? (wholeTag body ++ rest) = some body := tagBody?_wholeTag nonempty unclosed
    rw [same, tagBody?_wholeTag nonempty' unclosed'] at read
    rw [Option.some.inj read]

variable {cs gap body rest tail : List Char} {cuts : List Cut}

theorem isTag_of_tagBody? (found : tagBody? cs = some body) :
    ∃ after, IsTag (wholeTag body) ∧ cs = wholeTag body ++ after := by
  obtain ⟨after, placed⟩ := tagAt_of_tagBody? found
  exact ⟨after, ⟨body, rfl, placed.nonempty, placed.unclosed⟩, placed.whole⟩

/-! ## Pieces -/

theorem piecesFrom_eq (skip : Nat) (cs : List Char) :
    piecesFrom skip cs = pieces (cs.drop skip) := by
  induction cs generalizing skip with
  | nil => simp [pieces, piecesFrom]
  | cons c cs ih =>
      cases skip with
      | zero => rfl
      | succ skip => rw [piecesFrom, ih, List.drop_succ_cons]

theorem pieces_wholeTag_append (nonempty : body ≠ []) (unclosed : '\x7d' ∉ body) :
    pieces (wholeTag body ++ rest) = .tag body :: pieces rest := by
  have here : tagBody? (wholeTag body ++ rest) = some body := tagBody?_wholeTag nonempty unclosed
  have whole : wholeTag body ++ rest = '\x7b' :: ('\x7b' :: (body ++ closeBraces) ++ rest) := by
    simp [wholeTag, openBraces]
  rw [whole] at here ⊢
  rw [pieces, piecesFrom, here]
  dsimp only
  rw [piecesFrom_eq]
  have length : body.length + 3 = ('\x7b' :: (body ++ closeBraces)).length := by
    simp [closeBraces]
  rw [length, List.drop_left]

/-- A gap in front of the next tag is plain. -/
theorem pieces_gap (first : Clear IsTag gap (gap ++ rest)) :
    pieces (gap ++ rest) = gap.foldr Piece.consPlain (pieces rest) := by
  induction gap with
  | nil => rfl
  | cons c gap ih =>
      have later := ih first.of_cons
      cases here : tagBody? (c :: (gap ++ rest)) with
      | some body =>
          obtain ⟨after, tag, whole⟩ := isTag_of_tagBody? here
          exact absurd whole (first.ne_append tag)
      | none =>
          rw [List.cons_append, pieces, piecesFrom, here, List.foldr_cons, ← later]
          rfl

/-! ## Writing tags -/

section Writing

variable {m : Type → Type} [Monad m] [LawfulMonad m] (write : List Char → m (List Char))

/-- Write pieces one after the other. -/
def writePieces (ps : List Piece) : m (List Char) :=
  List.flatten <$> ps.mapM (Piece.write write)

theorem writePieces_consPlain (c : Char) (ps : List Piece) :
    writePieces write (Piece.consPlain c ps) = (c :: ·) <$> writePieces write ps := by
  rcases ps with _ | ⟨_ | _, ps⟩ <;> simp [writePieces, Piece.consPlain, Piece.write]

theorem writePieces_gap (gap : List Char) (ps : List Piece) :
    writePieces write (gap.foldr Piece.consPlain ps) = (gap ++ ·) <$> writePieces write ps := by
  induction gap with
  | nil => simp
  | cons c gap ih =>
      rw [List.foldr_cons, writePieces_consPlain, ih, Functor.map_map]
      rfl

theorem writePieces_tag (body : List Char) (ps : List Piece) :
    writePieces write (.tag body :: ps) =
      write (wholeTag body) >>= fun out => (out ++ ·) <$> writePieces write ps := by
  simp [writePieces, Piece.write]

/-- **Each tag that is taken is written once, from left to right, in its place.** -/
theorem replaceTagsM_eq (cut : Cuts IsTag cs cuts tail) :
    replaceTagsM write cs = do
      let outs ← (cuts.map Cut.word).mapM write
      return refill cuts outs tail := by
  have pieced (cs : List Char) : replaceTagsM write cs = writePieces write (pieces cs) := rfl
  induction cut with
  | @last tail free =>
      have plain : pieces (tail ++ []) = tail.foldr Piece.consPlain (pieces []) :=
        pieces_gap (by rw [List.append_nil]; exact Text.clear_of_free free)
      rw [List.append_nil] at plain
      rw [pieced, plain, writePieces_gap]
      simp [writePieces, pieces, piecesFrom, refill]
  | next word whole first later ih =>
      obtain ⟨body, rfl, nonempty, unclosed⟩ := word
      subst whole
      rw [pieced] at ih
      rw [pieced, pieces_gap first, writePieces_gap, pieces_wholeTag_append nonempty unclosed,
        writePieces_tag, ih]
      simp [refill]

/-- Writing without effects. -/
theorem replaceTagsM_pure (write : List Char → List Char) (cs : List Char) :
    replaceTagsM (m := m) (fun tag => pure (write tag)) cs = pure (replaceTags write cs) := by
  have each : Piece.write (m := m) (fun tag => pure (write tag)) =
      fun p => pure (Piece.write (m := Id) write p) := by
    funext p
    cases p <;> rfl
  have joined : replaceTags write cs = ((pieces cs).map (Piece.write (m := Id) write)).flatten := by
    rw [replaceTags, List.flatMap_def]
    refine congrArg List.flatten (List.map_congr_left fun p _ => ?_)
    cases p <;> rfl
  rw [replaceTagsM, each, List.mapM_pure, map_pure, joined]

end Writing

theorem replaceTags_eq (write : List Char → List Char) (cut : Cuts IsTag cs cuts tail) :
    replaceTags write cs = refill cuts (cuts.map fun c => write c.word) tail := by
  have written := replaceTagsM_eq (m := Id) (fun tag => pure (write tag)) cut
  rw [replaceTagsM_pure, List.mapM_pure, List.map_map] at written
  exact written

theorem refill_nils (cuts : List Cut) (tail : List Char) :
    refill cuts (cuts.map fun _ => []) tail = cuts.flatMap Cut.gap ++ tail := by
  induction cuts with
  | nil => rfl
  | cons c cuts ih => rw [List.map_cons, refill, ih, List.nil_append, List.flatMap_cons,
      List.append_assoc]

/-! ## The first tag -/

theorem hasTag_iff : hasTag cs = true ↔ ∃ tag, IsTag tag ∧ tag <:+: cs := by
  rw [hasTag, ← Option.ne_none_iff_isSome, ne_eq, firstTag?_eq_none_iff]
  constructor
  · intro found
    simp only [not_forall, not_not] at found
    obtain ⟨before, body, after, placed⟩ := found
    exact ⟨_, ⟨body, rfl, placed.nonempty, placed.unclosed⟩, Text.infix_of_whole placed.whole⟩
  · rintro ⟨tag, ⟨body, rfl, nonempty, unclosed⟩, before, after, whole⟩ none
    exact none before body after ⟨by rw [← whole, List.append_assoc], nonempty, unclosed⟩

theorem firstTag_of_cuts {later : List Cut}
    (cut : Cuts IsTag cs (⟨gap, wholeTag body⟩ :: later) tail) : FirstTag cs body := by
  cases cut with
  | next word whole first behind =>
      obtain ⟨body', same, nonempty, unclosed⟩ := word
      have inside : body = body' := by simpa [wholeTag] using same
      subst inside
      refine ⟨gap, _, ⟨whole, nonempty, unclosed⟩, fun other => ?_⟩
      exact first _ _ _ ⟨_, rfl, other.nonempty, other.unclosed⟩ other.whole

/-- **One cut of a text into tags serves all that is done with them.**  The tags that are taken are
unique; writing calls what writes them once for each, in order, and puts what it gives in their
places; a text has a tag exactly if one is taken, and a directive is read from the body of the first
one that is taken in the decoded text. -/
theorem tags_taken (text : String) :
    (∃ cuts tail, Cuts IsTag text.toList cuts tail ∧
      (∀ others rest, Cuts IsTag text.toList others rest → others = cuts ∧ rest = tail) ∧
      text.toList = cuts.flatMap Cut.text ++ tail ∧
      (∀ {m : Type → Type} [Monad m] [LawfulMonad m] (write : List Char → m (List Char)),
        replaceTagsM write text.toList = do
          let outs ← (cuts.map Cut.word).mapM write
          return refill cuts outs tail) ∧
      (∀ write, replaceTags write text.toList =
        refill cuts (cuts.map fun c => write c.word) tail) ∧
      stripTags text.toList = Text.trim (cuts.flatMap Cut.gap ++ tail) ∧
      (hasTag text.toList = true ↔ cuts ≠ [])) ∧
    (hasTag text.toList = true ↔ ∃ tag, IsTag tag ∧ tag <:+: text.toList) ∧
    ∃ cuts tail, Cuts IsTag (decode text.toList) cuts tail ∧
      (cuts = [] → ofText text = .ok ⟨String.ofList (decode text.toList), []⟩) ∧
      ∀ gap body later, cuts = ⟨gap, wholeTag body⟩ :: later → ofText text = ofBody body := by
  refine ⟨?_, hasTag_iff, ?_⟩
  · obtain ⟨cuts, tail, cut⟩ := Text.exists_cuts distinct_tags text.toList
    refine ⟨cuts, tail, cut, fun others rest => cut.unique distinct_tags, cut.concat,
      fun write => replaceTagsM_eq write cut, fun write => replaceTags_eq write cut, ?_, ?_⟩
    · rw [stripTags, replaceTags_eq _ cut, refill_nils]
    · rw [hasTag_iff, cut.ne_nil_iff]
  · obtain ⟨cuts, tail, cut⟩ := Text.exists_cuts distinct_tags (decode text.toList)
    refine ⟨cuts, tail, cut, fun nothing => ?_, fun gap body later taken => ?_⟩
    · have untagged : firstTag? (decode text.toList) = none := by
        rw [← Option.not_isSome_iff_eq_none, ← hasTag, hasTag_iff, ← cut.ne_nil_iff]
        exact not_not.2 nothing
      rw [ofText, untagged]
    · subst taken
      rw [ofText, firstTag?_eq_some_iff.2 (firstTag_of_cuts cut)]

/-- A third brace on the left belongs to the tag, one on the right does not. -/
example : pieces "\x7b\x7b\x7ba\x7d\x7d\x7d \x7b\x7b\x7d\x7d".toList =
    [.tag "\x7ba".toList, .plain "\x7d \x7b\x7b\x7d\x7d".toList] := by
  decide

end Infographic.Directive
