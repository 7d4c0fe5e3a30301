/-
# Infographic.Directive.Tag -- tags in a text

A tag is two opening braces, a body of at least one character other than a closing
brace, and two closing braces.  `pieces` cuts a text into tags and the text between
them, always taking the leftmost tag that begins after the previous one ended;
`concat_pieces` says that nothing is lost.
-/
import Infographic.Text.Blank

namespace Infographic.Directive

set_option autoImplicit false

/-- The two braces that open a tag. -/
def openBraces : List Char := ['\x7b', '\x7b']

/-- The two braces that close a tag. -/
def closeBraces : List Char := ['\x7d', '\x7d']

/-- The body of a tag at the very start of a text. -/
def tagBody? : List Char → Option (List Char)
  | '\x7b' :: '\x7b' :: rest =>
      let body := rest.takeWhile (· != '\x7d')
      match rest.dropWhile (· != '\x7d') with
      | '\x7d' :: '\x7d' :: _ => if body.isEmpty then none else some body
      | _ => none
  | _ => none

/-- A tag as it stands in a text. -/
def wholeTag (body : List Char) : List Char :=
  openBraces ++ body ++ closeBraces

/-- The body of the first tag of a text. -/
def firstTag? : List Char → Option (List Char)
  | [] => none
  | c :: rest =>
      match tagBody? (c :: rest) with
      | some body => some body
      | none => firstTag? rest

/-- Whether a text has a tag. -/
def hasTag (cs : List Char) : Bool :=
  (firstTag? cs).isSome

/-- A stretch of text without a tag, or a tag by its body. -/
inductive Piece where
  | plain (cs : List Char)
  | tag (body : List Char)
  deriving Repr, DecidableEq

namespace Piece

/-- The text a piece stands for. -/
def text : Piece → List Char
  | .plain cs => cs
  | .tag body => wholeTag body

/-- Put a character in front of the plain text that pieces begin with. -/
def consPlain (c : Char) : List Piece → List Piece
  | .plain cs :: ps => .plain (c :: cs) :: ps
  | ps => .plain [c] :: ps

end Piece

/-- Cut a text into pieces, after passing over its first `skip` characters, the rest
of a tag already taken. -/
def piecesFrom : Nat → List Char → List Piece
  | _, [] => []
  | skip + 1, _ :: rest => piecesFrom skip rest
  | 0, c :: rest =>
      match tagBody? (c :: rest) with
      | some body => .tag body :: piecesFrom (body.length + 3) rest
      | none => Piece.consPlain c (piecesFrom 0 rest)

/-- Cut a text into plain stretches and tags. -/
def pieces (cs : List Char) : List Piece :=
  piecesFrom 0 cs

/-- Write every tag as `write` says; what it writes is not read again. -/
def replaceTags (write : List Char → List Char) (cs : List Char) : List Char :=
  (pieces cs).flatMap fun
    | .plain text => text
    | .tag body => write (wholeTag body)

/-- Write a piece, a tag as `write` says, where writing may have effects. -/
def Piece.write {m : Type → Type} [Monad m] (write : List Char → m (List Char)) :
    Piece → m (List Char)
  | .plain text => pure text
  | .tag body => write (wholeTag body)

/-- Write every tag as `write` says, one after the other, where writing may have effects. -/
def replaceTagsM {m : Type → Type} [Monad m] (write : List Char → m (List Char))
    (cs : List Char) : m (List Char) :=
  List.flatten <$> (pieces cs).mapM (Piece.write write)

/-- The text without its tags, trimmed. -/
def stripTags (cs : List Char) : List Char :=
  Text.trim (replaceTags (fun _ => []) cs)

/-! ## The pieces make up the text -/

/-- What a tag at the start of a text looks like. -/
theorem eq_wholeTag_of_tagBody? {cs body : List Char} (found : tagBody? cs = some body) :
    ∃ rest, cs = wholeTag body ++ rest ∧ body ≠ [] ∧ ∀ c ∈ body, c ≠ '\x7d' := by
  rw [tagBody?.eq_def] at found
  split at found
  · rename_i inner
    simp only at found
    split at found
    · rename_i rest closing
      split at found
      · simp at found
      · rename_i nonempty
        cases found
        refine ⟨rest, ?_, by simpa using nonempty, fun c hc => ?_⟩
        · have cut := List.takeWhile_append_dropWhile (p := (· != '\x7d')) (l := inner)
          rw [closing] at cut
          simp only [wholeTag, openBraces, closeBraces, List.append_assoc, List.cons_append,
            List.nil_append]
          rw [cut]
        · have := List.all_eq_true.1 (List.all_takeWhile (p := (· != '\x7d')) (l := inner)) c hc
          simpa using this
    · simp at found
  · simp at found

theorem concat_consPlain (c : Char) (ps : List Piece) :
    (Piece.consPlain c ps).flatMap Piece.text = c :: ps.flatMap Piece.text := by
  cases ps with
  | nil => rfl
  | cons p ps => cases p <;> rfl

theorem concat_piecesFrom (skip : Nat) (cs : List Char) :
    (piecesFrom skip cs).flatMap Piece.text = cs.drop skip := by
  induction cs generalizing skip with
  | nil => simp [piecesFrom]
  | cons c rest ih =>
      cases skip with
      | succ skip => rw [piecesFrom, ih]; rfl
      | zero =>
          rw [piecesFrom]
          split
          · rename_i body found
            obtain ⟨after, whole, -, -⟩ := eq_wholeTag_of_tagBody? found
            have tail : rest = '\x7b' :: (body ++ closeBraces ++ after) := by
              simpa [wholeTag, openBraces] using congrArg List.tail whole
            rw [List.flatMap_cons, ih, tail, List.drop_zero, Piece.text]
            rw [show body.length + 3 = (body ++ closeBraces).length + 1 by
              simp [closeBraces], List.drop_succ_cons, List.drop_left, ← tail, whole]
          · rw [concat_consPlain, ih]; rfl

/-- Pieces in order give the text back. -/
theorem concat_pieces (cs : List Char) : (pieces cs).flatMap Piece.text = cs :=
  concat_piecesFrom 0 cs

end Infographic.Directive
