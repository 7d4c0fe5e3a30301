/-
# Infographic.Proofs.AlikeReading -- reading the same content in a wider scope

Two readers that have the same elements open, one of them with a declaration more in scope, do
the same on the same content: what one reads the other reads too, and they stay alike
(`alike_of_readContent`).  Alike trees differ by attributes under the one name that makes the
declaration.
-/
import Infographic.Proofs.ResolvedTree
import Infographic.Proofs.WidenedScope

namespace Infographic.Markup

set_option autoImplicit false

/-! ## Alike states -/

/-- Two readers with alike elements open, and alike trees finished. -/
structure State.Alike (d : Declaration) (st st' : State) : Prop where
  entities : st'.entities = st.entities
  nesting : st'.nesting = st.nesting
  joins : st'.joins = st.joins
  pending : st'.pending = st.pending
  started : st'.started = st.started
  stack : List.Forall₂ (OpenElement.Alike d) st.stack st'.stack
  root : st'.root.map (Tree.without d.toAttribute.1) = st.root.map (Tree.without d.toAttribute.1)

namespace State.Alike

variable {d : Declaration} {st st' : State}

theorem mode (alike : st.Alike d st') {inner inner' : Nesting} {joins joins' started started' : Bool}
    (nested : inner' = inner) (joining : joins' = joins) (starting : started' = started) :
    State.Alike d { st with nesting := inner, joins, started }
      { st' with nesting := inner', joins := joins', started := started' } :=
  ⟨alike.entities, nested, joining, alike.pending, starting, alike.stack, alike.root⟩

theorem scope (alike : st.Alike d st') : Scope.Widened d st.scope st'.scope := by
  have stack := alike.stack
  rw [scope_eq, scope_eq]
  generalize st.stack = opened at stack ⊢
  generalize st'.stack = opened' at stack ⊢
  cases stack with
  | nil => exact .same _
  | cons first _ => exact first.scope

theorem add (alike : st.Alike d st') {t t' : Tree}
    (same : t'.without d.toAttribute.1 = t.without d.toAttribute.1) :
    State.Alike d (st.add t) (st'.add t') := by
  obtain ⟨entities, nesting, joins, pending, started, stack, root⟩ := alike
  obtain ⟨_, _, stack₁, root₁, _, _, _⟩ := st
  obtain ⟨_, _, stack₂, root₂, _, _, _⟩ := st'
  cases stack with
  | nil =>
      refine ⟨entities, nesting, rfl, pending, started, .nil, ?_⟩
      cases root₁ <;> cases root₂
      · exact congrArg some same
      · cases root
      · cases root
      · exact root
  | cons first rest =>
      refine ⟨entities, nesting, rfl, pending, started, .cons ?_ rest, root⟩
      exact ⟨first.name, first.tag, first.attributes, first.scope, by
        rw [List.map_cons, List.map_cons, same, first.children]⟩

/-- Text joins the children of alike elements alike. -/
theorem joined {key : String} {children children' : List Tree}
    (same : children'.map (Tree.without key) = children.map (Tree.without key)) :
    (∃ before others others', children = .text before :: others ∧
      children' = .text before :: others' ∧
      others'.map (Tree.without key) = others.map (Tree.without key)) ∨
    (∀ before others, children ≠ .text before :: others) ∧
      ∀ before others, children' ≠ .text before :: others := by
  cases children with
  | nil =>
      rw [List.map_nil, List.map_eq_nil_iff] at same
      exact .inr ⟨nofun, by simp [same]⟩
  | cons t others =>
      obtain ⟨t', others', rfl, first, rest⟩ := List.map_eq_cons_iff.1 same
      cases t with
      | text before =>
          cases t' with
          | text before' =>
              cases first
              exact .inl ⟨_, _, _, rfl, rfl, rest⟩
          | element => cases first
      | element =>
          cases t' with
          | text => cases first
          | element => exact .inr ⟨nofun, nofun⟩

/-- Text that would join the text before it is lost where there is none. -/
theorem addText_of_not_text {st : State} {e : OpenElement} {outer : List OpenElement}
    (opened : st.stack = e :: outer) (joins : st.joins = true)
    (other : ∀ before others, e.children ≠ .text before :: others) (cs : List Char) :
    st.addText cs = st := by
  rw [State.addText, joins, opened]
  dsimp only
  split
  · rename_i children
    exact absurd children (other _ _)
  · rfl

theorem addText (alike : st.Alike d st') (cs : List Char) :
    State.Alike d (st.addText cs) (st'.addText cs) := by
  have added := alike.add (rfl : (Tree.text (String.ofList cs)).without d.toAttribute.1 = _)
  have plain : State.Alike d { st.add (.text (String.ofList cs)) with joins := true }
      { st'.add (.text (String.ofList cs)) with joins := true } :=
    ⟨added.entities, added.nesting, rfl, added.pending, added.started, added.stack, added.root⟩
  have whole := alike
  obtain ⟨entities, nesting, joins, pending, started, stack, root⟩ := alike
  obtain ⟨_, _, stack₁, root₁, joins₁, _, _⟩ := st
  obtain ⟨_, _, stack₂, root₂, _, _, _⟩ := st'
  cases joins
  cases joins₁ with
  | false => exact plain
  | true =>
      cases stack with
      | nil => exact plain
      | @cons e e' _ _ first rest =>
          obtain ⟨_, _, _, _, children₁⟩ := e
          obtain ⟨_, _, _, _, children₂⟩ := e'
          rcases joined first.children with
            ⟨before, others, others', rfl, rfl, same⟩ | ⟨other, other'⟩
          · refine ⟨entities, nesting, rfl, pending, started, .cons ?_ rest, root⟩
            exact ⟨first.name, first.tag, first.attributes, first.scope, by
              rw [List.map_cons, List.map_cons, same]⟩
          · rw [addText_of_not_text rfl rfl other, addText_of_not_text rfl rfl other']
            exact whole

theorem flush (alike : st.Alike d st') (acc : List Char) :
    State.Alike d (st.flush acc) (st'.flush acc) := by
  rw [State.flush, State.flush]
  split
  · exact alike
  · exact alike.addText _

theorem resolve (alike : st.Alike d st') (qualified : d.qualifier ≠ none) {name : QualifiedName}
    {sorted : SortedAttributes} {e : OpenElement} (resolved : st.resolve name sorted = some e) :
    ∃ e', st'.resolve name sorted = some e' ∧ e.Alike d e' :=
  alike.scope.resolve qualified resolved

theorem addStartTag (alike : st.Alike d st') (qualified : d.qualifier ≠ none)
    {name : QualifiedName} {attributes : List RawAttribute} {ending : TagEnd} {next : State}
    (added : st.addStartTag name attributes ending = some next) :
    ∃ next', st'.addStartTag name attributes ending = some next' ∧ State.Alike d next next' := by
  simp only [State.addStartTag_iff]
  cases State.addStartTag_iff.1 added with
  | broken declares sorts =>
      rw [← alike.pending] at sorts
      exact ⟨_, .broken declares sorts, alike.entities, alike.nesting, rfl, rfl, alike.started,
        alike.stack, alike.root⟩
  | @empty _ e declares sorts resolved =>
      obtain ⟨e', resolved', same⟩ := alike.resolve qualified resolved
      rw [← alike.pending] at sorts
      refine ⟨st'.addEmpty e', .empty declares sorts resolved', ?_⟩
      have leaf : (Tree.element e'.tag e'.attributes []).without d.toAttribute.1 =
          (Tree.element e.tag e.attributes []).without d.toAttribute.1 := by
        rw [Tree.without, Tree.without, same.tag, same.attributes]
      have closed := alike.add leaf
      exact ⟨closed.entities, closed.nesting, closed.joins, rfl, rfl, closed.stack, closed.root⟩
  | opening declares sorts resolved =>
      obtain ⟨e', resolved', same⟩ := alike.resolve qualified resolved
      rw [← alike.pending] at sorts
      refine ⟨st'.openElement e', .opening declares sorts resolved', ?_⟩
      exact ⟨alike.entities, alike.nesting, rfl, rfl, rfl, .cons same alike.stack, alike.root⟩

theorem closeElement (alike : st.Alike d st') {name : QualifiedName} {next : State}
    (closes : st.closeElement name = some next) :
    ∃ next', st'.closeElement name = some next' ∧ State.Alike d next next' := by
  simp only [State.closeElement_iff]
  obtain @⟨e, outer, _, opened, resolved, named⟩ := State.closeElement_iff.1 closes
  have beside := alike.stack
  rw [opened] at beside
  generalize opened' : st'.stack = stack at beside
  cases beside with
  | @cons _ e' _ outer' first rest =>
      have resolved' := (first.scope.extend _).resolveAttributes resolved
      rw [← alike.pending] at resolved'
      have popped : State.Alike d { st with stack := outer, pending := .none }
          { st' with stack := outer', pending := .none } :=
        ⟨alike.entities, alike.nesting, alike.joins, rfl, alike.started, rest, alike.root⟩
      have branch : (Tree.element e'.tag e'.attributes e'.children.reverse).without
          d.toAttribute.1 =
            (Tree.element e.tag e.attributes e.children.reverse).without d.toAttribute.1 := by
        rw [Tree.without, Tree.without, first.tag, first.attributes, withoutAll_eq_map,
          withoutAll_eq_map, List.map_reverse, List.map_reverse, first.children]
      have named' : st'.started ∧ e'.name = name :=
        ⟨alike.started.symm ▸ named.1, first.name.trans named.2⟩
      exact ⟨_, .mk opened' resolved' named', popped.add branch⟩

end State.Alike

/-! ## Reading alike -/

variable {d : Declaration}

/-- One after the other, the two readers take the same steps.  The induction is on the fuel, as
an entity in a text is read as content. -/
theorem alike_of_read (qualified : d.qualifier ≠ none) (fuel : Nat) :
    (∀ level st st' cs out, State.Alike d st st' → readContent fuel level st cs = some out →
      ∃ last, readContent fuel level st' cs = some (last, out.2) ∧ State.Alike d out.1 last) ∧
    ∀ st st' acc asIs cs out, State.Alike d st st' → readText fuel st acc asIs cs = some out →
      ∃ out', readText fuel st' acc asIs cs = some out' ∧ State.Alike d out out' := by
  induction fuel with
  | zero => simp [readContent, readText]
  | succ fuel ih =>
      obtain ⟨content, text⟩ := ih
      simp only [readContent_iff, readText_iff]
      constructor
      · intro level st st' cs out alike step
        cases step with
        | done => exact ⟨_, .done, alike⟩
        | comment skipped later =>
            obtain ⟨last, later, same⟩ :=
              content _ _ _ _ _ (alike.mode alike.nesting rfl alike.started) later
            exact ⟨last, .comment skipped later, same⟩
        | characters opens closes legal later =>
            obtain ⟨last, later, same⟩ := content _ _ _ _ _ (alike.addText _) later
            exact ⟨last, .characters opens closes legal later, same⟩
        | instruction skipped later =>
            obtain ⟨last, later, same⟩ :=
              content _ _ _ _ _ (alike.mode alike.nesting rfl alike.started) later
            exact ⟨last, .instruction skipped later, same⟩
        | close named ends closes =>
            obtain ⟨closed, closes, same⟩ := alike.closeElement closes
            exact ⟨closed, .close named ends closes, same⟩
        | closeInner named ends closes later =>
            obtain ⟨closed, closes, same⟩ := alike.closeElement closes
            obtain ⟨last, later, same⟩ := content _ _ _ _ _ same later
            exact ⟨last, .closeInner named ends closes later, same⟩
        | tag named listed normal added later =>
            obtain ⟨next, added, same⟩ :=
              (alike.mode rfl alike.joins alike.started).addStartTag qualified added
            obtain ⟨last, later, same⟩ := content _ _ _ _ _ same later
            rw [← alike.entities, ← alike.nesting] at normal
            exact ⟨last, .tag named listed normal added later, same⟩
        | text nonempty plain legal words later =>
            obtain ⟨next, words, same⟩ := text _ _ _ _ _ _ alike words
            obtain ⟨last, later, same⟩ := content _ _ _ _ _ same later
            exact ⟨last, .text nonempty plain legal words later, same⟩
      · intro st st' acc asIs cs out alike step
        cases step with
        | done => exact ⟨_, .done, alike.flush _⟩
        | inner refers deep later =>
            obtain ⟨out', later, same⟩ := text _ _ _ _ _ _ alike later
            exact ⟨out', .inner refers (alike.nesting ▸ deep) later, same⟩
        | outer refers flat later =>
            obtain ⟨out', later, same⟩ := text _ _ _ _ _ _ alike later
            exact ⟨out', .outer refers (alike.nesting ▸ flat) later, same⟩
        | entity refers declared entered inside later =>
            have before := alike.flush acc
            obtain ⟨last, inside, same⟩ := content _ _ _ _ _ (before.mode rfl before.joins rfl) inside
            obtain ⟨out', later, same⟩ := text _ _ _ _ _ _ (same.mode (congrArg _ same.nesting)
              same.joins before.started) later
            rw [← alike.entities] at declared
            rw [← before.nesting] at entered
            exact ⟨out', .entity refers declared entered inside later, same⟩
        | char plain later =>
            obtain ⟨out', later, same⟩ := text _ _ _ _ _ _ alike later
            exact ⟨out', .char plain later, same⟩

end Infographic.Markup
