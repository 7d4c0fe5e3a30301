/-
# Infographic.Proofs.EasingRuns -- how an easing runs

An easing is started again and again, and the clock goes on in between.  Without rounding the value
of a frame depends only on where the easing sets out from, where it leads to, and how long ago its
first frame was (`way`).  The curve rises from zero to one (`curve_mono`), so the values go from the
source toward the target and stay between them as long as the clock does not go back; a frame a
second behind the first one is at the target and the last one (`run_early`, `run_late`).
`easing_runs` puts a whole run together, whatever went before it.
-/
import Mathlib.Order.Interval.Set.UnorderedInterval
import Mathlib.Tactic.Linarith
import Mathlib.Tactic.NormNum
import Mathlib.Tactic.Ring
import Infographic.Motion.Easing
import Infographic.Proofs.ExactScalar

namespace Infographic.Easing

set_option autoImplicit false

open Scalar (clampUnit clampUnit_mem clampUnit_mono clampUnit_of_nonpos clampUnit_of_one_le
  clampUnit_clampUnit clampUnit_lt_one)

/-! ## Events -/

/-- What can happen to an easing: it is started, or the clock goes on. -/
inductive Event (α : Type) where
  | start (source target : α)
  | tick (now : α)

section

variable {α : Type} [Scalar α]

/-- The easing behind an event. -/
def step (e : Easing α) : Event α → Easing α
  | .start source target => start source target
  | .tick now => (e.tick now).1

/-- The easing behind some events. -/
def run (e : Easing α) (events : List (Event α)) : Easing α :=
  events.foldl step e

/-- The values that an easing hands out at some times. -/
def frames (e : Easing α) : List α → List α
  | [] => []
  | now :: rest => (e.tick now).2.toList ++ (e.tick now).1.frames rest

/-- The value at a time, for a first frame at another. -/
def way (source target began now : α) : α :=
  source + (target - source) * curve ((now - began) / duration)

variable {e : Easing α}

theorem run_of_still (still : e.active = false) (nows : List α) :
    e.run (nows.map .tick) = e := by
  induction nows with
  | nil => rfl
  | cons now rest ih => rwa [List.map_cons, run, List.foldl_cons, step, tick_of_still still]

theorem frames_of_still (still : e.active = false) (nows : List α) : e.frames nows = [] := by
  induction nows with
  | nil => rfl
  | cons now rest ih => rw [frames, tick_of_still still, ih]; rfl

end

variable {K : Type} [Field K] [LinearOrder K] [IsStrictOrderedRing K]

attribute [local instance] Scalar.exact

/-! ## The curve -/

omit [IsStrictOrderedRing K] in
theorem duration_exact : (duration : K) = 1000 := Nat.cast_ofNat

/-- The two branches of the curve. -/
theorem curve_eq (x : K) :
    curve x = if clampUnit x < 1 / 2 then 4 * clampUnit x ^ 3
      else 1 - (2 - 2 * clampUnit x) ^ 3 / 2 := by
  have one : (Scalar.whole 1 : K) = 1 := Nat.cast_one
  have two : (Scalar.whole 2 : K) = 2 := Nat.cast_ofNat
  have four : (Scalar.whole 4 : K) = 4 := Nat.cast_ofNat
  have below (a b : K) : Scalar.below a b = true ↔ a < b := decide_eq_true_iff
  unfold curve
  rw [one, two, four]
  simp only [below]
  split <;> ring

theorem curve_of_nonpos {x : K} (le : x ≤ 0) : curve x = 0 := by
  rw [curve_eq, clampUnit_of_nonpos le, if_pos one_half_pos]
  ring

theorem curve_of_one_le {x : K} (le : 1 ≤ x) : curve x = 1 := by
  rw [curve_eq, clampUnit_of_one_le le, if_neg (not_lt.2 one_half_lt_one.le)]
  ring

/-- The curve rises: either branch does, and the first one stays below one half where the second
one begins. -/
theorem curve_mono {x y : K} (le : x ≤ y) : curve x ≤ curve y := by
  have order := clampUnit_mono le
  have low := (clampUnit_mem x).1
  have high := (clampUnit_mem y).2
  rw [curve_eq, curve_eq]
  generalize clampUnit x = a at order low
  generalize clampUnit y = b at order high
  split
  · rename_i first
    split
    · gcongr
    · rename_i second
      have left : 4 * a ^ 3 ≤ 4 * (1 / 2) ^ 3 := by gcongr
      have right : (2 - 2 * b) ^ 3 ≤ 1 ^ 3 := by
        refine pow_le_pow_left₀ ?_ ?_ 3 <;> linarith
      linarith
  · rename_i second
    rw [if_neg fun first => second (order.trans_lt first)]
    have fall : (2 - 2 * b) ^ 3 ≤ (2 - 2 * a) ^ 3 := by
      refine pow_le_pow_left₀ ?_ ?_ 3 <;> linarith
    linarith

theorem curve_mem (x : K) : 0 ≤ curve x ∧ curve x ≤ 1 := by
  constructor
  · rw [← curve_of_nonpos (min_le_right x 0)]
    exact curve_mono (min_le_left x 0)
  · rw [← curve_of_one_le (le_max_right x 1)]
    exact curve_mono (le_max_left x 1)

/-! ## Values -/

theorem way_of_le (source target : K) {began now : K} (le : now ≤ began) :
    way source target began now = source := by
  have early : (now - began) / duration ≤ 0 := by
    rw [duration_exact]
    exact div_nonpos_of_nonpos_of_nonneg (sub_nonpos.2 le) (by norm_num)
  rw [way, curve_of_nonpos early, mul_zero, add_zero]

theorem one_le_elapsed {began now : K} : 1 ≤ (now - began) / duration ↔ began + 1000 ≤ now := by
  rw [duration_exact, one_le_div (by norm_num), le_sub_iff_add_le']

theorem way_of_passed (source target : K) {began now : K} (passed : began + 1000 ≤ now) :
    way source target began now = target := by
  rw [way, curve_of_one_le (one_le_elapsed.2 passed), mul_one, add_sub_cancel]

/-- The value lies between the source and the target. -/
theorem way_mem (source target began now : K) :
    way source target began now ∈ Set.uIcc source target := by
  obtain ⟨low, high⟩ := curve_mem ((now - began) / duration)
  rw [way]
  generalize curve ((now - began) / duration) = part at low high
  rcases le_total source target with up | down
  · rw [Set.uIcc_of_le up]
    constructor <;> nlinarith
  · rw [Set.uIcc_of_ge down]
    constructor <;> nlinarith

/-- Later values are nearer to the target. -/
theorem way_mono (source target began : K) {now later : K} (le : now ≤ later) :
    (source ≤ target → way source target began now ≤ way source target began later) ∧
      (target ≤ source → way source target began later ≤ way source target began now) := by
  have parts : curve ((now - began) / duration) ≤ curve ((later - began) / duration) := by
    refine curve_mono ?_
    rw [duration_exact]
    gcongr
  rw [way, way]
  constructor
  · intro up
    have := mul_le_mul_of_nonneg_left parts (sub_nonneg.2 up)
    linarith
  · intro down
    have := mul_le_mul_of_nonpos_left parts (sub_nonpos.2 down)
    linarith

/-! ## Frames -/

variable {e : Easing K} {source target began current now : K} {nows : List K}

/-- The clock goes on while an easing runs. -/
theorem advance_of_running (began : K) (running : e.active = true)
    (since : e.began.getD now = began) :
    e.advance now = ((⟨e.source, e.target, way e.source e.target began now, some began,
      decide (now < began + 1000)⟩, some (way e.source e.target began now)),
      decide (now < began + 1000)) := by
  have below (a b : K) : Scalar.below a b = decide (a < b) := rfl
  have one : (Scalar.whole 1 : K) = 1 := Nat.cast_one
  have curved (x : K) : curve (clampUnit x) = curve x := by
    rw [curve_eq, curve_eq, clampUnit_clampUnit]
  have more : (now - began) / duration < 1 ↔ now < began + 1000 := by
    rw [← not_le, one_le_elapsed, not_le]
  rw [advance, running, if_pos rfl, since]
  simp only [below, one, curved, clampUnit_lt_one, more]
  simp [way, Scalar.isNaN]

/-- An easing that is on its way. -/
def underway (source target began current : K) : Easing K :=
  ⟨source, target, current, some began, true⟩

/-- An easing that has come to its end. -/
def arrived (source target began : K) : Easing K :=
  ⟨source, target, target, some began, false⟩

theorem advance_early (source target current : K) (early : now < began + 1000) :
    (underway source target began current).advance now =
      ((underway source target began (way source target began now),
        some (way source target began now)), true) := by
  rw [advance_of_running began rfl rfl, decide_eq_true early]
  rfl

theorem advance_late (late : began + 1000 ≤ now) :
    (underway source target began current).advance now =
      ((arrived source target began, some target), false) := by
  rw [advance_of_running began rfl rfl, decide_eq_false (not_lt.2 late)]
  simp only [underway, arrived, way_of_passed _ _ late]

theorem advance_first : (start source target).advance now =
    ((underway source target now source, some source), true) := by
  have soon : now < now + 1000 := lt_add_of_pos_right now (by norm_num)
  rw [advance_of_running now rfl rfl, decide_eq_true soon]
  simp only [start, underway, way_of_le _ _ le_rfl]

/-! ## Runs -/

/-- Before a second has passed an easing is on its way. -/
theorem run_early (source target current : K) (early : ∀ now ∈ nows, now < began + 1000) :
    ∃ reached, (underway source target began current).run (nows.map .tick) =
      underway source target began reached := by
  induction nows generalizing current with
  | nil => exact ⟨current, rfl⟩
  | cons now rest ih =>
      rw [List.map_cons, run, List.foldl_cons, step, tick,
        advance_early source target current (early now List.mem_cons_self)]
      exact ih _ fun later member => early later (List.mem_cons_of_mem _ member)

/-- Once a second has passed an easing is at its target and stays there. -/
theorem run_late (late : ∃ now ∈ nows, began + 1000 ≤ now) (current : K) :
    (underway source target began current).run (nows.map .tick) =
      arrived source target began := by
  induction nows generalizing current with
  | nil => simp at late
  | cons now rest ih =>
      rw [List.map_cons, run, List.foldl_cons, step, tick]
      by_cases passed : began + 1000 ≤ now
      · rw [advance_late passed]
        exact run_of_still rfl rest
      · rw [advance_early _ _ _ (not_le.1 passed)]
        refine ih ?_ _
        simpa [passed] using late

/-- Behind the first frame an easing is on its way. -/
theorem run_start_cons (source target now : K) (rest : List K) :
    (start source target).run ((now :: rest).map .tick) =
      (underway source target now source).run (rest.map .tick) := by
  rw [List.map_cons, run, List.foldl_cons, step, tick, advance_first]
  rfl

/-- An easing on its way hands out the values at some of the first times. -/
theorem frames_underway (source target began current : K) (nows : List K) :
    ∃ kept, kept <+: nows ∧ (underway source target began current).frames nows =
      kept.map (way source target began) := by
  induction nows generalizing current with
  | nil => exact ⟨[], List.prefix_rfl, rfl⟩
  | cons now rest ih =>
      by_cases passed : began + 1000 ≤ now
      · refine ⟨[now], ⟨rest, rfl⟩, ?_⟩
        rw [frames, tick, advance_late passed, frames_of_still rfl, List.map_singleton,
          way_of_passed source target passed]
        rfl
      · obtain ⟨kept, first, values⟩ := ih (way source target began now)
        refine ⟨now :: kept, List.prefix_cons_inj now |>.2 first, ?_⟩
        rw [frames, tick, advance_early _ _ _ (not_le.1 passed), values]
        rfl

/-- All values handed out after a start are those of some of the first times. -/
theorem frames_start (source target : K) (nows : List K) :
    ∃ began kept, kept <+: nows ∧
      (start source target).frames nows = kept.map (way source target began) := by
  cases nows with
  | nil => exact ⟨source, [], List.prefix_rfl, rfl⟩
  | cons now rest =>
      obtain ⟨kept, first, values⟩ := frames_underway source target now source rest
      refine ⟨now, now :: kept, List.prefix_cons_inj now |>.2 first, ?_⟩
      rw [frames, tick, advance_first, values, List.map_cons, way_of_le source target le_rfl]
      rfl

/-- The frame behind early ones is the last one exactly if a second has passed. -/
theorem advance_of_early (source target : K) (early : ∀ n ∈ nows, n < nows.headD now + 1000) :
    ∃ v, ((start source target).run (nows.map .tick)).advance now =
      if nows.headD now + 1000 ≤ now then
        ((arrived source target (nows.headD now), some target), false)
      else ((underway source target (nows.headD now) v, some v), true) := by
  cases nows with
  | nil =>
      refine ⟨source, ?_⟩
      rw [List.headD_nil, if_neg (not_le.2 (lt_add_of_pos_right now (by norm_num)))]
      exact advance_first
  | cons began rest =>
      obtain ⟨reached, there⟩ := run_early source target source
        fun n member => early n (List.mem_cons_of_mem _ member)
      refine ⟨way source target began now, ?_⟩
      rw [run_start_cons, List.headD_cons]
      rw [List.headD_cons] at there
      rw [there]
      split
      · rename_i passed
        exact advance_late passed
      · rename_i soon
        exact advance_early _ _ _ (not_le.1 soon)

/-- Once a second has passed since the first frame, an easing is at its target. -/
theorem run_of_late (late : ∃ n ∈ nows, nows.headD now + 1000 ≤ n) :
    (start source target).run (nows.map .tick) = arrived source target (nows.headD now) := by
  obtain ⟨n, member, passed⟩ := late
  cases nows with
  | nil => simp at member
  | cons began rest =>
      rw [List.headD_cons] at passed
      have behind : n ∈ rest := by
        refine (List.mem_cons.1 member).resolve_left fun same => ?_
        subst same
        exact absurd passed (not_le.2 (lt_add_of_pos_right n (by norm_num)))
      rw [run_start_cons, run_late ⟨n, behind, passed⟩, List.headD_cons]

/-- **How an easing runs.**  Whatever happened to an easing before it is started, its first frame
is the source.  All values that it hands out lie between the source and the target, and as long as
the clock does not go back they go from the one toward the other.  The first frame that is a second
or more behind the first of all is at the target and ends the easing; the frames before it ask for
more.  From then on nothing is handed out, no frame is asked for and nothing changes.  An easing
that is started anew from its current value, at any time, does not jump. -/
theorem easing_runs (before : List (Event K)) (source target : K) (nows : List K) (now : K) :
    let started := (atRest : Easing K).run (before ++ [.start source target])
    let e := started.run (nows.map .tick)
    let first := nows.headD now
    let frame := (e.tick now).2
    let more := (e.advance now).2
    (nows = [] → frame = some source) ∧
      (∀ v ∈ started.frames nows, v ∈ Set.uIcc source target) ∧
      (nows.Pairwise (· ≤ ·) →
        (source ≤ target → (started.frames nows).Pairwise (· ≤ ·)) ∧
        (target ≤ source → (started.frames nows).Pairwise (· ≥ ·))) ∧
      ((∀ n ∈ nows, n < first + 1000) →
        frame = some (e.tick now).1.current ∧ more = (e.tick now).1.active ∧
        (now < first + 1000 → more = true) ∧
        (first + 1000 ≤ now → frame = some target ∧ more = false)) ∧
      ((∃ n ∈ nows, first + 1000 ≤ n) →
        e.advance now = ((e, none), false) ∧ e.active = false ∧ e.current = target) ∧
      ∀ aim, (e.retarget aim).current = e.current ∧
        ((e.retarget aim).tick now).2 = some e.current := by
  intro started e first frame more
  have anew : started = start source target := by
    simp only [started, run, List.foldl_append, List.foldl_cons, List.foldl_nil, step]
  have reached : e = (start source target).run (nows.map .tick) := congrArg (run · _) anew
  obtain ⟨began, kept, prefixed, values⟩ := frames_start source target nows
  rw [← anew] at values
  have opening {source target : K} : ((start source target).tick now).2 = some source := by
    rw [tick, advance_first]
  refine ⟨fun none => ?_, fun v member => ?_, fun sorted => ?_, fun early => ?_, fun late => ?_,
    fun aim => ⟨rfl, opening⟩⟩
  · subst none
    exact (congrArg (fun e => (e.tick now).2) reached).trans opening
  · rw [values] at member
    obtain ⟨n, -, rfl⟩ := List.mem_map.1 member
    exact way_mem source target began n
  · have order := sorted.sublist prefixed.sublist
    rw [values, List.pairwise_map, List.pairwise_map]
    exact ⟨fun up => order.imp fun le => (way_mono source target began le).1 up,
      fun down => order.imp fun le => (way_mono source target began le).2 down⟩
  · obtain ⟨v, there⟩ := advance_of_early source target early
    rw [← reached] at there
    have asked : more = (e.tick now).1.active := advance_snd now e
    by_cases passed : first + 1000 ≤ now
    · rw [if_pos passed] at there
      have last : frame = some target := congrArg (·.1.2) there
      refine ⟨last.trans (congrArg (fun made => some made.1.1.current) there).symm, asked,
        fun soon => absurd passed (not_le.2 soon), fun _ => ⟨last, congrArg Prod.snd there⟩⟩
    · rw [if_neg passed] at there
      have here : frame = some v := congrArg (·.1.2) there
      exact ⟨here.trans (congrArg (fun made => some made.1.1.current) there).symm, asked,
        fun _ => congrArg Prod.snd there, fun late => absurd late passed⟩
  · rw [reached, run_of_late late]
    exact ⟨advance_of_still rfl, rfl, rfl⟩

/-- The theorem at an easing that takes the place of another halfway.  A quarter of its time takes
it a sixteenth of its way. -/
theorem easing_runs_anew :
    let started := (atRest : Easing ℚ).run [.start 0 8, .tick 10, .tick 510, .start 4 0]
    let e := started.run [.tick 10000, .tick 10250, .tick 10500]
    started.frames [10000, 10250, 10500] = [4, 15 / 4, 2] ∧
      (started.frames [10000, 10250, 10500]).Pairwise (· ≥ ·) ∧
      (∀ v ∈ started.frames [10000, 10250, 10500], v ∈ Set.uIcc (4 : ℚ) 0) ∧
      (e.advance 10750).2 = true ∧ (e.tick 11000).2 = some 0 ∧ (e.advance 11000).2 = false ∧
      ((e.tick 11000).1.tick 0).2 = none ∧ ((e.tick 11000).1.advance 0).2 = false := by
  have runs (nows : List ℚ) := easing_runs [.start 0 8, .tick 10, .tick 510] 4 0 nows
  have soon : ∀ n ∈ ([10000, 10250, 10500] : List ℚ), n < 10000 + 1000 := by decide +kernel
  obtain ⟨-, between, sorted, early, -⟩ := runs [10000, 10250, 10500] 11000
  obtain ⟨-, -, -, last⟩ := early soon
  obtain ⟨frame, passed⟩ := last (by decide +kernel)
  obtain ⟨-, -, more, -⟩ := (runs [10000, 10250, 10500] 10750).2.2.2.1 soon
  obtain ⟨still, -⟩ := (runs [10000, 10250, 10500, 11000] 0).2.2.2.2.1 (by decide +kernel)
  exact ⟨by decide +kernel, (sorted (by decide +kernel)).2 (by decide +kernel), between,
    more (by decide +kernel), frame, passed, congrArg (·.1.2) still, congrArg Prod.snd still⟩

end Infographic.Easing
