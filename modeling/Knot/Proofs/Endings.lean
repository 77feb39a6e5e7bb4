import Knot.Eval

/-!
# How runs end

`Run.Ends I faults jumps values x` says of a run `x`: started on a machine of which `I` holds, it
leaves one of which `I` holds, and it ends in a value among `values`, in a fault among `faults`, in
a jump among `jumps`, or out of fuel.

The judgement passes through the ways to compose runs: one after another (`Run.Ends.bind`), the
steps of a block with the jumps that it catches (`Run.Ends.runFrom`), and a loop
(`Run.Ends.loop`). Each is proved once here, whatever `I` is.
-/

namespace Knot

/-- A value among `values`, a fault among `faults`, a jump among `jumps`, or no end at all. -/
def Outcome.Among {α : Type} (faults : Fault → Prop) (jumps : Nat → Boxed → Prop)
    (values : α → Prop) : Outcome α → Prop
  | .value a => values a
  | .fault f => faults f
  | .jump target v => jumps target v
  | .exhausted => True

/-- More may be allowed for. -/
theorem Outcome.Among.imp {α : Type} {faults faults' : Fault → Prop}
    {jumps jumps' : Nat → Boxed → Prop} {values values' : α → Prop} {o : Outcome α}
    (h : o.Among faults jumps values) (hf : ∀ f, faults f → faults' f)
    (hj : ∀ target v, jumps target v → jumps' target v) (hv : ∀ a, values a → values' a) :
    o.Among faults' jumps' values' := by
  cases o with
  | value a => exact hv a h
  | fault f => exact hf f h
  | jump target v => exact hj target v h
  | exhausted => trivial

namespace Run

/-- From `I` to `I`, and to an expected outcome. -/
def Ends {α : Type} (I : Machine → Prop) (faults : Fault → Prop) (jumps : Nat → Boxed → Prop)
    (values : α → Prop) (x : Run α) : Prop :=
  ∀ m, I m → (x m).1.Among faults jumps values ∧ I (x m).2

variable {α β : Type} {I : Machine → Prop} {faults : Fault → Prop} {jumps : Nat → Boxed → Prop}
  {values : α → Prop} {results : β → Prop}

namespace Ends

theorem of_pure {a : α} (h : values a) : Ends I faults jumps values (pure a) :=
  fun _ holds => ⟨h, holds⟩

theorem fail {f : Fault} (h : faults f) : Ends I faults jumps values (Run.fail f) :=
  fun _ holds => ⟨h, holds⟩

theorem jump {target : Nat} {v : Boxed} (h : jumps target v) :
    Ends I faults jumps values (Run.jump target v) :=
  fun _ holds => ⟨h, holds⟩

theorem exhausted : Ends I faults jumps values Run.exhausted :=
  fun _ holds => ⟨trivial, holds⟩

/-- One run after another, the second on every value that the first may end in. -/
theorem bind {x : Run α} {f : α → Run β} (first : Ends I faults jumps values x)
    (second : ∀ a, values a → Ends I faults jumps results (f a)) :
    Ends I faults jumps results (x >>= f) := by
  intro m holds
  obtain ⟨among, kept⟩ := first m holds
  show Outcome.Among faults jumps results (Run.bind x f m).1 ∧ I (Run.bind x f m).2
  unfold Run.bind
  rcases ended : x m with ⟨outcome, after⟩
  rw [ended] at among kept
  cases outcome with
  | value a => exact second a among after kept
  | fault e => exact ⟨among, kept⟩
  | jump t v => exact ⟨among, kept⟩
  | exhausted => exact ⟨among, kept⟩

/-- Less may be claimed of the values. -/
theorem weaken {wider : α → Prop} {x : Run α} (h : Ends I faults jumps values x)
    (implied : ∀ a, values a → wider a) : Ends I faults jumps wider x := by
  intro m holds
  obtain ⟨among, kept⟩ := h m holds
  exact ⟨among.imp (fun _ => id) (fun _ _ => id) implied, kept⟩

/-! ## Blocks -/

/-- What is required of the steps of a block so that the block ends in one of `values`: the last
step does. -/
theorem runAll {values : Boxed → Prop} :
    ∀ {steps : List Step} {v : Boxed},
      (∀ s ∈ steps, Ends I faults jumps (fun _ => True) s.run) →
      (∀ s, steps.getLast? = some s → Ends I faults jumps values s.run) →
      (steps = [] → values v) → Ends I faults jumps values (Step.runAll steps v) := by
  intro steps
  induction steps with
  | nil => intro v _ _ empty; exact of_pure (empty rfl)
  | cons s rest ih =>
    intro v all last _
    unfold Step.runAll
    cases rest with
    | nil =>
      have only := last s rfl
      refine bind only fun w result => ?_
      exact of_pure result
    | cons next more =>
      refine bind (all s List.mem_cons_self) fun w _ => ?_
      refine ih (fun s' inside => all s' (List.mem_cons_of_mem s inside)) ?_ (by simp)
      intro s' ending
      exact last s' (by rw [List.getLast?_cons_cons]; exact ending)

end Ends

end Run

/-- The steps behind a label are the end of the block after a step with that label. -/
theorem Step.after?_eq_some {target : Nat} {steps behind : List Step}
    (found : after? target steps = some behind) :
    ∃ before s, steps = before ++ s :: behind ∧ s.label = some target := by
  induction steps with
  | nil => cases found
  | cons s rest ih =>
    unfold after? at found
    split at found
    next later =>
      cases found
      obtain ⟨before, s', rfl, labelled⟩ := ih later
      exact ⟨s :: before, s', rfl, labelled⟩
    next =>
      split at found
      next labelled =>
        cases found
        exact ⟨[], s, rfl, labelled⟩
      next => cases found

namespace Run.Ends

variable {I : Machine → Prop} {faults : Fault → Prop} {jumps : Nat → Boxed → Prop}
  {values : Boxed → Prop}

/-- A block ends in what its last step ends in, or in what a jump to a label at its end takes
along. -/
theorem runFrom {all : List Step}
    (every : ∀ s ∈ all, Ends I faults jumps (fun _ => True) s.run)
    (last : ∀ s, all.getLast? = some s → Ends I faults jumps values s.run)
    (landing : ∀ s target v, all.getLast? = some s → s.label = some target → jumps target v →
      values v) :
    ∀ (fuel : Nat) {rest : List Step} {v : Boxed}, (∃ before, all = before ++ rest) →
      (rest = [] → values v) → Ends I faults jumps values (Step.runFrom all fuel rest v) := by
  intro fuel
  induction fuel with
  | zero => intro rest v _ _; exact exhausted
  | succ fuel ih =>
    intro rest v ⟨before, part⟩ empty m holds
    have straight : Ends I faults jumps values (Step.runAll rest v) := by
      refine runAll (fun s inside => every s (by rw [part]; simp [inside])) ?_ empty
      intro s ending
      exact last s (by rw [part, List.getLast?_append, ending]; rfl)
    obtain ⟨among, kept⟩ := straight m holds
    unfold Step.runFrom
    rcases ended : Step.runAll rest v m with ⟨outcome, after⟩
    rw [ended] at among kept
    cases outcome with
    | value w => exact ⟨among, kept⟩
    | fault e => exact ⟨among, kept⟩
    | exhausted => exact ⟨among, kept⟩
    | jump target w =>
      simp only
      split
      next behind found =>
        -- the block goes on behind its label, if need be with the value of the jump
        obtain ⟨front, s, whole, labelled⟩ := Step.after?_eq_some found
        refine ih ⟨front ++ [s], by rw [whole]; simp⟩ ?_ after kept
        intro ending
        subst ending
        exact landing s target w (by rw [whole]; simp) labelled among
      next => exact ⟨among, kept⟩

/-! ## Loops -/

/-- A loop ends in what a jump to its break label takes along. -/
theorem loop {body : Run Boxed} {breakLabel continueLabel : Option Nat}
    (turn : Ends I faults jumps (fun _ => True) body)
    (landing : ∀ target v, breakLabel = some target → jumps target v → values v) :
    ∀ fuel, Ends I faults jumps values (Run.loop body breakLabel continueLabel fuel) := by
  intro fuel
  induction fuel with
  | zero => exact exhausted
  | succ fuel ih =>
    intro m holds
    obtain ⟨among, kept⟩ := turn m holds
    unfold Run.loop
    rcases ended : body m with ⟨outcome, after⟩
    rw [ended] at among kept
    cases outcome with
    | value w => exact ih after kept
    | fault e => exact ⟨among, kept⟩
    | exhausted => exact ⟨among, kept⟩
    | jump target w =>
      simp only
      split
      next broken => exact ⟨landing target w broken among, kept⟩
      next =>
        split
        next => exact ih after kept
        next => exact ⟨among, kept⟩

end Run.Ends

end Knot
