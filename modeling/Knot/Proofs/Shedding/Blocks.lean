import Knot.Proofs.Shedding.Primitives

/-!
# Comparing blocks and loops

The steps of a block compare with those of the block in which a step has been replaced by several steps
(`Phase.Alike`). As none of these is a label, a jump goes on behind the same step in both blocks
(`Phase.Alike.behind`), and so the two blocks compare, with no less fuel for the second one
(`Phase.Alike.runFrom`). Loops compare if their bodies do.
-/

namespace Knot

/-! ## Steps -/

namespace Step

/-- Steps after other steps. -/
theorem runAll_append {inner : List Step} (some_steps : inner ≠ []) (rest : List Step) (v : Boxed) :
    runAll (inner ++ rest) v = runAll inner Boxed.none >>= runAll rest := by
  induction inner generalizing v with
  | nil => exact absurd rfl some_steps
  | cons s inner ih =>
    rw [List.cons_append, runAll, runAll, bind_assoc]
    congr 1
    funext w
    cases inner with
    | nil => rfl
    | cons s' inner => rw [ih (List.cons_ne_nil _ _), runAll, runAll]

/-- No jump goes on behind steps without labels. -/
theorem after?_append {target : Nat} {inner : List Step} (unlabelled : ∀ s ∈ inner, s.label = none)
    (rest : List Step) : after? target (inner ++ rest) = after? target rest := by
  induction inner with
  | nil => rfl
  | cons s inner ih =>
    obtain ⟨first, others⟩ := List.forall_mem_cons.1 unlabelled
    rw [List.cons_append, after?, ih others, first]
    cases after? target rest <;> simp

/-- Steps without labels catch no jump. -/
theorem runFrom_of_unlabelled {all : List Step} (unlabelled : ∀ s ∈ all, s.label = none)
    (fuel : Nat) (rest : List Step) (v : Boxed) : runFrom all (fuel + 1) rest v = runAll rest v := by
  have nowhere : ∀ target, after? target all = none := fun target => by
    have none_left : after? target (all ++ []) = after? target [] := after?_append unlabelled []
    simpa [after?] using none_left
  funext m
  rw [runFrom_succ]
  unfold Run.onward
  rcases runAll rest v m with ⟨- | - | - | -, after⟩
  case jump target w => simp only [nowhere]; rfl
  all_goals rfl

end Step

/-! ## Phases -/

/-- A step of a block, the run of which is a probe. -/
structure Phase where
  label : Option Nat
  run : Probe Boxed

namespace Phase

/-- The step for what the probe halts with. -/
def step (halt : Option Machine) (p : Phase) : Step := ⟨p.label, p.run halt⟩

variable {d : Direction}

/-- Steps that compare one by one, or one with several that are no labels. -/
inductive Alike (d : Direction) : List Phase → List Phase → Prop
  | nil : Alike d [] []
  | cons {p q ps qs} (same : p.label = q.label) (run : Probe.Sim d p.run q.run)
      (rest : Alike d ps qs) : Alike d (p :: ps) (q :: qs)
  | severalSecond {p inner ps qs} (unlabelled : p.label = none) (some_steps : inner ≠ [])
      (unlabelled' : ∀ q ∈ inner, q.label = none)
      (run : Probe.Sim d p.run fun halt => Step.runAll (inner.map (step halt)) Boxed.none)
      (rest : Alike d ps qs) : Alike d (p :: ps) (inner ++ qs)
  | severalFirst {q inner ps qs} (unlabelled : q.label = none) (some_steps : inner ≠ [])
      (unlabelled' : ∀ p ∈ inner, p.label = none)
      (run : Probe.Sim d (fun halt => Step.runAll (inner.map (step halt)) Boxed.none) q.run)
      (rest : Alike d ps qs) : Alike d (inner ++ ps) (q :: qs)

theorem runAll_append {inner : List Phase} (some_steps : inner ≠ []) (rest : List Phase) (v : Boxed)
    (halt : Option Machine) :
    Step.runAll ((inner ++ rest).map (step halt)) v =
      Step.runAll (inner.map (step halt)) Boxed.none >>= Step.runAll (rest.map (step halt)) := by
  rw [List.map_append]
  exact Step.runAll_append (by simpa using some_steps) _ v

theorem after?_append {target : Nat} {inner : List Phase} (unlabelled : ∀ p ∈ inner, p.label = none)
    (rest : List Phase) (halt : Option Machine) :
    Step.after? target ((inner ++ rest).map (step halt)) =
      Step.after? target (rest.map (step halt)) := by
  rw [List.map_append]
  refine Step.after?_append (fun s inside => ?_) _
  obtain ⟨p, member, rfl⟩ := List.mem_map.1 inside
  exact unlabelled p member

namespace Alike

/-- Steps one after another. -/
theorem runAll {ps qs : List Phase} (h : Alike d ps qs) (v : Boxed) :
    Probe.Sim d (fun halt => Step.runAll (ps.map (step halt)) v) fun halt =>
      Step.runAll (qs.map (step halt)) v := by
  induction h generalizing v with
  | nil => exact .pure v
  | cons _ run _ ih => exact .bind run ih
  | severalSecond _ some_steps _ run _ ih =>
    simp only [runAll_append some_steps]
    exact .bind run ih
  | severalFirst _ some_steps _ run _ ih =>
    simp only [runAll_append some_steps]
    exact .bind run ih

/-- A jump goes on nowhere in both blocks, or behind steps that compare. -/
theorem behind {ps qs : List Phase} (h : Alike d ps qs) (target : Nat) :
    (∀ halt, Step.after? target (ps.map (step halt)) = none ∧
      Step.after? target (qs.map (step halt)) = none) ∨
    ∃ ps' qs', Alike d ps' qs' ∧ ∀ halt,
      Step.after? target (ps.map (step halt)) = some (ps'.map (step halt)) ∧
      Step.after? target (qs.map (step halt)) = some (qs'.map (step halt)) := by
  induction h with
  | nil => exact .inl fun _ => ⟨rfl, rfl⟩
  | @cons p q ps qs same run rest ih =>
    -- a label counts where it stands last, so the steps behind are searched first
    rcases ih with nowhere | ⟨ps', qs', alike, found⟩
    · by_cases here : p.label = some target
      · refine .inr ⟨ps, qs, rest, fun halt => ?_⟩
        simp [Step.after?, nowhere halt, step, ← same, here]
      · refine .inl fun halt => ?_
        simp [Step.after?, nowhere halt, step, ← same, here]
    · refine .inr ⟨ps', qs', alike, fun halt => ?_⟩
      simp [Step.after?, found halt]
  -- a step that became several, and these several, have no labels
  | @severalSecond p inner ps qs unlabelled _ unlabelled' _ _ ih =>
    have single : ∀ halt, Step.after? target ((p :: ps).map (step halt)) =
        Step.after? target (ps.map (step halt)) :=
      @after?_append target [p] (by simpa using unlabelled) ps
    simpa only [single, after?_append unlabelled'] using ih
  | @severalFirst q inner ps qs unlabelled _ unlabelled' _ _ ih =>
    have single : ∀ halt, Step.after? target ((q :: qs).map (step halt)) =
        Step.after? target (qs.map (step halt)) :=
      @after?_append target [q] (by simpa using unlabelled) qs
    simpa only [single, after?_append unlabelled'] using ih

/-- The steps of a block, with the jumps that it catches. -/
theorem runFrom {ps qs : List Phase} (all : Alike d ps qs) {n k : Nat} (le : n ≤ k)
    {rest rest' : List Phase} (part : Alike d rest rest') (v : Boxed) :
    Probe.Sim d (fun halt => Step.runFrom (ps.map (step halt)) n (rest.map (step halt)) v) fun halt =>
      Step.runFrom (qs.map (step halt)) k (rest'.map (step halt)) v := by
  induction n generalizing k rest rest' v with
  | zero => exact .exhausted _
  | succ n ih =>
    obtain ⟨k, rfl⟩ : ∃ j, k = j + 1 := ⟨k - 1, by omega⟩
    simp only [Step.runFrom_succ]
    refine .onward (part.runAll v) fun o _ => ?_
    cases o with
    | jump target w =>
      rcases all.behind target with nowhere | ⟨ps', qs', alike, found⟩
      · simp only [nowhere]
        exact .jump target w
      · simp only [found]
        exact ih (by omega) alike w
    | _ => exact .done _

end Alike

end Phase

/-! ## Loops -/

/-- A loop, with no less fuel for the second one. -/
theorem Probe.Sim.loop {d : Direction} {x y : Probe Boxed} (body : Sim d x y)
    (breakLabel continueLabel : Option Nat) {n k : Nat} (le : n ≤ k) :
    Sim d (fun halt => Run.loop (x halt) breakLabel continueLabel n) fun halt =>
      Run.loop (y halt) breakLabel continueLabel k := by
  induction n generalizing k with
  | zero => exact exhausted _
  | succ n ih =>
    -- one side may have more fuel, which it keeps in each turn
    obtain ⟨k, rfl⟩ : ∃ j, k = j + 1 := ⟨k - 1, by omega⟩
    simp only [Run.loop_succ]
    refine onward body fun o _ => ?_
    cases o with
    | value v => exact ih (by omega)
    | jump target v =>
      simp only
      split
      · exact pure v
      · split
        · exact ih (by omega)
        · exact jump target v
    | _ => exact done _

end Knot
