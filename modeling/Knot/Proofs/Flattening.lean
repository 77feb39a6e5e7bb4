import Knot.Proofs.Shedding.Blocks
import Knot.Proofs.Shedding.Relation

/-!
# The rules about blocks

A reduction replaces a block of one expression by that expression, and splices a block into the block
around it. Neither can be told from how a tree runs, whatever its parts do: each may change the machine,
and may end in a value, in a fault or in a jump to any label.

Steps of a block that have been spliced in (`Step.Splices`) are no labels, so a jump goes on behind the
same step as before, also if it goes backwards or if several steps are labels of one number, and what the
inner block would have let out meets the outer one as it is (`Step.Splices.runBlock`). That carries over
to trees whose blocks are run and whose other nodes do anything at all (`Expr.interpret`), of which the
evaluation of trees is one case (`Expr.interpret_eval`).
-/

namespace Knot

/-! ## Steps -/

namespace Step

/-- Steps, and the same steps with some blocks among them spliced: blocks that have steps, none of them a
label. -/
inductive Splices (fuel : Nat) : List Step → List Step → Prop
  | nil : Splices fuel [] []
  | keep (s : Step) {ss ts : List Step} (rest : Splices fuel ss ts) : Splices fuel (s :: ss) (s :: ts)
  | splice {inner ss ts : List Step} (some_steps : inner ≠ [])
      (unlabelled : ∀ s ∈ inner, s.label = none) (rest : Splices fuel ss ts) :
      Splices fuel (⟨none, runBlock (fuel + 1) inner⟩ :: ss) (inner ++ ts)

namespace Splices

variable {fuel : Nat} {ss ts : List Step}

/-- The steps run alike one after another. -/
theorem runAll (spliced : Splices fuel ss ts) (v : Boxed) : Step.runAll ss v = Step.runAll ts v := by
  induction spliced generalizing v with
  | nil => rfl
  | keep s rest ih => simp only [Step.runAll, ih]
  | @splice inner ss ts some_steps unlabelled rest ih =>
    have block : runBlock (fuel + 1) inner = Step.runAll inner Boxed.none :=
      runFrom_of_unlabelled unlabelled fuel inner Boxed.none
    have following : (fun w => Step.runAll ss w) = fun w => Step.runAll ts w := funext ih
    rw [Step.runAll, block, runAll_append some_steps, following]

/-- A jump leaves both blocks, or goes on in both behind the same step. -/
theorem behind (spliced : Splices fuel ss ts) (target : Nat) :
    (after? target ss = none ∧ after? target ts = none) ∨
    ∃ ss' ts', after? target ss = some ss' ∧ after? target ts = some ts' ∧
      Splices fuel ss' ts' := by
  induction spliced with
  | nil => exact .inl ⟨rfl, rfl⟩
  | @keep s ss ts rest ih =>
    -- the last label of a number counts, so the later steps are asked first
    rcases ih with ⟨left, right⟩ | ⟨ss', ts', left, right, spliced⟩
    · by_cases here : s.label = some target
      · exact .inr ⟨ss, ts, by simp [after?, left, here], by simp [after?, right, here], rest⟩
      · exact .inl ⟨by simp [after?, left, here], by simp [after?, right, here]⟩
    · exact .inr ⟨ss', ts', by simp [after?, left], by simp [after?, right], spliced⟩
  | @splice inner ss ts some_steps unlabelled rest ih =>
    have block : ∀ s ∈ [(⟨none, Step.runBlock (fuel + 1) inner⟩ : Step)], s.label = none :=
      List.forall_mem_singleton.2 rfl
    have single : after? target (⟨none, Step.runBlock (fuel + 1) inner⟩ :: ss) = after? target ss :=
      after?_append block ss
    rw [single, after?_append unlabelled]
    exact ih

/-- From any step on, and after any number of jumps, the two blocks run alike. -/
theorem runFrom {rest rest' : List Step} (spliced : Splices fuel ss ts)
    (part : Splices fuel rest rest') (jumps : Nat) (v : Boxed) :
    Step.runFrom ss jumps rest v = Step.runFrom ts jumps rest' v := by
  induction jumps generalizing rest rest' v with
  | zero => rfl
  | succ jumps ih =>
    rw [runFrom_succ, runFrom_succ, part.runAll v]
    congr 1
    funext o
    cases o with
    | jump target w =>
      rcases spliced.behind target with ⟨left, right⟩ | ⟨ss', ts', left, right, part⟩
      · simp only [left, right]
      · simp only [left, right]
        exact ih part w
    | _ => rfl

/-- A block runs as the block with the spliced steps does. -/
theorem runBlock (spliced : Splices fuel ss ts) (jumps : Nat) :
    Step.runBlock jumps ss = Step.runBlock jumps ts := spliced.runFrom spliced jumps Boxed.none

end Splices

end Step

/-! ## Trees -/

/-- What the nodes that are no blocks do when they are run in a frame. -/
abbrev Conduct := FrameId → Expr → Run Boxed

/-- The nodes put their numbers in the journal before they do what they do. -/
def Conduct.noting (number : Expr → Nat) (conduct : Conduct) : Conduct := fun frame e => do
  Run.record (.reported [⟨.none, number e⟩])
  conduct frame e

namespace Expr

mutual

/-- Runs the blocks of a tree; the other nodes do what they do. -/
def interpret (conduct : Conduct) (fuel : Nat) (frame : FrameId) : Expr → Run Boxed
  | block vs es _ => do
    let inner ← Run.blockFrame frame vs
    Step.runBlock fuel (stepsBy conduct fuel inner es)
  | e => conduct frame e

/-- The steps of a block. -/
def stepsBy (conduct : Conduct) (fuel : Nat) (frame : FrameId) : List Expr → List Step
  | [] => []
  | e :: es => ⟨e.labelUid?, interpret conduct fuel frame e⟩ :: stepsBy conduct fuel frame es

end

variable (conduct : Conduct) (fuel : Nat) (frame : FrameId)

theorem stepsBy_eq_map (es : List Expr) :
    stepsBy conduct fuel frame es =
      es.map fun e => ⟨e.labelUid?, e.interpret conduct fuel frame⟩ := by
  induction es with
  | nil => rfl
  | cons e es ih =>
    rw [List.map_cons, ← ih]
    rfl

theorem stepsBy_append (es fs : List Expr) :
    stepsBy conduct fuel frame (es ++ fs) =
      stepsBy conduct fuel frame es ++ stepsBy conduct fuel frame fs := by
  simp only [stepsBy_eq_map, List.map_append]

/-- If the other nodes are evaluated, the whole tree is. -/
theorem interpret_eval [Host] (i : Interpreter) (context : Context) (e : Expr) :
    ∀ frame, e.interpret (fun frame e => e.eval i fuel context frame) fuel frame =
      e.eval i fuel context frame := by
  induction e using of_children with
  | node e ih =>
    intro frame
    cases e with
    | block vs es t =>
      have steps_eq (inner : FrameId) :
          stepsBy (fun frame e => e.eval i fuel context frame) fuel inner es =
            steps i fuel context inner es := by
        rw [stepsBy_eq_map, steps_eq_map]
        exact List.map_congr_left fun e member => by rw [ih e member inner]
      simp only [interpret, eval, steps_eq]
    | _ => rfl

/-- The steps of a block before and after the blocks among its expressions are spliced. -/
theorem splices_splice (outer : StaticType) (es : List Expr) :
    Step.Splices fuel (stepsBy conduct (fuel + 1) frame es)
      (stepsBy conduct (fuel + 1) frame (splice outer es)) := by
  induction es with
  | nil => exact .nil
  | cons e es ih =>
    rw [splice]
    cases found : spliced? outer es.isEmpty e with
    | none => exact .keep _ ih
    | some inner =>
      obtain ⟨t, rfl, some_steps, unlabelled⟩ := spliced?_eq_some found
      have opened : (block [] inner t).interpret conduct (fuel + 1) frame =
          Step.runBlock (fuel + 1) (stepsBy conduct (fuel + 1) frame inner) := by
        rw [interpret]
        rfl
      -- a block is spliced only if none of its steps is a label, so no jump finds another place
      have unlabelled' : ∀ s ∈ stepsBy conduct (fuel + 1) frame inner, s.label = none := by
        rw [stepsBy_eq_map]
        intro s inside
        obtain ⟨f, member, rfl⟩ := List.mem_map.1 inside
        exact unlabelled f member
      have some_steps' : stepsBy conduct (fuel + 1) frame inner ≠ [] := by
        rw [stepsBy_eq_map]
        simpa using some_steps
      rw [Option.getD_some, stepsBy_append, stepsBy, opened]
      exact .splice some_steps' unlabelled' ih

/-- A block in which blocks have been spliced runs as before. -/
theorem interpret_splice (vs : List Parameter) (es : List Expr) (t : StaticType) :
    (block vs es t).interpret conduct (fuel + 1) frame =
      (block vs (splice t es) t).interpret conduct (fuel + 1) frame := by
  have alike (inner : FrameId) :=
    (splices_splice conduct fuel inner t es).runBlock (fuel + 1)
  simp only [interpret, alike]

/-- A block of one expression runs as the expression does, unless it is a label: that would catch its
own jumps. -/
theorem interpret_single {e : Expr} (unlabelled : e.isLabel = false) (t : StaticType) :
    (block [] [e] t).interpret conduct (fuel + 1) frame =
      e.interpret conduct (fuel + 1) frame := by
  have no_label : ∀ s ∈ stepsBy conduct (fuel + 1) frame [e], s.label = none :=
    List.forall_mem_singleton.2 (labelUid?_eq_none.2 unlabelled)
  have opened : (block [] [e] t).interpret conduct (fuel + 1) frame =
      Step.runBlock (fuel + 1) (stepsBy conduct (fuel + 1) frame [e]) := by
    rw [interpret]
    rfl
  rw [opened, Step.runBlock, Step.runFrom_of_unlabelled no_label, stepsBy, stepsBy, Step.runAll]
  exact bind_pure _

/-- A tree that runs as another one does, whatever the nodes that are no blocks do. -/
structure RunsAs [Host] (e r : Expr) : Prop where
  /-- The two end in the same way, in a value, a fault or a jump, and leave the same machine behind. -/
  runs : ∀ (conduct : Conduct) (fuel : Nat) (frame : FrameId) (m : Machine),
    e.interpret conduct (fuel + 1) frame m = r.interpret conduct (fuel + 1) frame m
  /-- The nodes run in the same order, as their numbers in the journal show. -/
  order : ∀ (number : Expr → Nat) (conduct : Conduct) (fuel : Nat) (frame : FrameId) (m : Machine),
    (e.interpret (conduct.noting number) (fuel + 1) frame m).2.journal =
      (r.interpret (conduct.noting number) (fuel + 1) frame m).2.journal
  /-- The two evaluate alike. -/
  evaluates : ∀ (i : Interpreter) (fuel : Nat) (context : Context) (frame : FrameId),
    e.eval i (fuel + 1) context frame = r.eval i (fuel + 1) context frame

/-- Where one of the two rules about blocks applies, the result runs as the block does. -/
theorem runsAs_of_blockRule [Host] {e r : Expr} (applies : e.singleBlock? = some r ∨ e.flattened? = some r) :
    e.RunsAs r := by
  have runs (conduct : Conduct) (fuel : Nat) (frame : FrameId) :
      e.interpret conduct (fuel + 1) frame = r.interpret conduct (fuel + 1) frame := by
    rcases applies with single | flat
    · obtain ⟨rfl, unlabelled⟩ := singleBlock?_eq_some single
      exact interpret_single conduct fuel frame unlabelled _
    · obtain ⟨vs, es, t, rfl, rfl⟩ := flattened?_eq_some flat
      exact interpret_splice conduct fuel frame vs es t
  constructor
  case runs => exact fun conduct fuel frame m => congrFun (runs conduct fuel frame) m
  case order =>
    intro number conduct fuel frame m
    rw [runs]
  case evaluates =>
    intro i fuel context frame
    rw [← interpret_eval, ← interpret_eval, runs]

/-- A label. -/
def again : LabelTarget := ⟨"again", .void, 1⟩

/-- A block that is a label twice, with a block between the two that jumps to it. -/
def twoLabels : Expr :=
  .block [] [.label again none .void, .block [] [.goto .goto again none .void] .void,
    .label again none .void] .void

/-- The jump stands in the outer block when the inner one is spliced, and goes on behind the second
label in both of them. -/
theorem runsAs_of_blockRule_twoLabels :
    twoLabels.flattened? = some (.block [] [.label again none .void, .goto .goto again none .void,
      .label again none .void] .void) ∧
    twoLabels.RunsAs (.block [] [.label again none .void, .goto .goto again none .void,
      .label again none .void] .void) :=
  ⟨rfl, runsAs_of_blockRule (.inr rfl)⟩

end Expr

end Knot
