import Knot.Proofs.Jumps.Evaluation
import Knot.Proofs.Reachability

/-!
# Jumps in scope do not escape

Functions let no jump out (`Confinement.callBy`), so a tree in which all jumps are in scope does not end
in a jump. Nor does the body of a function in it, so such a function never refuses a jump. And a machine
that has no other functions sees no refused jump, whatever is called (`Expr.JumpsInside.contained`).
-/

namespace Knot

/-! ## Calls -/

namespace Confinement

open Run (Within)

variable {I : Machine → Prop} {faults : Fault → Prop} (h : Confinement I faults)

section

variable {i : Interpreter} {call : Caller} {fuel : Nat}
  (calls : ∀ f args, Within I faults (fun _ => False) (call f args))
include h

theorem wrapResult (f : PureFunction) (v : Boxed) :
    Within I faults (fun _ => False) (Run.wrapResult f v) := by
  unfold Run.wrapResult
  split
  · split
    · exact (h.addFunction (c := .wrapper v) trivial).bind fun _ _ => .of_pure trivial
    · exact .of_pure trivial
  · exact .of_pure trivial

/-- A call of a function of the table lets no jump out. -/
theorem apply [Host] [Host.IsQuiet] (calls : ∀ f args, Within I faults (fun _ => False) (i.call f args))
    (unary : ∀ op source target v, Within I faults (fun _ => False) (i.unary op source target v))
    {c : Callable} (known : (faults (.unsupported .escapingJump) ∧ ∀ m, I m) ∨ c.InScope)
    (args : List Boxed) : Within I faults (fun _ => False) (Run.apply i fuel c args) := by
  cases c with
  | closure ps body frame context =>
    rw [Run.apply]
    split
    -- the body is in scope, or else the refusal of an escaped jump is allowed for
    · refine (h.quiet (.openFrame (some frame) _)).bind fun inner _ => ?_
      exact h.sealed (known.imp id fun inScope => h.eval calls unary inScope)
    · exact h.quiet (.fail (by rintro ⟨⟩))
  | collector collected missing => exact h.quietOrCollects (.collector collected _ args)
  | thunk result => exact h.quiet (.ite (.of_pure result) (.fail (by rintro ⟨⟩)))
  | wrapper inner => exact calls inner args

include calls

theorem applyPure (f : PureFunction) (args : List Boxed) :
    Within I faults (fun _ => False) (Run.applyPure call f args) := by
  unfold Run.applyPure
  split
  · refine (h.quiet (.coerceAll f.params args)).bind fun values _ => ?_
    refine (h.quiet .askNesting).bind fun _ _ => (h.quiet (.callable f.id)).bind fun c _ => ?_
    cases c with
    | wrapper inner =>
      exact (calls inner values).bind fun v _ => (h.quiet (.read _)).bind fun shown _ =>
        h.wrapResult shown v
    | _ => exact h.quiet (.fail (by rintro ⟨⟩))
  · exact (h.quiet (.read _)).bind fun _ _ => h.quiet (.fail (by rintro ⟨⟩))

omit h in
theorem callAll (chain : List (List Boxed)) :
    ∀ v, Within I faults (fun _ => False) (Run.callAll call v chain) := by
  induction chain with
  | nil => exact fun v => .of_pure trivial
  | cons args rest ih => exact fun v => (calls v args).bind fun w _ => ih w

theorem applyMethod [Host] [Host.IsQuiet] (owner : Boxed) (name : String) (args : List Boxed) :
    Within I faults (fun _ => False) (Run.applyMethod call owner name args) := by
  unfold Run.applyMethod
  split
  · exact callAll calls _ owner
  · split
    · exact calls owner args
    · refine (h.quiet (.lift (Host.IsQuiet.method _ _ _))).bind fun result _ => ?_
      split
      · exact .of_pure trivial
      · exact h.quiet (.box _)

end

variable {unary : Applier}
  (operators : ∀ op source target v, Within I faults (fun _ => False) (unary op source target v))
include h operators

/-- A call lets no jump out, by induction on how deep calls nest. -/
theorem callBy [Host] [Host.IsQuiet] (fuel : Nat) :
    ∀ f args, Within I faults (fun _ => False) (Run.callBy unary fuel f args) := by
  induction fuel with
  | zero => exact fun f args => .exhausted
  | succ fuel ih =>
    intro f args
    unfold Run.callBy
    split
    · exact h.quietOrCollects (Host.IsQuiet.run _ args)
    · exact (h.callable _).bind fun c known => h.apply ih operators known args
    · exact h.applyPure ih _ args
    · exact h.applyMethod ih _ _ args
    · exact h.quiet (.fail (by rintro ⟨⟩))

omit operators

theorem call [Host] [Host.IsQuiet] (fuel : Nat) (f : Boxed) (args : List Boxed) :
    Within I faults (fun _ => False) (Run.call fuel f args) :=
  h.callBy (fun op source target v => h.quiet (.applyUnary op source target v)) fuel f args

theorem evalTree [Host] [Host.IsQuiet] {targets : Nat → Prop} {e : Expr} (jumps : e.JumpsWithin targets)
    (fuel : Nat) (context : Context) (frame : FrameId) :
    Within I faults targets (Run.eval fuel context frame e) :=
  h.eval (h.call fuel) (fun op source target v => h.quiet (.applyUnary op source target v)) jumps

end Confinement

/-! ## Trees in which all jumps are in scope -/

namespace Expr

/-- Whether a tree is the body of a function in a tree. -/
inductive HasBody : Expr → Expr → Prop
  | here (ps : List Expr) (a : Expr) (t : StaticType) : HasBody (lambda ps a t) a
  | inside {e c a : Expr} (child : c ∈ e.children) (has : HasBody c a) : HasBody e a

/-- Jumps are in scope in the bodies of functions if they are in the tree. -/
theorem JumpsWithin.body {targets : Nat → Prop} {e a : Expr} (h : JumpsWithin targets e)
    (has : e.HasBody a) : a.JumpsInside := by
  induction has generalizing targets with
  | here ps a t => exact h.children a List.mem_cons_self
  | inside child _ ih => exact ih (h.children _ child)

end Expr

/-- What may happen between calls: a tree is evaluated in which all jumps are in scope, or the table of
functions is left alone, such as by a change of the settings. -/
inductive Machine.StepsInScope [Host] (m : Machine) : Machine → Prop
  | eval {e : Expr} (inScope : e.JumpsInside) (fuel : Nat) (context : Context) (frame : FrameId) :
      StepsInScope m (Run.eval fuel context frame e m).2
  | other {m' : Machine} (same : m'.functions = m.functions) : StepsInScope m m'

/-- A machine is reached from another by calls and by such steps. -/
def Machine.Reaches [Host] (start m : Machine) : Prop := start.LeadsTo Machine.StepsInScope m

/-- Functions stay in scope. -/
theorem Machine.Reaches.inScope [Host] [Host.IsQuiet] {start m : Machine} (h : start.Reaches m)
    (holds : start.InScope) : m.InScope := by
  refine LeadsTo.keeps h holds (fun m fuel f args holds => ?_) fun m m' step holds => ?_
  · exact (Confinement.inScope.call fuel f args m holds).2
  · cases step with
    | eval inScope fuel context frame =>
      exact (Confinement.inScope.evalTree inScope fuel context frame m holds).2
    | other same => exact Confinement.inScope.same _ _ same holds

/-- What it means for a tree that no jump escapes. -/
structure Expr.Contained [Host] (e : Expr) : Prop where
  /-- Its evaluation does not end in a jump, whatever the frame and the machine. -/
  tree : ∀ fuel context frame m target v, (Run.eval fuel context frame e m).1 ≠ .jump target v
  /-- Its functions never refuse a jump of their own: there is none to refuse. -/
  bodies : ∀ body, e.HasBody body → ∀ fuel context frame,
    Run.sealed (Run.eval fuel context frame body) = Run.eval fuel context frame body
  /-- Where all functions are in scope to begin with, neither it nor any call refuses a jump, at any
  time. -/
  refusals : ∀ start m : Machine, start.InScope → start.Reaches m →
    (∀ fuel context frame,
      (Run.eval fuel context frame e m).1 ≠ .fault (.unsupported .escapingJump)) ∧
    ∀ fuel f args, (Run.call fuel f args m).1 ≠ .fault (.unsupported .escapingJump)

namespace Expr.JumpsInside

variable [Host] [Host.IsQuiet] {e : Expr}

theorem eval_ne_jump (h : e.JumpsInside) (fuel : Nat) (context : Context) (frame : FrameId)
    (m : Machine) (target : Nat) (v : Boxed) :
    (Run.eval fuel context frame e m).1 ≠ .jump target v := by
  intro out
  have among := (Confinement.none.evalTree h fuel context frame m trivial).1
  rw [out] at among
  exact among

theorem sealed_eval (h : e.JumpsInside) (fuel : Nat) (context : Context) (frame : FrameId) :
    Run.sealed (Run.eval fuel context frame e) = Run.eval fuel context frame e := by
  funext m
  unfold Run.sealed
  split
  next t v after out =>
    exact absurd (congrArg Prod.fst out) (h.eval_ne_jump fuel context frame m t v)
  next => rfl

theorem contained (h : e.JumpsInside) : e.Contained where
  tree := h.eval_ne_jump
  bodies _ has := sealed_eval (h.body has)
  refusals start m holds reaches := by
    have inScope := reaches.inScope holds
    refine ⟨fun fuel context frame out => ?_, fun fuel f args out => ?_⟩
    · have among := (Confinement.inScope.evalTree h fuel context frame m inScope).1
      rw [out] at among
      exact among rfl
    · have among := (Confinement.inScope.call fuel f args m inScope).1
      rw [out] at among
      exact among rfl

/-- No jump escapes from a tree in which all jumps are in scope, nor from what a reduction makes of
it. -/
theorem contained_reduce (h : e.JumpsInside) :
    e.Contained ∧ ∀ maxPasses, (e.reduce maxPasses).result.Contained :=
  ⟨h.contained, fun maxPasses => contained (h.reduce maxPasses)⟩

end Expr.JumpsInside

/-- A jump to the end of a block past a function, in whose body a jump ends a loop. -/
def pastLoop : Expr :=
  let done : LabelTarget := ⟨"done", .value .int32, 1⟩
  let stop : LabelTarget := ⟨"stop", .value .int32, 2⟩
  let number (n : Int) : Expr := .constant ⟨.scalar (.wrapped ⟨true, .w32⟩ n), 0⟩ (.value .int32)
  let turn : Expr := .goto .break stop (some (number 1)) .void
  .block [] [.goto .goto done (some (number 7)) .void,
    .lambda [] (.loop turn (some stop) none (.value .int32)) (.func [] (.value .int32)),
    .label done (some (number 0)) (.value .int32)] (.value .int32)

/-- Neither jump escapes, before or after a reduction: the first one makes seven the value. -/
theorem contained_pastLoop :
    pastLoop.JumpsInside ∧ pastLoop.Contained ∧ (pastLoop.reduce 32).result.Contained ∧
    (Run.eval 2 .empty 0 pastLoop (.initial 1)).1 =
      .value ⟨.scalar (.wrapped ⟨true, .w32⟩ 7), 0⟩ := by
  have leaf : ∀ {targets : Nat → Prop} (v : Boxed) (t : StaticType),
      (Expr.constant v t).JumpsWithin targets := fun v t =>
    .node (by rintro k l w u ⟨⟩) (List.forall_mem_nil _)
  have inScope : pastLoop.JumpsInside := by
    refine .node (by rintro k l v t ⟨⟩) (List.forall_mem_cons.2 ⟨?_, List.forall_mem_cons.2
      ⟨?_, List.forall_mem_singleton.2 ?_⟩⟩)
    · refine .node ?_ (List.forall_mem_singleton.2 (leaf _ _))
      rintro k l v t ⟨⟩
      exact .inr ⟨_, List.mem_cons_of_mem _ (List.mem_cons_of_mem _ List.mem_cons_self), rfl⟩
    · refine .node (by rintro k l v t ⟨⟩) (List.forall_mem_singleton.2 ?_)
      refine .node (by rintro k l v t ⟨⟩) (List.forall_mem_singleton.2 ?_)
      refine .node ?_ (List.forall_mem_singleton.2 (leaf _ _))
      rintro k l v t ⟨⟩
      exact .inr (.inl rfl)
    · exact .node (by rintro k l v t ⟨⟩) (List.forall_mem_singleton.2 (leaf _ _))
  obtain ⟨whole, reduced⟩ := inScope.contained_reduce
  exact ⟨inScope, whole, reduced 32, rfl⟩

end Knot
