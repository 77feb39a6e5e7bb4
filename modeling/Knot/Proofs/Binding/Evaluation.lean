import Knot.Proofs.Binding.Runs

/-!
# Evaluation that keeps a variable bound

A tree that spares a variable, or from whose frame it is not seen, keeps its binding when it is evaluated
(`Run.Keeps.eval`), if calls do; and calls do, whatever is called, since no function of the machine can
assign to the variable (`Run.Keeps.call`).
-/

namespace Knot.Run.Keeps

open Binding (Spared SparedBy)

/-! ## Trees -/

section

variable [Host] {b : Binding} {start : Machine} {frame : FrameId} {i : Interpreter} {fuel : Nat}
  {context : Context}

theorem evalAll {es : List Expr} (each : ∀ e ∈ es, Keeps b start (e.eval i fuel context frame)) :
    Keeps b start (Expr.evalAll i fuel context frame es) := by
  induction es with
  | nil => exact of_pure []
  | cons e es ih =>
    obtain ⟨first, rest⟩ := List.forall_mem_cons.1 each
    exact first.bind fun v => (ih rest).bind fun vs => of_pure (v :: vs)

theorem evalOption {d : Option Expr}
    (each : ∀ e ∈ d.toList, Keeps b start (e.eval i fuel context frame)) :
    Keeps b start (Expr.evalOption i fuel context frame d) := by
  cases d with
  | none => exact of_pure Boxed.none
  | some e => exact each e List.mem_cons_self

theorem runBlock {es : List Expr} (each : ∀ e ∈ es, Keeps b start (e.eval i fuel context frame)) :
    Keeps b start (Step.runBlock fuel (Expr.steps i fuel context frame es)) := by
  have steps : ∀ s ∈ Expr.steps i fuel context frame es, Keeps b start s.run := by
    intro s inside
    rw [Expr.steps_eq_map] at inside
    obtain ⟨e, member, rfl⟩ := List.mem_map.1 inside
    exact each e member
  exact runFrom steps fuel Boxed.none steps

/-- What is evaluated of a call that is put off. -/
theorem putOff {e : Expr} (each : ∀ c ∈ e.children, Keeps b start (c.eval i fuel context frame)) :
    Keeps b start (e.putOff i fuel context frame) := by
  cases e with
  | invoke f args t =>
    have callee := each f List.mem_cons_self
    have arguments := evalAll fun a member => each a (List.mem_cons_of_mem _ member)
    exact callee.bind fun function => arguments.bind fun values => of_pure _
  | cached f a t cache =>
    have callee := each f List.mem_cons_self
    have argument := each a (List.mem_cons_of_mem _ List.mem_cons_self)
    exact callee.bind fun function => argument.bind fun v => of_pure _
  | _ => exact fail _

omit [Host] in
/-- A closure may be made where the body may be evaluated, but for what its parameters hide. -/
theorem closure {ps : List Expr} {a : Expr} {t : StaticType}
    (spared : Spared b start frame (.lambda ps a t)) :
    Keeps b start (Run.closure context frame ps a) := by
  unfold Run.closure
  split
  next xs parameters =>
    refine newFunction ⟨spared.inside, fun unbound seen => ?_⟩
    rcases (spared.tree seen).body with ⟨x, declared, same⟩ | free
    · have bound := Expr.mem_of_mapM_parameter? parameters declared
      exact absurd (List.mem_map.2 ⟨x, bound, same⟩) unbound
    · exact free
  next => exact fail _

end

section

variable {b : Binding} {i : Interpreter}
  (calls : ∀ start f args, Keeps b start (i.call f args))
  (unary : ∀ start op source target v, Keeps b start (i.unary op source target v))
include calls

theorem deferred {start : Machine} (call : Deferred) : Keeps b start (call.run i) := by
  cases call with
  | call function values => exact calls start function values
  | cached cache function argument => exact lookupOrCompute (calls start function [argument])

include unary

/-- A node keeps the binding if its children do, also where a child is put off. -/
theorem node [Host] [Host.IsApart] {start : Machine} {fuel : Nat} {context : Context} {frame : FrameId}
    {e : Expr} (spared : Spared b start frame e)
    (inside : ∀ c ∈ e.children, ∀ next inner, Spared b next inner c →
      Keeps b next (c.eval i fuel context inner))
    (later : ∀ c ∈ e.children, Spared b start frame c → Keeps b start (c.putOff i fuel context frame)) :
    Keeps b start (e.eval i fuel context frame) := by
  -- a closure is the only node of which a part waits for a frame of its own
  have below (other : ∀ ps a t, e ≠ .lambda ps a t) :
      ∀ c ∈ e.children, Keeps b start (c.eval i fuel context frame) :=
    fun c child => inside c child start frame (spared.child other c child)
  cases e with
  | constant v t => exact of_pure v
  | parameter x => exact lookup x
  | unary op a t =>
    have operand := below (by rintro ps a t ⟨⟩) a List.mem_cons_self
    exact operand.bind fun v => unary start op _ t v
  | binary op a c t =>
    have children := below (by rintro ps a t ⟨⟩)
    have left := children a List.mem_cons_self
    have right := children c (List.mem_cons_of_mem _ List.mem_cons_self)
    by_cases assignment : op = .assign
    · subst assignment
      cases a with
      | parameter x =>
        exact right.bind fun v =>
          -- what is assigned is not the spared variable, or not where that is bound
          (assign spared.inside (fun seen => (spared.tree seen).target) v).bind fun _ => of_pure v
      | _ => exact fail _
    · cases strict : op.isShortCircuit with
      | false =>
        rw [Expr.eval_binary_of_strict _ _ _ _ assignment strict]
        exact left.bind fun v => right.bind fun w => of_apart (.applyBinary op v w)
      | true =>
        cases op with
        | andAlso =>
          refine left.bind fun v => ite ?_ (of_apart (.truth _))
          exact right.bind fun w => of_apart (.truth _)
        | orElse =>
          refine left.bind fun v => ite (of_apart (.truth _)) ?_
          exact right.bind fun w => of_apart (.truth _)
        | _ => cases strict
  | conditional a c d t =>
    have children := below (by rintro ps a t ⟨⟩)
    have test := children a List.mem_cons_self
    have ifTrue := children c (by simp [Expr.children])
    have ifFalse := children d (by simp [Expr.children])
    exact test.bind fun v => ite ifTrue ifFalse
  | invoke f args t =>
    have children := below (by rintro ps a t ⟨⟩)
    have callee := children f List.mem_cons_self
    have arguments := evalAll fun a member => children a (List.mem_cons_of_mem _ member)
    exact callee.bind fun function => arguments.bind fun values => calls start function values
  | member a name t =>
    have owner := below (by rintro ps a t ⟨⟩) a List.mem_cons_self
    exact owner.bind fun v => member v name
  | hostCall f args t =>
    have arguments := evalAll (below (by rintro ps a t ⟨⟩))
    exact arguments.bind fun values =>
      (of_apart_or_collects (Host.IsApart.run f values)).bind fun v => of_apart (.coerce t v)
  | block vs es t =>
    refine blockFrame_bind spared.inside fun next inner _ new seen => runBlock fun c member => ?_
    -- where the frame of the block sees the binding, its steps do not assign it either
    have free := spared.child (by rintro ps a t ⟨⟩) c member
    exact inside c member next inner ⟨new, fun here => free.tree (seen here)⟩
  | label l d t => exact evalOption (below (by rintro ps a t ⟨⟩))
  | goto k l v t =>
    have value := evalOption (below (by rintro ps a t ⟨⟩))
    exact value.bind fun w => done (.jump l.uid w)
  | loop a c d t => exact loop (below (by rintro ps a t ⟨⟩) a List.mem_cons_self) _ _ fuel
  | lambda ps a t => exact closure spared
  | cached f a t cache =>
    have children := below (by rintro ps a t ⟨⟩)
    have callee := children f List.mem_cons_self
    have argument := children a (List.mem_cons_of_mem _ List.mem_cons_self)
    exact callee.bind fun function => argument.bind fun v =>
      lookupOrCompute (calls start function [v])
  | parallel op a c t pool =>
    have free := spared.child (by rintro ps a t ⟨⟩)
    have left := later a List.mem_cons_self (free a List.mem_cons_self)
    have last : c ∈ (Expr.parallel op a c t pool).children := List.mem_cons_of_mem _ List.mem_cons_self
    have right := later c last (free c last)
    rw [Expr.eval_parallel]
    exact left.bind fun call => right.bind fun call' =>
      splitBinary (deferred calls call) (deferred calls call')
  | strange v t => exact fail _
  | bare t => exact fail _

/-- A tree that assigns to other variables only keeps the binding. -/
theorem eval [Host] [Host.IsApart] {start : Machine} {fuel : Nat} {context : Context} {frame : FrameId}
    {e : Expr} (spared : Spared b start frame e) : Keeps b start (e.eval i fuel context frame) := by
  -- a split evaluates the parts of the calls that it has for operands, so both are proved together
  suffices both : ∀ start frame, Spared b start frame e →
      Keeps b start (e.eval i fuel context frame) ∧
      ((∀ ps a t, e ≠ .lambda ps a t) → Keeps b start (e.putOff i fuel context frame))
    from (both start frame spared).1
  clear spared
  induction e using Expr.of_children with
  | node e ih =>
    intro start frame spared
    have inside : ∀ c ∈ e.children, ∀ next inner, Spared b next inner c →
        Keeps b next (c.eval i fuel context inner) :=
      fun c child next inner free => (ih c child next inner free).1
    refine ⟨node calls unary spared inside fun c child free => ?_, fun other => putOff fun c child => ?_⟩
    · by_cases function : ∃ ps a t, c = .lambda ps a t
      · obtain ⟨ps, a, t, rfl⟩ := function
        exact fail _
      · exact (ih c child start frame free).2 fun ps a t same => function ⟨ps, a, t, same⟩
    · exact inside c child start frame (spared.child other c child)

/-! ## Calls -/

/-- A call of a function of the table keeps the binding. -/
theorem apply [Host] [Host.IsApart] {start : Machine} {fuel : Nat} {c : Callable} (known : SparedBy b start c)
    (args : List Boxed) : Keeps b start (Run.apply i fuel c args) := by
  cases c with
  | closure ps body frame context =>
    rw [Run.apply]
    split
    next counted =>
      refine openFrame_bind known.1 fun next inner _ new seen => sealed (eval calls unary ⟨new, ?_⟩)
      intro here
      obtain ⟨unbound, outer⟩ := seen here
      rw [List.map_fst_zip (Nat.le_of_eq counted.symm)] at unbound
      exact known.2 unbound outer
    next => exact fail _
  | collector collected missing =>
    exact of_apart_or_collects (.collector collected _ args)
  | thunk result => exact of_apart (.ite (.of_pure result) (.fail _))
  | wrapper inner => exact calls start inner args

end

section

variable {b : Binding} {call : Caller} (calls : ∀ start f args, Keeps b start (call f args))
include calls

theorem applyPure {start : Machine} (f : PureFunction) (args : List Boxed) :
    Keeps b start (Run.applyPure call f args) := by
  unfold Run.applyPure
  refine ite ?_ ((of_apart (.read fun _ _ _ => rfl)).bind fun shown => fail _)
  refine (of_apart (.coerceAll _ _)).bind fun values => (of_apart .askNesting).bind fun _ => ?_
  refine (callable _).bind fun c => ?_
  cases c with
  | wrapper inner =>
    refine (calls start inner values).bind fun v => ?_
    exact (of_apart (.read fun _ _ _ => rfl)).bind fun shown => wrapResult shown v
  | closure | collector | thunk => exact fail _

theorem callAll {start : Machine} (chain : List (List Boxed)) (v : Boxed) :
    Keeps b start (Run.callAll call v chain) := by
  induction chain generalizing v with
  | nil => exact of_pure v
  | cons args chain ih => exact (calls start v args).bind fun w => ih w

theorem applyMethod [Host] {start : Machine} (owner : Boxed) (name : String) (args : List Boxed) :
    Keeps b start (Run.applyMethod call owner name args) := by
  unfold Run.applyMethod
  split
  · exact callAll calls _ owner
  · refine ite (calls start owner args) ((of_apart (.lift _)).bind fun result => ?_)
    split
    · exact of_pure owner
    · exact of_apart (.box _)

end

/-- Calls keep the binding, whatever is called, by induction on how deep they nest. -/
theorem call [Host] [Host.IsApart] {b : Binding} (fuel : Nat) :
    ∀ start f args, Keeps b start (Run.call fuel f args) := by
  induction fuel with
  | zero => exact fun start f args => done .exhausted
  | succ fuel ih =>
    intro start f args
    unfold Run.call Run.callBy
    split
    · exact of_apart_or_collects (Host.IsApart.run _ args)
    · exact callable_bind fun next c _ known =>
        apply (i := ⟨Run.call fuel, Run.applyUnary⟩) ih
          (fun _ op source target v => of_apart (.applyUnary op source target v)) known args
    · exact applyPure ih _ args
    · exact applyMethod ih _ _ args
    · exact fail _

end Knot.Run.Keeps
