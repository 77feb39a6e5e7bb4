import Knot.Proofs.Obstacles
import Mathlib.Data.List.Forall2

/-!
# Evaluations that call fewer functions

`Run.callWithin` calls functions from a number on and is out of fuel where another one is called. Whatever
ends all the same makes no such calls, and so does what it does without the restriction
(`Run.Below.callWithin`).
-/

namespace Knot

/-- Two values that may be absent: both are, or neither is and they are related. -/
def Matched {α : Type} (R : α → α → Prop) : Option α → Option α → Prop
  | some a, some b => R a b
  | none, none => True
  | _, _ => False

namespace Matched

variable {α : Type} {R S : α → α → Prop} {a b : Option α}

theorem imp (h : Matched R a b) (implied : ∀ a b, R a b → S a b) : Matched S a b := by
  cases a <;> cases b <;> first | exact implied _ _ h | exact h

theorem isSome_eq (h : Matched R a b) : b.isSome = a.isSome := by
  cases a <;> cases b <;> first | rfl | cases h

theorem of_some {x : α} (h : Matched R (some x) b) : ∃ y, b = some y ∧ R x y := by
  cases b with
  | none => cases h
  | some y => exact ⟨y, rfl, h⟩

theorem of_none (h : Matched R none b) : b = none := by
  cases b with
  | none => rfl
  | some y => cases h

end Matched

/-- The steps behind a label, among steps of the same labels. -/
theorem Step.after?_forall₂ {R : Step → Step → Prop} {as bs : List Step} (target : Nat)
    (labels : ∀ {s s'}, R s s' → s.label = s'.label) (related : List.Forall₂ R as bs) :
    Matched (List.Forall₂ R) (after? target as) (after? target bs) := by
  induction related with
  | nil => trivial
  | @cons s s' as bs first rest ih =>
    unfold after?
    cases found : after? target as with
    | some behind =>
      rw [found] at ih
      obtain ⟨behind', found', same⟩ := ih.of_some
      rw [found']
      exact same
    | none =>
      rw [found] at ih
      rw [ih.of_none, labels first]
      simp only
      split
      · exact rest
      · trivial

namespace Run

/-- Calls functions from a number on as they are called, and nothing else. -/
def callWithin [Host] (start : Nat) : Nat → Caller
  | 0, _, _ => exhausted
  | fuel + 1, function, args =>
    match function.value with
    | .closure id =>
      if start ≤ id then do
        let c ← callable id
        apply ⟨callWithin start fuel, applyUnary⟩ fuel c args
      else exhausted
    | _ => exhausted

/-- A run that does what another one does whenever that one ends. -/
def Below {α : Type} (x y : Run α) : Prop := ∀ m, (x m).1 ≠ .exhausted → y m = x m

namespace Below

variable {α β : Type} {x y : Run α}

theorem refl (x : Run α) : Below x x := fun _ _ => rfl

theorem exhausted (y : Run α) : Below Run.exhausted y := fun _ ended => absurd rfl ended

/-- Runs that are followed by others. -/
theorem onward {F G : Outcome α → Run β} (first : Below x y) (second : ∀ o, Below (F o) (G o)) :
    Below (x.onward F) (y.onward G) := by
  intro m ended
  rcases ran : x m with ⟨o, after⟩
  have out : o ≠ .exhausted := by
    rintro rfl
    rw [onward_of_exhausted ran] at ended
    exact ended rfl
  have same : y m = (o, after) := (first m (by rwa [ran])).trans ran
  rw [onward_of_ended ran out] at ended ⊢
  rw [onward_of_ended same out]
  exact second o after ended

/-- One run after another. -/
theorem bind {F G : α → Run β} (first : Below x y) (second : ∀ a, Below (F a) (G a)) :
    Below (x >>= F) (y >>= G) := by
  rw [bind_eq_onward, bind_eq_onward]
  refine onward first fun o => ?_
  cases o with
  | value a => exact second a
  | _ => exact refl _

theorem ite {c : Prop} [Decidable c] {x' y' : Run α} (left : Below x y) (right : Below x' y') :
    Below (if c then x else x') (if c then y else y') := by
  split
  · exact left
  · exact right

theorem sealed {x y : Run Boxed} (h : Below x y) : Below x.sealed y.sealed := by
  rw [sealed_eq_onward, sealed_eq_onward]
  exact onward h fun o => refl _

theorem lookupOrCompute {x y : Run Boxed} (c : CacheId) (function argument : Boxed) (h : Below x y) :
    Below (Run.lookupOrCompute c function argument x) (Run.lookupOrCompute c function argument y) := by
  unfold Run.lookupOrCompute
  refine (refl _).bind fun begun => ?_
  cases begun with
  | bypassed => exact h
  | hit => exact refl _
  | pending ticket => exact h.bind fun _ => refl _

theorem splitBinary (op : BinaryOp) {x y x' y' : Run Boxed} (pool : Option PoolId) (left : Below x y)
    (right : Below x' y') : Below (Run.splitBinary op x x' pool) (Run.splitBinary op y y' pool) := by
  unfold Run.splitBinary
  refine ite (bind ?_ fun _ => refl _) (refl _)
  unfold Run.operands
  refine (refl _).bind fun p => (refl _).bind fun taken => ite ?_ ?_
  · unfold Run.split
    refine (refl _).bind fun b => (refl _).bind fun _ => ?_
    rw [releasing_eq_onward, releasing_eq_onward]
    refine onward ((refl _).bind fun _ => ?_) fun o => refl _
    rw [both_eq_onward, both_eq_onward]
    exact ite (onward right fun _ => onward left fun _ => refl _)
      (onward left fun _ => onward right fun _ => refl _)
  · unfold Run.sequential
    exact (refl _).bind fun _ => left.bind fun _ => right.bind fun _ => refl _

/-! ## Blocks and loops -/

/-- Steps of one label of which the one is below the other. -/
def Steps (s s' : Step) : Prop := s.label = s'.label ∧ Below s.run s'.run

theorem loop {x y : Run Boxed} (turn : Below x y) (breakLabel continueLabel : Option Nat) (fuel : Nat) :
    Below (Run.loop x breakLabel continueLabel fuel) (Run.loop y breakLabel continueLabel fuel) := by
  induction fuel with
  | zero => exact exhausted _
  | succ fuel ih =>
    rw [loop_succ, loop_succ]
    refine onward turn fun o => ?_
    cases o with
    | value => exact ih
    | jump target v => exact ite (refl _) (ite ih (refl _))
    | fault | exhausted => exact refl _

theorem runAll {as bs : List Step} (below : List.Forall₂ Steps as bs) (v : Boxed) :
    Below (Step.runAll as v) (Step.runAll bs v) := by
  induction below generalizing v with
  | nil => exact refl _
  | cons first _ ih => exact first.2.bind fun w => ih w

theorem runFrom {all all' : List Step} (whole : List.Forall₂ Steps all all') (fuel : Nat) :
    ∀ {as bs : List Step} (v : Boxed), List.Forall₂ Steps as bs →
      Below (Step.runFrom all fuel as v) (Step.runFrom all' fuel bs v) := by
  induction fuel with
  | zero => exact fun _ _ => exhausted _
  | succ fuel ih =>
    intro as bs v below
    rw [Step.runFrom_succ, Step.runFrom_succ]
    refine onward (runAll below v) fun o => ?_
    cases o with
    | value | fault | exhausted => exact refl _
    | jump target w =>
      have behind := Step.after?_forall₂ target (fun both => both.1) whole
      simp only
      cases found : Step.after? target all with
      | none =>
        rw [found] at behind
        rw [behind.of_none]
        exact refl _
      | some rest =>
        rw [found] at behind
        obtain ⟨rest', found', same⟩ := behind.of_some
        rw [found']
        exact ih w same

/-! ## Trees -/

section

variable {call call' : Caller} (calls : ∀ f args, Below (call f args) (call' f args)) {unary : Applier}
  {fuel : Nat} {context : Context}

section

variable [Host] {frame : FrameId} {e : Expr} {es : List Expr}
  (each : ∀ c ∈ es, Below (c.eval ⟨call, unary⟩ fuel context frame)
    (c.eval ⟨call', unary⟩ fuel context frame))
include each

theorem evalAll : Below (Expr.evalAll ⟨call, unary⟩ fuel context frame es)
    (Expr.evalAll ⟨call', unary⟩ fuel context frame es) := by
  induction es with
  | nil => exact refl _
  | cons e es ih =>
    obtain ⟨first, rest⟩ := List.forall_mem_cons.1 each
    exact first.bind fun v => (ih rest).bind fun vs => refl _

theorem runBlock : Below (Step.runBlock fuel (Expr.steps ⟨call, unary⟩ fuel context frame es))
    (Step.runBlock fuel (Expr.steps ⟨call', unary⟩ fuel context frame es)) := by
  have steps : List.Forall₂ Steps (Expr.steps ⟨call, unary⟩ fuel context frame es)
      (Expr.steps ⟨call', unary⟩ fuel context frame es) := by
    rw [Expr.steps_eq_map, Expr.steps_eq_map, List.forall₂_map_left_iff, List.forall₂_map_right_iff]
    exact List.forall₂_same.2 fun e member => ⟨rfl, each e member⟩
  exact runFrom steps fuel Boxed.none steps

end

theorem evalOption [Host] {frame : FrameId} {d : Option Expr} (each : ∀ c ∈ d.toList,
    Below (c.eval ⟨call, unary⟩ fuel context frame) (c.eval ⟨call', unary⟩ fuel context frame)) :
    Below (Expr.evalOption ⟨call, unary⟩ fuel context frame d)
      (Expr.evalOption ⟨call', unary⟩ fuel context frame d) := by
  cases d with
  | none => exact refl _
  | some e => exact each e List.mem_cons_self

theorem putOff [Host] {frame : FrameId} {e : Expr} (each : ∀ c ∈ e.children,
    Below (c.eval ⟨call, unary⟩ fuel context frame) (c.eval ⟨call', unary⟩ fuel context frame)) :
    Below (e.putOff ⟨call, unary⟩ fuel context frame) (e.putOff ⟨call', unary⟩ fuel context frame) := by
  cases e with
  | invoke f args t =>
    have arguments := evalAll fun a member => each a (List.mem_cons_of_mem _ member)
    exact (each f List.mem_cons_self).bind fun v => arguments.bind fun vs => refl _
  | cached f a t cache =>
    have argument := each a (List.mem_cons_of_mem _ List.mem_cons_self)
    exact (each f List.mem_cons_self).bind fun v => argument.bind fun w => refl _
  | _ => exact refl _

include calls

theorem deferred (c : Deferred) : Below (c.run ⟨call, unary⟩) (c.run ⟨call', unary⟩) := by
  cases c with
  | call f args => exact calls f args
  | cached cache f a => exact lookupOrCompute cache f a (calls f [a])

/-- The evaluation of a tree. -/
theorem eval [Host] (e : Expr) : ∀ frame, Below (e.eval ⟨call, unary⟩ fuel context frame)
    (e.eval ⟨call', unary⟩ fuel context frame) := by
  -- a split evaluates the parts of the calls that it has for operands, so both are proved together
  suffices both : ∀ frame, Below (e.eval ⟨call, unary⟩ fuel context frame)
        (e.eval ⟨call', unary⟩ fuel context frame) ∧
      Below (e.putOff ⟨call, unary⟩ fuel context frame) (e.putOff ⟨call', unary⟩ fuel context frame)
    from fun frame => (both frame).1
  induction e using Expr.of_children with
  | node e ih =>
    intro frame
    have below : ∀ c ∈ e.children, ∀ frame, Below (c.eval ⟨call, unary⟩ fuel context frame)
        (c.eval ⟨call', unary⟩ fuel context frame) := fun c child frame => (ih c child frame).1
    refine ⟨?_, putOff fun c child => below c child frame⟩
    cases e with
    | unary op a t => exact (below a List.mem_cons_self frame).bind fun v => refl _
    | binary op a c t =>
      have left := below a List.mem_cons_self frame
      have right := below c (List.mem_cons_of_mem _ List.mem_cons_self) frame
      by_cases assignment : op = .assign
      · subst assignment
        cases a with
        | parameter x => exact right.bind fun v => refl _
        | _ => exact refl _
      · cases strict : op.isShortCircuit with
        | false =>
          rw [Expr.eval_binary_of_strict _ _ _ _ assignment strict,
            Expr.eval_binary_of_strict _ _ _ _ assignment strict]
          exact left.bind fun v => right.bind fun w => refl _
        | true =>
          cases op with
          | andAlso => exact left.bind fun v => ite (right.bind fun w => refl _) (refl _)
          | orElse => exact left.bind fun v => ite (refl _) (right.bind fun w => refl _)
          | _ => cases strict
    | conditional a c d t =>
      have ifTrue := below c (by simp [Expr.children]) frame
      have ifFalse := below d (by simp [Expr.children]) frame
      exact (below a List.mem_cons_self frame).bind fun v => ite ifTrue ifFalse
    | invoke f args t =>
      have arguments := evalAll fun a member => below a (List.mem_cons_of_mem _ member) frame
      exact (below f List.mem_cons_self frame).bind fun v => arguments.bind fun vs => calls v vs
    | member a name t => exact (below a List.mem_cons_self frame).bind fun v => refl _
    | hostCall f args t =>
      exact (evalAll fun a member => below a member frame).bind fun vs => refl _
    | block vs es t =>
      exact (refl _).bind fun inner => runBlock fun c member => below c member inner
    | label l d t => exact evalOption fun c member => below c member frame
    | goto k l v t => exact (evalOption fun c member => below c member frame).bind fun w => refl _
    | loop a c d t => exact loop (below a List.mem_cons_self frame) _ _ fuel
    | cached f a t cache =>
      have argument := below a (List.mem_cons_of_mem _ List.mem_cons_self) frame
      exact (below f List.mem_cons_self frame).bind fun v => argument.bind fun w =>
        lookupOrCompute _ v w (calls v [w])
    | parallel op a c t pool =>
      have right := (ih c (List.mem_cons_of_mem _ List.mem_cons_self) frame).2
      rw [Expr.eval_parallel, Expr.eval_parallel]
      exact (ih a List.mem_cons_self frame).2.bind fun x => right.bind fun y =>
        splitBinary op _ (deferred calls x) (deferred calls y)
    | constant | parameter | lambda | strange | bare => exact refl _

end

/-! ## Calls -/

/-- A call that ends under the restriction does the same without it. -/
theorem callWithin [Host] (start fuel : Nat) :
    ∀ f args, Below (Run.callWithin start fuel f args) (Run.call fuel f args) := by
  induction fuel with
  | zero => exact fun _ _ => exhausted _
  | succ fuel ih =>
    intro f args
    obtain ⟨value, a⟩ := f
    cases value with
    | closure id =>
      show Below (if start ≤ id then _ else _) _
      split
      next =>
        refine (refl (Run.callable id)).bind fun c => ?_
        cases c with
        | closure ps body frame context =>
          exact ite ((refl _).bind fun inner => sealed (eval ih body inner)) (refl _)
        | collector | thunk => exact refl _
        | wrapper inner => exact ih inner args
      next => exact exhausted _
    | _ => exact exhausted _

end Below

end Run

end Knot
