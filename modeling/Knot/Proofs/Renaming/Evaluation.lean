import Knot.Proofs.Renaming.Runs

/-!
# Evaluation with a variable renamed

A tree and the tree with `p` renamed mirror each other, in frames that know `p` by its old and by its new
name (`Run.Mirrors.eval`), if calls mirror themselves; and they do, by induction on how deep calls nest
(`Run.Mirrors.call`).
-/

namespace Knot.Run.Mirrors

/-! ## Trees -/

section

variable [Host] {p n : Parameter} {names : Array Parameter} {frame : FrameId} {i : Interpreter} {fuel : Nat}
  {context : Context}

theorem evalAll {es : List Expr}
    (each : ∀ e ∈ es, Mirrors p names (e.eval i fuel context frame)
      ((e.renamed p n).eval i fuel context frame)) :
    Mirrors p names (Expr.evalAll i fuel context frame es)
      (Expr.evalAll i fuel context frame (es.map (Expr.renamed p n))) := by
  induction es with
  | nil => exact of_pure []
  | cons e es ih =>
    obtain ⟨first, rest⟩ := List.forall_mem_cons.1 each
    exact first.bind fun v => (ih rest).bind fun vs => of_pure (v :: vs)

theorem evalOption {d : Option Expr}
    (each : ∀ e ∈ d.toList, Mirrors p names (e.eval i fuel context frame)
      ((e.renamed p n).eval i fuel context frame)) :
    Mirrors p names (Expr.evalOption i fuel context frame d)
      (Expr.evalOption i fuel context frame (d.map (Expr.renamed p n))) := by
  cases d with
  | none => exact of_pure Boxed.none
  | some e => exact each e List.mem_cons_self

theorem steps {es : List Expr}
    (each : ∀ e ∈ es, Mirrors p names (e.eval i fuel context frame)
      ((e.renamed p n).eval i fuel context frame)) :
    Steps p names (Expr.steps i fuel context frame es)
      (Expr.steps i fuel context frame (es.map (Expr.renamed p n))) := by
  induction es with
  | nil => exact .nil
  | cons e es ih =>
    obtain ⟨first, rest⟩ := List.forall_mem_cons.1 each
    exact .cons ⟨Expr.labelUid?_renamed e, first⟩ (ih rest)

/-- What is put off for an operand of a split is the same. -/
theorem putOff {e : Expr}
    (each : ∀ c ∈ e.children, Mirrors p names (c.eval i fuel context frame)
      ((c.renamed p n).eval i fuel context frame)) :
    Mirrors p names (e.putOff i fuel context frame)
      ((e.renamed p n).putOff i fuel context frame) := by
  cases call : e.isCall with
  | true =>
    cases e with
    | invoke f args t =>
      rw [Expr.renamed_invoke]
      have callee := each f List.mem_cons_self
      have arguments := evalAll fun a member => each a (List.mem_cons_of_mem _ member)
      exact callee.bind fun function => arguments.bind fun values => of_pure _
    | cached f a t cache =>
      have callee := each f List.mem_cons_self
      have argument := each a (List.mem_cons_of_mem _ List.mem_cons_self)
      exact callee.bind fun function => argument.bind fun v => of_pure _
    | _ => cases call
  | false =>
    -- renaming makes no call of a node that is none
    have call' : (e.renamed p n).isCall = false := by
      cases e with
      | parameter x =>
        rw [Expr.renamed_parameter]
        rfl
      | invoke | cached => cases call
      | _ => rfl
    rw [Expr.putOff_of_noCall _ _ _ _ call, Expr.putOff_of_noCall _ _ _ _ call', Expr.kind_renamed]
    exact fail _

end

/-- The parameters of a closure are renamed with its body. -/
theorem closure {p n : Parameter} {names : Array Parameter} {frame : FrameId} {context : Context}
    {ps : List Expr} {body : Expr} (known : names[frame]? = some n)
    (parameters : ∀ e ∈ ps, e.Renames p n) (renames : body.Renames p n) :
    Mirrors p names (Run.closure context frame ps body)
      (Run.closure context frame (ps.map (Expr.renamed p n)) (body.renamed p n)) := by
  -- what the parameters are is read off their trees before any of them is renamed
  have bound : (ps.map (Expr.renamed p n)).mapM Expr.parameter? =
        (ps.mapM Expr.parameter?).map (List.map fun x => x.renamed p n) ∧
      ∀ xs, ps.mapM Expr.parameter? = some xs → ∀ x ∈ xs, x.Fits p n := by
    induction ps with
    | nil =>
      refine ⟨rfl, ?_⟩
      rintro xs ⟨⟩ x ⟨⟩
    | cons e ps ih =>
      obtain ⟨first, rest⟩ := List.forall_mem_cons.1 parameters
      obtain ⟨same, fits⟩ := ih rest
      rw [List.map_cons, List.mapM_cons, List.mapM_cons, same, Expr.parameter?_renamed]
      cases e with
      | parameter x =>
        cases others : ps.mapM Expr.parameter? with
        | none => exact ⟨rfl, by rintro xs ⟨⟩⟩
        | some ys =>
          refine ⟨rfl, ?_⟩
          rintro xs ⟨⟩
          exact List.forall_mem_cons.2 ⟨first.fits, fits ys others⟩
      | _ => exact ⟨rfl, by rintro xs ⟨⟩⟩
  unfold Run.closure
  rw [bound.1]
  cases found : ps.mapM Expr.parameter? with
  | none => exact fail _
  | some xs =>
    have fits := bound.2 xs found
    have uids : (xs.map fun x => x.renamed p n).map (fun x => x.uid) =
        (xs.map fun x => x.uid).map (Parameter.renamedUid p n) := by
      rw [List.map_map, List.map_map]
      exact List.map_congr_left fun x inside => (fits x inside).renamed_uid
    have free : ∀ u ∈ xs.map fun x => x.uid, Parameter.Free p n u := by
      intro u inside
      obtain ⟨x, bound, rfl⟩ := List.mem_map.1 inside
      exact (fits x bound).free
    simp only [Option.map_some, uids]
    exact newFunction (.closure known free renames)

section

variable {p : Parameter} {i : Interpreter}
  (calls : ∀ names f args, Mirrors p names (i.call f args) (i.call f args))
  (unary : ∀ names op source source' target v,
    Mirrors p names (i.unary op source target v) (i.unary op source' target v))
include calls

/-- A call that has been put off mirrors itself. -/
theorem deferred {names : Array Parameter} (call : Deferred) :
    Mirrors p names (call.run i) (call.run i) := by
  cases call with
  | call function values => exact calls names function values
  | cached cache function argument => exact lookupOrCompute (calls names function [argument])

include unary

/-- A node mirrors the renamed node if its parts do, also where a part is put off. -/
theorem node [Host] [Host.IsApart] {names : Array Parameter} {n : Parameter} {fuel : Nat} {context : Context}
    {frame : FrameId} {e : Expr} (known : names[frame]? = some n) (renames : e.Renames p n)
    (inside : ∀ c ∈ e.parts, ∀ names' inner, names'[inner]? = some n →
      Mirrors p names' (c.eval i fuel context inner) ((c.renamed p n).eval i fuel context inner))
    (later : ∀ c ∈ e.parts, Mirrors p names (c.putOff i fuel context frame)
      ((c.renamed p n).putOff i fuel context frame)) :
    Mirrors p names (e.eval i fuel context frame) ((e.renamed p n).eval i fuel context frame) := by
  have below : ∀ c ∈ e.parts, Mirrors p names (c.eval i fuel context frame)
      ((c.renamed p n).eval i fuel context frame) := fun c part => inside c part names frame known
  -- case by case, the parts bind one another; what is renamed itself is a name, a label or a target
  cases e with
  | constant v t => exact of_pure v
  | parameter x =>
    rw [Expr.renamed_parameter]
    exact lookup known renames.fits
  | unary op a t =>
    have operand := below a List.mem_cons_self
    exact operand.bind fun v => unary names op _ _ t v
  | binary op a b t =>
    rw [Expr.renamed_binary]
    have left := below a List.mem_cons_self
    have right := below b (List.mem_cons_of_mem _ List.mem_cons_self)
    by_cases assignment : op = .assign
    · subst assignment
      cases a with
      -- the target is not evaluated: it is renamed, and the frame is searched for the new name
      | parameter x =>
        have target := (renames.part (.parameter x) List.mem_cons_self).fits
        rw [Expr.renamed_parameter]
        exact right.bind fun v => (assign known target v).bind fun _ => of_pure v
      | invoke f args t =>
        rw [Expr.renamed_invoke]
        exact fail _
      | _ => exact fail _
    · cases strict : op.isShortCircuit with
      | false =>
        rw [Expr.eval_binary_of_strict _ _ _ _ assignment strict,
          Expr.eval_binary_of_strict _ _ _ _ assignment strict]
        exact left.bind fun v => right.bind fun w => of_apart (.applyBinary op v w)
      | true =>
        cases op with
        | andAlso =>
          refine left.bind fun v => ite ?_ (of_apart (.truth _))
          exact right.bind fun w => of_apart (.truth _)
        | orElse =>
          refine left.bind fun v => ite (of_apart (.truth _)) ?_
          exact right.bind fun w => of_apart (.truth _)
        | _ => cases strict
  | conditional a b c t =>
    have test := below a List.mem_cons_self
    have ifTrue := below b (by simp [Expr.parts, Expr.children])
    have ifFalse := below c (by simp [Expr.parts, Expr.children])
    exact test.bind fun v => ite ifTrue ifFalse
  | invoke f args t =>
    rw [Expr.renamed_invoke]
    have callee := below f List.mem_cons_self
    have arguments := evalAll fun a member => below a (List.mem_cons_of_mem _ member)
    exact callee.bind fun function => arguments.bind fun values => calls names function values
  | member a name t =>
    have owner := below a List.mem_cons_self
    exact owner.bind fun v => member v name
  | hostCall f args t =>
    rw [Expr.renamed_hostCall]
    have arguments := evalAll fun a member => below a member
    exact arguments.bind fun values =>
      (of_apart_or_collects (Host.IsApart.run f values)).bind fun v => of_apart (.coerce t v)
  | block vs es t =>
    rw [Expr.renamed_block]
    -- the variables of the block are other ones, so in the frame of the block `n` still stands for `p`
    refine blockFrame_bind known renames.fits fun names' inner _ known' => ?_
    have each := steps fun c member => inside c member names' inner known'
    exact runFrom each fuel Boxed.none each
  | label l d t =>
    rw [Expr.renamed_label]
    exact evalOption fun c member => below c member
  | goto k l v t =>
    rw [Expr.renamed_goto]
    have value := evalOption fun c member => below c member
    exact value.bind fun w => done (.jump l.uid w)
  | loop a b c t => exact loop (below a List.mem_cons_self) _ _ fuel
  | lambda ps a t =>
    rw [Expr.renamed_lambda]
    exact closure known (fun e member => renames.part e (List.mem_append_left _ member))
      (renames.part a (List.mem_append_right _ List.mem_cons_self))
  | cached f a t cache =>
    have callee := below f List.mem_cons_self
    have argument := below a (List.mem_cons_of_mem _ List.mem_cons_self)
    exact callee.bind fun function => argument.bind fun v =>
      lookupOrCompute (calls names function [v])
  | parallel op a b t pool =>
    have left := later a List.mem_cons_self
    have right := later b (List.mem_cons_of_mem _ List.mem_cons_self)
    rw [Expr.renamed_parallel, Expr.eval_parallel, Expr.eval_parallel]
    exact left.bind fun call => right.bind fun call' =>
      splitBinary (deferred calls call) (deferred calls call')
  | strange v t => exact fail _
  | bare t => exact fail _

/-- A tree and the tree with `p` renamed mirror each other. -/
theorem eval [Host] [Host.IsApart] {names : Array Parameter} {n : Parameter} {fuel : Nat} {context : Context}
    {frame : FrameId} {e : Expr} (known : names[frame]? = some n) (renames : e.Renames p n) :
    Mirrors p names (e.eval i fuel context frame) ((e.renamed p n).eval i fuel context frame) := by
  -- a split evaluates the parts of the calls that it has for operands, so both are proved together
  suffices both : ∀ names frame, names[frame]? = some n →
      Mirrors p names (e.eval i fuel context frame) ((e.renamed p n).eval i fuel context frame) ∧
      Mirrors p names (e.putOff i fuel context frame) ((e.renamed p n).putOff i fuel context frame)
    from (both names frame known).1
  clear known
  induction e using Expr.of_parts with
  | node e ih =>
    intro names frame known
    have inside : ∀ c ∈ e.parts, ∀ names' inner, names'[inner]? = some n →
        Mirrors p names' (c.eval i fuel context inner)
          ((c.renamed p n).eval i fuel context inner) :=
      fun c part names' inner known' => (ih c part (renames.part c part) names' inner known').1
    refine ⟨node calls unary known renames inside fun c part => ?_, putOff fun c child => ?_⟩
    · exact (ih c part (renames.part c part) names frame known).2
    · exact inside c (Expr.mem_parts_of_mem_children child) names frame known

/-! ## Calls -/

/-- A function of the table and the renamed function mirror each other. -/
theorem apply [Host] [Host.IsApart] {names : Array Parameter} {fuel : Nat} {c c' : Callable}
    (alike : c.Renamed p names c') (args : List Boxed) : Mirrors p names (Run.apply i fuel c args)
    (Run.apply i fuel c' args) := by
  cases alike with
  | @closure n ps body frame context known free renames =>
    rw [Run.apply, Run.apply, List.length_map, List.zip_map_left]
    refine ite ?_ (fail _)
    have bound : ∀ b ∈ ps.zip args, Parameter.Free p n b.1 := fun b inside =>
      free b.1 (List.of_mem_zip inside).1
    -- the new frame hangs below that of the closure, where the names are known
    exact openFrame_bind known bound fun names' inner _ known' =>
      sealed (eval calls unary known' renames)
  | collector collected missing =>
    exact of_apart_or_collects (.collector collected _ args)
  | thunk result => exact of_apart (.ite (.of_pure result) (.fail _))
  | wrapper inner => exact calls names inner args

end

section

variable {p : Parameter} {call : Caller}
  (calls : ∀ names f args, Mirrors p names (call f args) (call f args))
include calls

theorem applyPure {names : Array Parameter} (f : PureFunction) (args : List Boxed) :
    Mirrors p names (Run.applyPure call f args) (Run.applyPure call f args) := by
  unfold Run.applyPure
  refine ite ?_ ((of_apart (.read fun _ _ _ => rfl)).bind fun shown => fail _)
  refine (of_apart (.coerceAll _ _)).bind fun values => (of_apart .askNesting).bind fun _ => ?_
  refine callable_bind fun names' c c' _ alike => ?_
  cases alike with
  | wrapper inner =>
    refine (calls names' inner values).bind fun v => ?_
    exact (of_apart (.read fun _ _ _ => rfl)).bind fun shown => wrapResult shown v
  | closure | collector | thunk => exact fail _

theorem callAll {names : Array Parameter} (chain : List (List Boxed)) (v : Boxed) :
    Mirrors p names (Run.callAll call v chain) (Run.callAll call v chain) := by
  induction chain generalizing v with
  | nil => exact of_pure v
  | cons args chain ih => exact (calls names v args).bind fun w => ih w

theorem applyMethod [Host] {names : Array Parameter} (owner : Boxed) (name : String) (args : List Boxed) :
    Mirrors p names (Run.applyMethod call owner name args)
      (Run.applyMethod call owner name args) := by
  unfold Run.applyMethod
  split
  · exact callAll calls _ owner
  · refine ite (calls names owner args) ((of_apart (.lift _)).bind fun result => ?_)
    split
    · exact of_pure owner
    · exact of_apart (.box _)

end

/-- What a unary operator does to a value does not depend on the static type of its operand. -/
theorem applyUnary {p : Parameter} (names : Array Parameter) (op : UnaryOp)
    (source source' target : StaticType) (v : Boxed) :
    Mirrors p names (Run.applyUnary op source target v) (Run.applyUnary op source' target v) :=
  of_apart (.applyUnary op source target v)

/-- Calls mirror themselves, by induction on how deep they nest. -/
theorem call [Host] [Host.IsApart] {p : Parameter} (fuel : Nat) : ∀ names f args,
    Mirrors p names (Run.call fuel f args) (Run.call fuel f args) := by
  induction fuel with
  | zero => exact fun names f args => done .exhausted
  | succ fuel ih =>
    intro names f args
    unfold Run.call Run.callBy
    split
    · exact of_apart_or_collects (Host.IsApart.run _ args)
    · exact callable_bind fun names' c c' _ alike =>
        apply (i := ⟨Run.call fuel, Run.applyUnary⟩) ih applyUnary alike args
    · exact applyPure ih _ args
    · exact applyMethod ih _ _ args
    · exact fail _

/-- The evaluations of a tree and of the tree with `p` renamed mirror each other. -/
theorem evalTree [Host] [Host.IsApart] {p n : Parameter} {names : Array Parameter} {frame : FrameId}
    {e : Expr} (known : names[frame]? = some n) (renames : e.Renames p n) (fuel : Nat) (context : Context) :
    Mirrors p names (Run.eval fuel context frame e) (Run.eval fuel context frame (e.renamed p n)) :=
  eval (call fuel) applyUnary known renames

end Knot.Run.Mirrors
