import Knot.Proofs.Shedding.Blocks

/-!
# Comparing evaluations

The evaluation of a tree compares with that of the tree that is left when nodes are shed, in either
direction, if calls compare (`Sheds.sim`, by induction on how nodes are shed), and calls compare
(`Calls.of_lt`, by induction on the fuel of the first one). The second evaluation has more fuel than the
first, so a block that is shed may be entered once more.
-/

namespace Knot

/-! ## Probes of trees -/

/-- Calls and operators, with stale conversions replaced by a halt. -/
def Run.probing [Host] (fuel : Nat) (halt : Option Machine) : Interpreter :=
  ⟨Run.callBy (Run.halting halt) fuel, Run.halting halt⟩

namespace Expr

variable [Host] (fuel : Nat) (context : Context) (frame : FrameId)

/-- The evaluation of a tree as a probe. -/
def probe (e : Expr) : Probe Boxed := fun halt =>
  e.eval (Run.probing fuel halt) fuel context frame

/-- The evaluation of several trees as a probe. -/
def probeAll (es : List Expr) : Probe (List Boxed) := fun halt =>
  evalAll (Run.probing fuel halt) fuel context frame es

/-- The evaluation of a tree that may be absent as a probe. -/
def probeOption (d : Option Expr) : Probe Boxed := fun halt =>
  evalOption (Run.probing fuel halt) fuel context frame d

/-- A step of a block as a probe. -/
def phase (e : Expr) : Phase := ⟨e.labelUid?, e.probe fuel context frame⟩

theorem steps_probing (halt : Option Machine) (es : List Expr) :
    steps (Run.probing fuel halt) fuel context frame es =
      (es.map (phase fuel context frame)).map (Phase.step halt) := by
  rw [steps_eq_map, List.map_map]
  rfl

/-- A block without variables and labels is its steps one after another. -/
theorem probe_block_of_unlabelled {es : List Expr} (unlabelled : ∀ e ∈ es, e.labelUid? = none)
    (t : StaticType) :
    (block [] es t).probe (fuel + 1) context frame = fun halt =>
      Step.runAll ((es.map (phase (fuel + 1) context frame)).map (Phase.step halt)) Boxed.none := by
  funext halt
  show Step.runFrom (steps _ _ _ _ es) (fuel + 1) (steps _ _ _ _ es) Boxed.none = _
  rw [steps_probing, Step.runFrom_of_unlabelled]
  intro s inside
  simp only [List.mem_map] at inside
  obtain ⟨p, ⟨e, member, rfl⟩, rfl⟩ := inside
  exact unlabelled e member

end Expr

/-- Calls compare, with fuel `n` on the first side and `k` on the second. -/
def Calls [Host] (d : Direction) (n k : Nat) : Prop := ∀ function args,
  Probe.Sim d (fun halt => Run.callBy (Run.halting halt) n function args) fun halt =>
    Run.callBy (Run.halting halt) k function args

/-! ## Operators -/

namespace Probe.Sim

variable {d : Direction}

/-- A unary operator: both sides halt, or neither does. -/
theorem unary (op : UnaryOp) (source target : StaticType) (v : Boxed) :
    Sim d (fun halt => Run.halting halt op source target v) fun halt =>
      Run.halting halt op source target v := by
  cases stale : op.isStale source target v with
  | true =>
    intro m m' _
    left
    cases d <;> exact fun h => congrFun (Run.halting_of_stale stale h) _
  | false =>
    simp only [Run.halting_of_not_stale stale]
    exact of_apart (.applyUnary op source target v)

/-- A conversion to the type of the operand gives the operand, or it halts. -/
theorem idle {op : UnaryOp} (converts : op.isConversion = true) (t : StaticType) (v : Boxed) :
    Sim d (d.pick (fun halt => Run.halting halt op t t v) fun _ => Pure.pure v)
      (d.pick (fun _ => Pure.pure v) fun halt => Run.halting halt op t t v) := by
  cases keeps : t.keeps v.value with
  | true =>
    have fine : op.isStale t t v = false := by
      simp [UnaryOp.isStale, keeps]
    have same : Run.applyUnary op t t v = Pure.pure v := by
      simp [Run.applyUnary, converts, keeps]
    simp only [Run.halting_of_not_stale fine, same]
    cases d <;> exact pure v
  | false =>
    have stale : op.isStale t t v = true := by
      simp [UnaryOp.isStale, converts, keeps]
    intro m m' _
    left
    cases d <;> exact fun h => congrFun (Run.halting_of_stale stale h) _

end Probe.Sim

/-! ## Trees -/

section

variable [Host] {d : Direction} {n k : Nat} {context : Context} {frame : FrameId}

/-- A binary operator on operands that compare. An assignment is to the same variable. -/
theorem Probe.Sim.binary {op : BinaryOp} {a a' b b' : Expr} {t : StaticType}
    (target : op = .assign → a' = a)
    (left : Sim d (a.probe n context frame) (a'.probe k context frame))
    (right : Sim d (b.probe n context frame) (b'.probe k context frame)) :
    Sim d ((Expr.binary op a b t).probe n context frame)
      ((Expr.binary op a' b' t).probe k context frame) := by
  by_cases assignment : op = .assign
  · obtain rfl := target assignment
    subst assignment
    cases a' with
    | parameter p => exact bind right fun v => bind (of_ignores (.assign frame p v)) fun _ => pure v
    | _ => exact fail _
  · cases strict : op.isShortCircuit with
    | false =>
      unfold Expr.probe at left right ⊢
      simp only [Expr.eval_binary_of_strict _ _ _ _ assignment strict]
      exact bind left fun v => bind right fun w => of_apart (.boxResult _)
    | true =>
      cases op with
      | andAlso =>
        refine bind left fun v => ?_
        split
        · exact bind right fun w => of_apart (.truth _)
        · exact of_apart (.truth _)
      | orElse =>
        refine bind left fun v => ?_
        split
        · exact of_apart (.truth _)
        · exact bind right fun w => of_apart (.truth _)
      | _ => cases strict

omit [Host] in
/-- A conditional on parts that compare. -/
theorem Probe.Sim.conditional {x y : Probe Boxed} {b b' c c' : Probe Boxed} (test : Sim d x y)
    (ifTrue : Sim d b b') (ifFalse : Sim d c c') :
    Sim d (fun halt => x halt >>= fun v => if v.value.truthy then b halt else c halt) fun halt =>
      y halt >>= fun v => if v.value.truthy then b' halt else c' halt := by
  refine bind test fun v => ?_
  split
  · exact ifTrue
  · exact ifFalse

theorem Expr.probe_block (fuel : Nat) (vs : List Parameter) (es : List Expr) (t : StaticType) :
    (block vs es t).probe fuel context frame = fun halt =>
      Run.blockFrame frame vs >>= fun inner =>
        Step.runFrom ((es.map (phase fuel context inner)).map (Phase.step halt)) fuel
          ((es.map (phase fuel context inner)).map (Phase.step halt)) Boxed.none := by
  funext halt
  simp only [← steps_probing]
  rfl

/-- A conditional on a constant is the branch that the constant chooses. -/
theorem Expr.probe_conditional_of_constant (fuel : Nat) (v : Boxed) (s : StaticType) (b c : Expr)
    (t : StaticType) :
    (conditional (constant v s) b c t).probe fuel context frame =
      (if v.value.truthy then b else c).probe fuel context frame := by
  funext halt
  show (if v.value.truthy then _ else _) = _
  split <;> rfl

/-- A split puts both of its calls off. -/
theorem Expr.probe_parallel (fuel : Nat) (op : BinaryOp) (a b : Expr) (t : StaticType)
    (pool : Option PoolId) :
    (parallel op a b t pool).probe fuel context frame = fun halt =>
      a.putOff (Run.probing fuel halt) fuel context frame >>= fun call =>
        b.putOff (Run.probing fuel halt) fuel context frame >>= fun call' =>
          Run.splitBinary op (call.run (Run.probing fuel halt)) (call'.run (Run.probing fuel halt))
            (pool.or context.pool) := by
  funext halt
  exact eval_parallel _ fuel context frame op a b t pool

/-- Calls that are put off compare if calls do. -/
theorem Deferred.sim (calls : Calls d n k) (call : Deferred) :
    Probe.Sim d (fun halt => call.run (Run.probing n halt)) fun halt =>
      call.run (Run.probing k halt) := by
  cases call with
  | call function values => exact calls function values
  | cached cache function argument => exact .lookupOrCompute (calls function [argument])

/-- A block of one step that is no label is that step. -/
theorem Expr.probe_block_single (fuel : Nat) {e : Expr} (unlabelled : e.labelUid? = none)
    (t : StaticType) :
    (block [] [e] t).probe (fuel + 1) context frame = e.probe (fuel + 1) context frame := by
  rw [probe_block_of_unlabelled fuel context frame (by simpa using unlabelled)]
  funext halt
  exact bind_pure (e.probe (fuel + 1) context frame halt)

end

mutual

/-- The evaluation of a tree compares with that of the tree that is left when nodes are shed. -/
theorem Sheds.sim [Host] [Host.IsApart] {d : Direction} {n k : Nat} (less : n < k)
    (calls : Calls d n k) (context : Context) {e f : Expr} (frame : FrameId) :
    Sheds e f →
    Probe.Sim d ((d.pick e f).probe n context frame) ((d.pick f e).probe k context frame)
  | .constant v t => by
    cases d <;> exact .pure v
  | .parameter p => by
    cases d <;> exact .of_ignores (.lookup frame p)
  | .strange v t => by
    cases d <;> exact .fail _
  | .bare t => by
    cases d <;> exact .fail _
  | .unary operand => by
    -- the operator is told the static type of its operand, which shedding keeps
    have compared := operand.sim less calls context frame
    have typed := operand.type_eq
    cases d with
    | shedding =>
      refine .bind compared fun v => ?_
      rw [typed]
      exact .unary _ _ _ v
    | restoring =>
      refine .bind compared fun v => ?_
      rw [← typed]
      exact .unary _ _ _ v
  | .binary target left right => by
    have first := left.sim less calls context frame
    have second := right.sim less calls context frame
    cases d with
    | shedding => exact .binary target first second
    | restoring => exact .binary (fun assignment => (target assignment).symm) first second
  | .conditional test ifTrue ifFalse => by
    have tested := test.sim less calls context frame
    have first := ifTrue.sim less calls context frame
    have second := ifFalse.sim less calls context frame
    cases d <;> exact .conditional tested first second
  | .invoke callee arguments => by
    have first := callee.sim less calls context frame
    have others := arguments.sim less calls context frame
    cases d <;> exact .bind first fun function => .bind others fun values => calls function values
  | .member owner => by
    have compared := owner.sim less calls context frame
    cases d <;> exact .bind compared fun v => .member v _
  | .hostCall arguments => by
    have compared := arguments.sim less calls context frame
    cases d <;> exact .bind compared fun values =>
      .bind (.of_apart_or_collects (Host.IsApart.run _ values)) fun v =>
        .of_apart (.coerce _ v)
  | .label default => by
    have compared := default.sim less calls context frame
    cases d <;> exact compared
  | .goto value => by
    have compared := value.sim less calls context frame
    cases d <;> exact .bind compared fun w => .jump _ w
  | .loop body => by
    have compared := body.sim less calls context frame
    cases d <;> exact .loop compared _ _ (Nat.le_of_lt less)
  | .lambda body => by
    cases d <;> exact .closure body
  | .cached callee argument => by
    have first := callee.sim less calls context frame
    have second := argument.sim less calls context frame
    cases d <;> exact .bind first fun function => .bind second fun v =>
      .lookupOrCompute (calls function [v])
  | .block steps => by
    -- without fuel the first side does not enter the block
    have alike := fun some_fuel inner => steps.sim less calls context some_fuel inner
    rcases Nat.eq_zero_or_pos n with rfl | some_fuel
    · cases d <;> exact .bind (.of_ignores (.blockFrame frame _)) fun _ => .exhausted _
    · cases d <;> simp only [Direction.pick, Expr.probe_block] <;>
        exact .bind (.of_ignores (.blockFrame frame _)) fun inner =>
          (alike some_fuel inner).runFrom (Nat.le_of_lt less) (alike some_fuel inner) Boxed.none
  | .parallel left right => by
    have first := left.sim less calls context frame
    have second := right.sim less calls context frame
    cases d <;> simp only [Direction.pick, Expr.probe_parallel] <;>
      exact .bind first fun call => .bind second fun call' =>
        .splitBinary (call.sim calls) (call'.sim calls)
  | @Sheds.conversion op a _ _ converts idle operand => by
    -- behind the operand a conversion is either idle or halts, so it is compared with nothing at all
    subst idle
    have compared := operand.sim less calls context frame
    cases d with
    | shedding =>
      have halts := compared.bind fun v => Probe.Sim.idle (d := .shedding) converts a.type v
      simp only [Direction.pick, bind_pure] at halts
      exact halts
    | restoring =>
      have halts := compared.bind fun v => Probe.Sim.idle (d := .restoring) converts a.type v
      simp only [Direction.pick, bind_pure] at halts
      exact halts
  | @Sheds.chosen a v s b b' c c' t test ifTrue ifFalse _ => by
    have tested := test.sim less calls context frame
    have first := ifTrue.sim less calls context frame
    have second := ifFalse.sim less calls context frame
    -- what is left is the conditional on the constant, of which a branch is chosen
    have branch := fun fuel => @Expr.probe_conditional_of_constant _ context frame fuel v s b' c' t
    cases d <;> simp only [Direction.pick, ← branch] <;> exact .conditional tested first second
  | .single _ unlabelled unlabelled' step => by
    -- the block takes a unit of fuel that its step does not: only the first side may lack it
    have compared := step.sim less calls context frame
    obtain ⟨k, rfl⟩ : ∃ j, k = j + 1 := ⟨k - 1, by omega⟩
    cases d with
    | shedding =>
      cases n with
      | zero => exact .exhausted _
      | succ n =>
        simp only [Direction.pick, Expr.probe_block_single _ unlabelled]
        exact compared
    | restoring =>
      simp only [Direction.pick, Expr.probe_block_single _ unlabelled]
      exact compared

/-- The same for several trees. -/
theorem ShedsAll.sim [Host] [Host.IsApart] {d : Direction} {n k : Nat} (less : n < k)
    (calls : Calls d n k) (context : Context) {es fs : List Expr} (frame : FrameId) :
    ShedsAll es fs →
    Probe.Sim d (Expr.probeAll n context frame (d.pick es fs))
      (Expr.probeAll k context frame (d.pick fs es))
  | .nil => by
    cases d <;> exact .pure []
  | .cons first rest => by
    have here := first.sim less calls context frame
    have others := rest.sim less calls context frame
    cases d <;> exact .bind here fun v => .bind others fun vs => .pure (v :: vs)

/-- The same for a tree that may be absent. -/
theorem ShedsOption.sim [Host] [Host.IsApart] {d : Direction} {n k : Nat} (less : n < k)
    (calls : Calls d n k) (context : Context) {e f : Option Expr}
    (frame : FrameId) : ShedsOption e f →
    Probe.Sim d (Expr.probeOption n context frame (d.pick e f))
      (Expr.probeOption k context frame (d.pick f e))
  | .none => by
    cases d <;> exact .pure Boxed.none
  | .some present => by
    have compared := present.sim less calls context frame
    cases d <;> exact compared

/-- The steps of a block compare. -/
theorem ShedsSteps.sim [Host] [Host.IsApart] {d : Direction} {n k : Nat} (less : n < k)
    (calls : Calls d n k) (context : Context) (some_fuel : 0 < n)
    {es fs : List Expr} (frame : FrameId) :
    ShedsSteps es fs →
    Phase.Alike d ((d.pick es fs).map (Expr.phase n context frame))
      ((d.pick fs es).map (Expr.phase k context frame))
  | .nil => by
    cases d <;> exact .nil
  | .cons same first rest => by
    have here := first.sim less calls context frame
    have others := rest.sim less calls context some_fuel frame
    cases d with
    | shedding => exact .cons same here others
    | restoring => exact .cons same.symm here others
  | .splice unlabelled some_steps unlabelled' first rest => by
    have here := first.sim less calls context frame
    have others := rest.sim less calls context some_fuel frame
    -- a block without variables and labels is its steps, on whichever side it has been spliced
    obtain ⟨n, rfl⟩ : ∃ j, n = j + 1 := ⟨n - 1, by omega⟩
    obtain ⟨k, rfl⟩ : ∃ j, k = j + 1 := ⟨k - 1, by omega⟩
    cases d with
    | shedding =>
      simp only [Direction.pick, List.map_append, List.map_cons] at here others ⊢
      rw [Expr.probe_block_of_unlabelled _ _ _ unlabelled'] at here
      exact .severalSecond unlabelled (by simpa using some_steps)
        (by simpa [Expr.phase] using unlabelled') here others
    | restoring =>
      simp only [Direction.pick, List.map_append, List.map_cons] at here others ⊢
      rw [Expr.probe_block_of_unlabelled _ _ _ unlabelled'] at here
      exact .severalFirst unlabelled (by simpa using some_steps)
        (by simpa [Expr.phase] using unlabelled') here others

/-- What is put off for an operand of a split is the same. -/
theorem ShedsOperand.sim [Host] [Host.IsApart] {d : Direction} {n k : Nat} (less : n < k)
    (calls : Calls d n k) (context : Context) {e f : Expr} (frame : FrameId) :
    ShedsOperand e f →
    Probe.Sim d
      (fun halt => (d.pick e f).putOff (Run.probing n halt) n context frame)
      (fun halt => (d.pick f e).putOff (Run.probing k halt) k context frame)
  | .invoke callee arguments => by
    have first := callee.sim less calls context frame
    have others := arguments.sim less calls context frame
    cases d <;> exact .bind first fun function => .bind others fun values => .pure _
  | .cached callee argument => by
    have first := callee.sim less calls context frame
    have second := argument.sim less calls context frame
    cases d <;> exact .bind first fun function => .bind second fun v => .pure _
  | .other noCall => by
    cases d <;> simp only [Direction.pick, Expr.putOff_of_noCall _ _ _ _ noCall] <;> exact .fail _

end

/-! ## Calls -/

namespace Probe.Sim

variable [Host] {d : Direction} {n k : Nat}

/-- A function does alike if calls and bodies with less fuel do. -/
theorem apply [Host.IsApart] (less : n < k) (calls : Calls d n k) {c c' : Callable} (alike : c.Alike d c')
    (args : List Boxed) :
    Sim d (fun halt => Run.apply (Run.probing n halt) n c args) fun halt =>
      Run.apply (Run.probing k halt) k c' args := by
  have closure : ∀ {ps body body' frame context}, d.Sheds body body' →
      Sim d (fun halt => Run.apply (Run.probing n halt) n (.closure ps body frame context) args)
        fun halt => Run.apply (Run.probing k halt) k (.closure ps body' frame context) args := by
    intro ps body body' frame context bodies
    unfold Run.apply
    simp only
    split
    · refine bind (of_ignores (x := Run.openFrame _ _) fun _ _ => rfl) fun inner => sealed ?_
      -- bodies shed in either direction, and are simulated with the fuel of their side
      cases d with
      | shedding => exact bodies.sim less calls context inner
      | restoring => exact bodies.sim less calls context inner
    · exact fail _
  cases alike with
  | closure bodies => exact closure bodies
  | same c =>
    cases c with
    | closure ps body frame context => exact closure (d.sheds_refl body)
    | collector collected missing =>
      exact of_apart_or_collects (.collector collected _ args)
    | thunk result =>
      unfold Run.apply
      simp only
      split
      · exact pure result
      · exact fail _
    | wrapper inner => exact calls inner args

theorem applyPure (calls : Calls d n k) (f : PureFunction) (args : List Boxed) :
    Sim d (fun halt => Run.applyPure (Run.callBy (Run.halting halt) n) f args) fun halt =>
      Run.applyPure (Run.callBy (Run.halting halt) k) f args := by
  have shown : ∀ (m : Machine) frames functions,
      Machine.current { m with frames := frames, functions := functions } f = m.current f :=
    fun _ _ _ => rfl
  unfold Run.applyPure
  split
  · refine bind (of_apart (.coerceAll _ _)) fun values => bind (of_apart .askNesting) fun _ => ?_
    refine callable_bind fun c c' alike => ?_
    cases alike with
    | closure => exact fail _
    | same c =>
      cases c with
      | wrapper inner =>
        refine bind (calls inner values) fun v => ?_
        exact bind (of_apart (.read shown)) fun g => wrapResult g v
      | _ => exact fail _
  · exact bind (of_apart (.read shown)) fun g => fail _

theorem callAll (calls : Calls d n k) (v : Boxed) (chain : List (List Boxed)) :
    Sim d (fun halt => Run.callAll (Run.callBy (Run.halting halt) n) v chain) fun halt =>
      Run.callAll (Run.callBy (Run.halting halt) k) v chain := by
  induction chain generalizing v with
  | nil => exact pure v
  | cons args chain ih => exact bind (calls v args) fun w => ih w

theorem applyMethod (calls : Calls d n k) (owner : Boxed) (name : String) (args : List Boxed) :
    Sim d (fun halt => Run.applyMethod (Run.callBy (Run.halting halt) n) owner name args) fun halt =>
      Run.applyMethod (Run.callBy (Run.halting halt) k) owner name args := by
  unfold Run.applyMethod
  split
  · exact callAll calls owner _
  · split
    · exact calls owner args
    · refine bind (of_apart (.lift _)) fun result => ?_
      split
      · exact pure owner
      · exact of_ignores fun _ _ => rfl

end Probe.Sim

/-- Calls compare, by induction on the fuel of the first ones. -/
theorem Calls.of_lt [Host] [Host.IsApart] {d : Direction} : ∀ {n k : Nat}, n < k → Calls d n k := by
  intro n
  induction n with
  | zero => exact fun _ function args => .exhausted _
  | succ n ih =>
    intro k less function args
    obtain ⟨k, rfl⟩ : ∃ j, k = j + 1 := ⟨k - 1, by omega⟩
    have inner : Calls d n k := ih (by omega)
    unfold Run.callBy
    split
    · exact .of_apart_or_collects (Host.IsApart.run _ args)
    · exact .callable_bind fun c c' alike => .apply (by omega) inner alike args
    · exact .applyPure inner _ args
    · exact .applyMethod inner _ _ args
    · exact .fail _

end Knot
