import Knot.Proofs.FirstOrder.Runs

/-!
# Evaluation of compiled bodies

The evaluation of a body follows its meaning, by induction on the body (`Evaluates.of_kernel`), if the
calls in it do. A call of a compiled closure follows the limit of its definition, and with fuel `n` it
answers at least what calls of depth `n` answer, by induction on the fuel (`World.call_runs`).
-/

namespace Knot

namespace World

/-- An interpreter that calls the closure of a member as its meaning says. The calls in it answer at
least what `approx` answers. -/
structure Interprets (w : World) (i : Installed w.options) (strict live : Prop)
    (approx : Value → Partial) (interpreter : Interpreter) : Prop where
  unary : interpreter.unary = Run.applyUnary
  below : ∀ a, (approx a).Below (i.definition.limit a)
  call : ∀ function argument m, function.value = .closure i.closure →
    argument.value.hasType i.definition.domain = true → w.Holds m →
    w.Runs (Follows strict live (i.definition.limit argument.value) (approx argument.value))
      (interpreter.call function [argument]) m
  lax : w.options.threading = true → ¬strict
  quiet : w.options.threading = true → live → i.definition.body.connectsNoCalls = true

/-- What is expected of a call that is to be put off, once its function and its argument have been
evaluated. -/
def Defers (w : World) (live : Prop) (limit approx : Partial) (m : Machine) :
    Outcome (Run Boxed) → Prop
  | .value x => w.Pending (Follows False live limit approx) x m
  | .jump _ _ => False
  | .fault _ | .exhausted => live → ∀ v, approx ≠ some (.ok v)

/-- The evaluation of a body follows its meaning wherever the function and the argument are in scope,
and a call in it can be put off. -/
structure Evaluates [Host] (w : World) (i : Installed w.options) (strict live : Prop)
    (approx : Value → Partial) (interpreter : Interpreter) (fuel : Nat) (context : Context)
    (frame : FrameId) (a : Value) (e : Expr) : Prop where
  eval : ∀ m, w.Holds m → i.Scope a frame m →
    w.Runs (Follows strict live (e.meaning i.definition.limit a) (e.meaning approx a))
      (e.eval interpreter fuel context frame) m
  deferred : e.isCall = true → ∀ m, w.Holds m → i.Scope a frame m →
    w.Runs (w.Defers live (e.meaning i.definition.limit a) (e.meaning approx a) m)
      (e.deferred interpreter fuel context frame) m

end World

/-- Without splits or with them, less is expected if nothing strict is. -/
theorem Follows.relax {strict live : Prop} {limit approx : Partial} {o : Outcome Boxed}
    (h : Follows strict live limit approx o) : Follows False live limit approx o := by
  cases o with
  | value v => exact h
  | fault e => exact ⟨False.elim, h.2⟩
  | jump t v => exact h
  | exhausted => exact ⟨False.elim, h.2⟩

theorem Follows.of_lax {strict live : Prop} (lax : ¬strict) {limit approx : Partial}
    {o : Outcome Boxed} (h : Follows False live limit approx o) :
    Follows strict live limit approx o := by
  cases o with
  | value v => exact h
  | fault e => exact ⟨fun impossible => absurd impossible lax, h.2⟩
  | jump t v => exact h
  | exhausted => exact ⟨fun impossible => absurd impossible lax, h.2⟩

/-- A connective evaluates its right operand only if the left one leaves it open. -/
theorem Expr.eval_binary_of_shortCircuit [Host] {op : BinaryOp} (connective : op.isShortCircuit = true)
    (i : Interpreter) (fuel : Nat) (context : Context) (frame : FrameId) (a b : Expr)
    (t : StaticType) :
    (binary op a b t).eval i fuel context frame = (do
      let v ← a.eval i fuel context frame
      match op.decided? v.value with
      | some c => Run.truth c
      | none => do
        let w ← b.eval i fuel context frame
        Run.truth w.value.truthy) := by
  cases op with
  | andAlso =>
    rw [eval]
    congr 1
    funext v
    cases truth : v.value.truthy <;> simp [BinaryOp.decided?, truth]
  | orElse =>
    rw [eval]
    congr 1
    funext v
    cases truth : v.value.truthy <;> simp [BinaryOp.decided?, truth]
  | _ => cases connective

namespace World

variable {w : World} {i : Installed w.options} {strict live : Prop} {m : Machine}

/-- A unary operator on a value. -/
theorem runs_applyUnary (h : w.Holds m) (op : UnaryOp) (source : StaticType) (t : ValueType)
    (v : Boxed) :
    w.Runs (Follows strict live (some (op.apply v.value (.value t)))
      (some (op.apply v.value (.value t)))) (Run.applyUnary op source (.value t) v) m := by
  unfold Run.applyUnary
  split
  next keeps =>
    rw [Bool.and_eq_true] at keeps
    have same : op.apply v.value (.value t) = .ok v.value := by
      have typed : v.value.hasType t = true := keeps.2
      cases op with
      | convert | convertChecked => simp [UnaryOp.apply, Value.convert, typed]
      | _ => cases keeps.1
    rw [same]
    exact w.runs_pure h v
  next => exact w.runs_boxResult h _

/-- A run that lets no jump out is not changed by sealing it. -/
theorem Runs.sealed {limit approx : Partial} {x : Run Boxed}
    (h : w.Runs (Follows strict live limit approx) x m) :
    w.Runs (Follows strict live limit approx) (Run.sealed x) m := by
  have same : Run.sealed x m = x m := by
    unfold Run.sealed
    rcases ended : x m with ⟨o, m'⟩
    cases o with
    | jump t v =>
      have impossible := h.outcome
      rw [ended] at impossible
      exact impossible.elim
    | _ => rfl
  exact h.of_later (.refl m) (fun _ _ => rfl) same

section

variable [Host] {approx : Value → Partial} {interpreter : Interpreter} {fuel : Nat} {context : Context}
  {frame : FrameId} {a : Value}

/-- The variable of the recursive calls shows the closure. -/
theorem eval_function (interpreter : Interpreter) (fuel : Nat) (context : Context)
    (scope : i.Scope a frame m) :
    ∃ function, function.value = .closure i.closure ∧
      (Expr.parameter i.bound).eval interpreter fuel context frame m = (.value function, m) := by
  obtain ⟨-, function, found, closure⟩ := scope.bound
  exact ⟨function, closure, Run.lookup_of_some found⟩

/-- An operator that is no connective, on operands that follow their meanings. -/
theorem Evaluates.binary_of_strict {op : BinaryOp} {left right : Expr} {t : StaticType}
    (first : w.Evaluates i strict live approx interpreter fuel context frame a left)
    (second : w.Evaluates i strict live approx interpreter fuel context frame a right)
    (below : (left.meaning approx a).Below (left.meaning i.definition.limit a))
    (below' : (right.meaning approx a).Below (right.meaning i.definition.limit a))
    (other : op ≠ .assign) (plain : op.isShortCircuit = false) :
    w.Evaluates i strict live approx interpreter fuel context frame a (.binary op left right t) where
  eval m holds scope := by
    rw [Expr.eval_binary_of_strict _ _ _ _ other plain]
    show w.Runs (Follows _ _ (op.join _ _) (op.join _ _)) _ m
    rw [BinaryOp.join_of_strict plain, BinaryOp.join_of_strict plain]
    refine (first.eval m holds scope).andThen below fun v m' _ holds' later => ?_
    refine (second.eval m' holds' (scope.later later)).andThen below' fun u m'' _ holds'' _ => ?_
    exact w.runs_boxResult holds'' _
  deferred call := by cases call

/-- A connective on operands that follow their meanings. -/
theorem Evaluates.binary_of_shortCircuit {op : BinaryOp} {left right : Expr} {s : ValueType}
    {t : StaticType}
    (first : w.Evaluates i strict live approx interpreter fuel context frame a left)
    (second : w.Evaluates i strict live approx interpreter fuel context frame a right)
    (below : (left.meaning approx a).Below (left.meaning i.definition.limit a))
    (below' : (right.meaning approx a).Below (right.meaning i.definition.limit a))
    (typed : ∀ {v}, left.meaning i.definition.limit a = some (.ok v) → v.hasType s = true)
    (connective : op.isShortCircuit = true) :
    w.Evaluates i strict live approx interpreter fuel context frame a (.binary op left right t) where
  eval m holds scope := by
    rw [Expr.eval_binary_of_shortCircuit connective]
    show w.Runs (Follows _ _ (op.join _ _) (op.join _ _)) _ m
    refine (first.eval m holds scope).andThen below fun v m' known holds' later => ?_
    cases decided : op.decided? v.value with
    | some c => exact w.runs_boxResult holds' (.ok (.scalar (.bool c)))
    | none =>
      refine (second.eval m' holds' (scope.later later)).andThen below' fun u m'' _ holds'' _ => ?_
      rw [BinaryOp.apply_of_undecided connective (typed known) decided]
      exact w.runs_boxResult holds'' (.ok (.scalar (.bool u.value.truthy)))
  deferred call := by cases call

/-- A conditional on parts that follow their meanings. -/
theorem Evaluates.conditional {test left right : Expr} {t : StaticType}
    (tested : w.Evaluates i strict live approx interpreter fuel context frame a test)
    (first : w.Evaluates i strict live approx interpreter fuel context frame a left)
    (second : w.Evaluates i strict live approx interpreter fuel context frame a right)
    (below : (test.meaning approx a).Below (test.meaning i.definition.limit a)) :
    w.Evaluates i strict live approx interpreter fuel context frame a
      (.conditional test left right t) where
  eval m holds scope := by
    rw [Expr.eval]
    refine (tested.eval m holds scope).andThen below fun v m' _ holds' later => ?_
    split
    · exact first.eval m' holds' (scope.later later)
    · exact second.eval m' holds' (scope.later later)
  deferred call := by cases call

/-- Evaluating the argument of a call and putting off the call itself. -/
theorem runs_defer {argument : Expr} {call : Boxed → Run Boxed} (holds : w.Holds m)
    (scope : i.Scope a frame m)
    (below : (argument.meaning approx a).Below (argument.meaning i.definition.limit a))
    (given : w.Evaluates i strict live approx interpreter fuel context frame a argument)
    (called : ∀ v m', argument.meaning i.definition.limit a = some (.ok v.value) → w.Holds m' →
      w.Runs (Follows False live (i.definition.limit v.value) (approx v.value)) (call v) m') :
    w.Runs (w.Defers live ((argument.meaning i.definition.limit a).andThen i.definition.limit)
      ((argument.meaning approx a).andThen approx) m)
      (do
        let v ← argument.eval interpreter fuel context frame
        pure (call v)) m := by
  refine (given.eval m holds scope).bind (fun v m' known holds' later => ?_) ?_ ?_ ?_
  · have answer : argument.meaning i.definition.limit a = some (.ok v.value) := known
    refine .of_eq holds' rfl fun m'' holds'' later' => ?_
    refine (called v m'' answer holds'').weaken fun o expected => ?_
    rw [answer, Partial.andThen_ok]
    rw [answer] at below
    -- the argument may be known only in the limit, and then nothing is asked of the call
    refine expected.lower ?_
    rcases below with none_yet | same
    · rw [none_yet]
      exact .of_none _
    · rw [same]
      exact .refl _
  · rintro e ⟨-, never⟩ alive v answer
    obtain ⟨u, operand, -⟩ := Partial.andThen_eq_ok.1 answer
    exact never alive u operand
  · intro t v impossible
    exact impossible
  · rintro ⟨-, never⟩ alive v answer
    obtain ⟨u, operand, -⟩ := Partial.andThen_eq_ok.1 answer
    exact never alive u operand

/-- What evaluating a call of a function comes to, the function found. -/
structure Reaches (e argument : Expr) (interpreter : Interpreter) (fuel : Nat) (context : Context)
    (frame : FrameId) (call : Boxed → Run Boxed) (m : Machine) : Prop where
  eval : e.eval interpreter fuel context frame m =
    (argument.eval interpreter fuel context frame >>= call) m
  deferred : e.deferred interpreter fuel context frame m =
    (argument.eval interpreter fuel context frame >>= fun v => pure (call v)) m

/-- A call that comes to evaluating its argument and a run that follows the meaning of the function. -/
theorem Evaluates.of_reaches {e argument : Expr}
    (meaning : ∀ call, e.meaning call a = (argument.meaning call a).andThen call)
    (below : (argument.meaning approx a).Below (argument.meaning i.definition.limit a))
    (given : w.Evaluates i strict live approx interpreter fuel context frame a argument)
    (reached : ∀ m, i.Scope a frame m →
      ∃ call, Reaches e argument interpreter fuel context frame call m ∧
        ∀ v m', argument.meaning i.definition.limit a = some (.ok v.value) → w.Holds m' →
          w.Runs (Follows strict live (i.definition.limit v.value) (approx v.value)) (call v) m') :
    w.Evaluates i strict live approx interpreter fuel context frame a e where
  eval m holds scope := by
    obtain ⟨call, reaches, called⟩ := reached m scope
    rw [meaning, meaning]
    refine Runs.of_later ?_ (.refl m) (fun _ _ => rfl) reaches.eval
    exact (given.eval m holds scope).andThen below fun v m' known holds' _ => called v m' known holds'
  deferred _ m holds scope := by
    obtain ⟨call, reaches, called⟩ := reached m scope
    rw [meaning, meaning]
    refine Runs.of_later ?_ (.refl m) (fun _ _ => rfl) reaches.deferred
    exact w.runs_defer holds scope below given fun v m' known holds' =>
      (called v m' known holds').weaken fun _ => Follows.relax

/-- A split of two calls that can be put off. -/
theorem Evaluates.parallel {op : BinaryOp} {left right : Expr} {s : ValueType} {t : StaticType}
    (h : w.Interprets i strict live approx interpreter)
    (first : w.Evaluates i strict live approx interpreter fuel context frame a left)
    (second : w.Evaluates i strict live approx interpreter fuel context frame a right)
    (below : (left.meaning approx a).Below (left.meaning i.definition.limit a))
    (below' : (right.meaning approx a).Below (right.meaning i.definition.limit a))
    (typed : ∀ {v}, left.meaning i.definition.limit a = some (.ok v) → v.hasType s = true)
    (splittable : op.splittable = true) (on : w.options.threading = true)
    (leftCall : left.isCall = true) (rightCall : right.isCall = true)
    (quiet : i.definition.body.connectsNoCalls = true → op.isShortCircuit = false) :
    w.Evaluates i strict live approx interpreter fuel context frame a
      (.parallel op left right t w.options.pool) where
  eval m holds scope := by
    obtain ⟨p, named, -⟩ := holds.pool on
    have plain : live → op.isShortCircuit = false := fun alive => quiet (h.quiet on alive)
    -- without a value of an operand there is none of the operation
    have leftNever : (live → ∀ v, left.meaning approx a ≠ some (.ok v)) →
        live → ∀ v, op.join (left.meaning approx a) (right.meaning approx a) ≠ some (.ok v) := by
      intro never alive v answer
      obtain ⟨u, u', ofLeft, -⟩ := BinaryOp.join_eq_ok_of_strict (plain alive) answer
      exact never alive u ofLeft
    have rightNever : (live → ∀ v, right.meaning approx a ≠ some (.ok v)) →
        live → ∀ v, op.join (left.meaning approx a) (right.meaning approx a) ≠ some (.ok v) := by
      intro never alive v answer
      obtain ⟨u, u', -, ofRight, -⟩ := BinaryOp.join_eq_ok_of_strict (plain alive) answer
      exact never alive u' ofRight
    rw [Expr.eval, named]
    show w.Runs (Follows _ _ (op.join _ _) (op.join _ _)) _ m
    refine Runs.weaken ?_ fun o => Follows.of_lax (h.lax on)
    refine (first.deferred leftCall m holds scope).bind (fun x m' pending holds' later => ?_)
      (fun e never => ⟨False.elim, leftNever never⟩) (fun _ _ => id)
      (fun never => ⟨False.elim, leftNever never⟩)
    refine (second.deferred rightCall m' holds' (scope.later later)).bind
      (fun y m'' pending' holds'' later' => ?_)
      (fun e never => ⟨False.elim, rightNever never⟩) (fun _ _ => id)
      (fun never => ⟨False.elim, rightNever never⟩)
    exact w.runs_splitBinary holds'' on named splittable plain typed below below'
      (Pending.later pending (later.trans later')) (Pending.later pending' later')
  deferred call := by cases call

/-- The evaluation of a body follows its meaning. -/
theorem Evaluates.of_kernel (fuel : Nat) (h : w.Interprets i strict live approx interpreter)
    (member : i ∈ w.members) (fits : a.hasType i.definition.domain = true) {e : Expr} {t : ValueType}
    (body : Kernel w.options (i.definition.body.connectsNoCalls = true) i.bound i.definition.argument
      i.definition.domain i.definition.codomain e t) :
    w.Evaluates i strict live approx interpreter fuel w.options.context frame a e := by
  -- what evaluation gives is between the meaning at this depth and the limit
  have below : ∀ {e : Expr} {t : ValueType}, Kernel w.options
      (i.definition.body.connectsNoCalls = true) i.bound i.definition.argument i.definition.domain
      i.definition.codomain e t → (e.meaning approx a).Below (e.meaning i.definition.limit a) :=
    fun body => body.meaning_below h.below a
  have typed : ∀ {e : Expr} {t : ValueType}, Kernel w.options
      (i.definition.body.connectsNoCalls = true) i.bound i.definition.argument i.definition.domain
      i.definition.codomain e t → ∀ {v}, e.meaning i.definition.limit a = some (.ok v) →
      v.hasType t = true :=
    fun body => body.meaning_typed i.definition.limit_typed fits
  induction body with
  | constant => exact ⟨fun m holds _ => w.runs_pure holds _, fun call => by cases call⟩
  | argument =>
    refine ⟨fun m holds scope => ?_, fun call => by cases call⟩
    obtain ⟨box, found, value⟩ := scope.argument
    refine .of_eq holds (o := .value box) (Run.lookup_of_some found) ?_
    show some (Except.ok a) = some (.ok box.value)
    rw [value]
  | @conversion op e s t operand _ ih | @unary op e t operand _ _ _ ih =>
    refine ⟨fun m holds scope => ?_, fun call => by cases call⟩
    rw [Expr.eval, h.unary]
    refine (ih.eval m holds scope).andThen (below operand) fun v m' _ holds' _ => ?_
    exact w.runs_applyUnary holds' op _ t v
  | @binary op _ _ _ _ _ left right other _ first second =>
    cases connective : op.isShortCircuit with
    | true =>
      exact .binary_of_shortCircuit first second (below left) (below right) (typed left) connective
    | false => exact .binary_of_strict first second (below left) (below right) other connective
  | conditional test _ _ tested first second => exact .conditional tested first second (below test)
  | @invoke argument operand _ ih =>
    refine .of_reaches (fun _ => rfl) (below operand) ih fun m scope => ?_
    obtain ⟨function, closure, found⟩ := w.eval_function interpreter fuel w.options.context scope
    refine ⟨fun v => interpreter.call function [v], ⟨?_, ?_⟩, fun v m' known holds' => ?_⟩
    · rw [Expr.eval, Run.bind_of_value found, Expr.evalAll_one_bind]
    · rw [Expr.deferred, Run.bind_of_value found, Expr.evalAll_one_bind]
    · exact h.call function v m' closure (typed operand known) holds'
  | @cached argument operand caching ih =>
    refine .of_reaches (fun _ => rfl) (below operand) ih fun m scope => ?_
    obtain ⟨function, closure, found⟩ := w.eval_function interpreter fuel w.options.context scope
    refine ⟨fun v => Run.lookupOrCompute (w.options.context.cacheFor w.options.cache) function v
      (interpreter.call function [v]), ⟨?_, ?_⟩, fun v m' known holds' => ?_⟩
    · rw [Expr.eval, Run.bind_of_value found]
    · rw [Expr.deferred, Run.bind_of_value found]
    · obtain ⟨c, named, -⟩ := holds'.cache caching
      rw [named]
      exact w.runs_lookupOrCompute holds' member named caching closure (typed operand known)
        (h.below v.value) fun m'' holds'' _ =>
          h.call function v m'' closure (typed operand known) holds''
  | parallel left right splittable _ on leftCall rightCall quiet first second =>
    exact .parallel h first second (below left) (below right) (typed left) splittable on leftCall
      rightCall quiet

end

/-! ## Calls -/

/-- Calls with some fuel that follow the limit interpret the calls in a body. -/
theorem Interprets.of_calls [Host] {fuel : Nat}
    (calls : ∀ (function argument : Boxed) (m : Machine), function.value = .closure i.closure →
      argument.value.hasType i.definition.domain = true → w.Holds m →
      w.Runs (Follows (w.options.threading = false)
          (w.options.threading = false ∨ i.definition.body.connectsNoCalls = true)
          (i.definition.limit argument.value) (i.definition.approx fuel argument.value))
        (Run.call fuel function [argument]) m) :
    w.Interprets i (w.options.threading = false)
      (w.options.threading = false ∨ i.definition.body.connectsNoCalls = true)
      (i.definition.approx fuel) ⟨Run.call fuel, Run.applyUnary⟩ := by
  refine ⟨rfl, i.definition.approx_below_limit fuel, calls, fun on off => ?_, fun on alive => ?_⟩
  · rw [on] at off
    cases off
  · rcases alive with off | calm
    · rw [on] at off
      cases off
    · exact calm

/-- A call of a member opens a frame in which the function and the argument are in scope. -/
theorem scope_of_push (h : w.Holds m) (member : i ∈ w.members) (argument : Boxed) :
    i.Scope argument.value m.frames.frames.size
      { m with frames := (m.frames.push (some i.frame) [(i.definition.argument.uid, argument)]).2 } := by
  obtain ⟨existing, box, found, closure⟩ := (h.installed i member).bound
  have shown := Frames.lookup_push_new existing [(i.definition.argument.uid, argument)]
  refine ⟨⟨?_, box, ?_, closure⟩, argument, ?_, rfl⟩
  · show m.frames.frames.size < (m.frames.push _ _).2.frames.size
    unfold Frames.push
    simp only [Array.size_push]
    omega
  · rw [shown, found]
    simp [Frame.ofBindings, Frame.get?, Frame.set, Frame.bind, List.lookup_cons, List.lookup_nil,
      beq_eq_false_iff_ne.2 i.apart.symm]
  · rw [shown]
    simp [Frame.ofBindings, Frame.get?, Frame.set, Frame.bind]

/-- A call of a closure whose body is one for a member follows the meaning of the body, if calls of
the member in it follow theirs. -/
theorem closure_runs [Host] (member : i ∈ w.members) {approx : Value → Partial} {fuel : Nat}
    (interprets : w.Interprets i strict live approx ⟨Run.call fuel, Run.applyUnary⟩)
    {body : Expr} {t : ValueType}
    (kernel : Kernel w.options (i.definition.body.connectsNoCalls = true) i.bound i.definition.argument
      i.definition.domain i.definition.codomain body t)
    {id : Nat} {function argument : Boxed} (closure : function.value = .closure id)
    (there : m.functions[id]? =
      some (.closure [i.definition.argument.uid] body i.frame w.options.context))
    (typed : argument.value.hasType i.definition.domain = true) (h : w.Holds m) :
    w.Runs (Follows strict live (body.meaning i.definition.limit argument.value)
      (body.meaning approx argument.value)) (Run.call (fuel + 1) function [argument]) m := by
  have later := Later.push m (some i.frame) [(i.definition.argument.uid, argument)]
  have evaluates := (Evaluates.of_kernel fuel interprets member typed kernel).eval _
    (h.later later rfl rfl) (w.scope_of_push h member argument)
  exact evaluates.sealed.of_later later (fun _ _ => rfl) (Run.call_closure closure there fuel)

/-- A call of a member follows the limit of its definition. With fuel `n` it answers at least what
calls nested less than `n` deep answer, whatever the cache holds, and if no connective has two calls as
its operands, whatever is split. -/
theorem call_runs [Host] (member : i ∈ w.members) (fuel : Nat) {function argument : Boxed}
    (closure : function.value = .closure i.closure)
    (typed : argument.value.hasType i.definition.domain = true) (h : w.Holds m) :
    w.Runs (Follows (w.options.threading = false)
        (w.options.threading = false ∨ i.definition.body.connectsNoCalls = true)
        (i.definition.limit argument.value) (i.definition.approx fuel argument.value))
      (Run.call fuel function [argument]) m := by
  induction fuel generalizing function argument m with
  | zero => exact .of_eq h rfl ⟨fun _ => rfl, fun _ v impossible => by cases impossible⟩
  | succ n ih =>
    have interprets := Interprets.of_calls (w := w) (i := i) fun function argument m closure typed holds =>
      ih closure typed holds
    have run := closure_runs member interprets i.kernel closure (h.installed i member).function typed h
    -- the marks in the body do not change what the definition answers
    have all : i.body.meaning i.definition.limit argument.value = i.definition.limit argument.value :=
      (i.meaning _ i.definition.limit_typed _ typed).trans (i.definition.limit_eq_meaning _).symm
    have deep : i.body.meaning (i.definition.approx n) argument.value =
        i.definition.approx (n + 1) argument.value :=
      i.meaning _ (i.definition.approx_typed n) _ typed
    rw [all, deep] at run
    exact run

end World

end Knot
