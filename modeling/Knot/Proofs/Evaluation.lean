import Knot.Eval

/-!
# Equations of evaluation

Runs compose as a monad, and where it matters how a run ended, by `Run.onward`. How the evaluation of a
node is composed of the evaluation of its parts, where the definition goes through the operators or the
steps one by one, and where it puts calls off (`Expr.putOff`).
-/

namespace Knot

/-- Runs compose as they should. -/
instance : LawfulMonad Run :=
  LawfulMonad.mk' Run
    (fun x => by
      funext m
      show Run.bind x _ m = x m
      unfold Run.bind
      rcases x m with ⟨- | - | - | -, after⟩ <;> rfl)
    (fun _ _ => rfl)
    (fun x f g => by
      funext m
      show Run.bind (Run.bind x f) g m = Run.bind x (fun a => Run.bind (f a) g) m
      unfold Run.bind
      rcases x m with ⟨- | - | - | -, after⟩ <;> rfl)

/-- A run after one that has ended in a value. -/
theorem Run.bind_of_value {α β : Type} {x : Run α} {f : α → Run β} {m m' : Machine} {a : α}
    (ended : x m = (.value a, m')) : (x >>= f) m = f a m' := by
  show Run.bind x f m = f a m'
  rw [Run.bind, ended]

/-- A run after one that has ended in a fault. -/
theorem Run.bind_of_fault {α β : Type} {x : Run α} {f : α → Run β} {m m' : Machine} {e : Fault}
    (ended : x m = (.fault e, m')) : (x >>= f) m = (.fault e, m') := by
  show Run.bind x f m = _
  rw [Run.bind, ended]

/-- Whether a run has ended in a value. -/
def Outcome.isValue {α : Type} : Outcome α → Bool
  | .value _ => true
  | _ => false

theorem Run.value_of_isValue {α : Type} {x : Run α} {m : Machine} (h : (x m).1.isValue = true) :
    ∃ a m', x m = (.value a, m') := by
  rcases ended : x m with ⟨o, m'⟩
  rw [ended] at h
  cases o with
  | value a => exact ⟨a, m', rfl⟩
  | _ => cases h

/-- A run in two parts that ends in a value: the first part ends in one, and so does the second. -/
theorem Run.value_of_bind {α β : Type} {x : Run α} {f : α → Run β} {m m'' : Machine} {b : β}
    (ended : (x >>= f) m = (.value b, m'')) :
    ∃ a m', x m = (.value a, m') ∧ f a m' = (.value b, m'') := by
  change Run.bind x f m = _ at ended
  unfold Run.bind at ended
  split at ended
  next a m' first => exact ⟨a, m', first, ended⟩
  all_goals cases ended

/-- A result that is lifted is one that there is. -/
theorem Run.value_of_lift {α : Type} {x : Except Fault α} {m m' : Machine} {a : α}
    (ended : Run.lift x m = (.value a, m')) : x = .ok a ∧ m' = m := by
  cases x with
  | ok b => cases ended; exact ⟨rfl, rfl⟩
  | error e => cases ended

section

variable {frame : FrameId} {p : Parameter} {m m' : Machine} {v : Boxed}

/-- A variable is looked up in the frames, and that changes nothing. -/
theorem Run.lookup_of_some (found : m.frames.lookup frame p.uid = some v) :
    lookup frame p m = (.value v, m) := by
  unfold lookup
  rw [found]

theorem Run.lookup_of_none (unbound : m.frames.lookup frame p.uid = none) :
    lookup frame p m = (.fault (.unsupported (.unbound p.name)), m) := by
  unfold lookup
  rw [unbound]

/-- So a variable that has a value has it in the frames. -/
theorem Run.value_of_lookup (ended : lookup frame p m = (.value v, m')) :
    m.frames.lookup frame p.uid = some v ∧ m' = m := by
  unfold lookup at ended
  split at ended
  next w found =>
    cases ended
    exact ⟨found, rfl⟩
  next => cases ended

end

/-- A step of a cache that succeeds. -/
theorem Run.onCache_eq {α : Type} {c : CacheId} {f : MemoCache → Except Fault (α × MemoCache)} {a : α}
    {cache : MemoCache} {m : Machine} (done : f (m.cache c) = .ok (a, cache)) :
    Run.onCache c f m = (.value a, m.setCache c cache) := by
  unfold Run.onCache
  rw [done]

/-- And it puts the changed cache in place. -/
theorem Run.value_of_onCache {α : Type} {c : CacheId} {f : MemoCache → Except Fault (α × MemoCache)}
    {m m' : Machine} {a : α} (ended : Run.onCache c f m = (.value a, m')) :
    ∃ cache, f (m.cache c) = .ok (a, cache) ∧ m' = m.setCache c cache := by
  unfold Run.onCache at ended
  split at ended
  next b cache done =>
    cases ended
    exact ⟨cache, done, rfl⟩
  next => cases ended

section

variable {c : CacheId} {function argument : Boxed} {m : Machine} {cache : MemoCache}

/-- A lookup whose first step is refused computes nothing and changes nothing. -/
theorem Run.lookupOrCompute_of_refused {fault : Fault}
    (refused : (m.cache c).start function argument = .error fault) (compute : Run Boxed) :
    lookupOrCompute c function argument compute m = (.fault fault, m) := by
  have stopped : onCache c (fun cache => cache.start function argument) m = (.fault fault, m) := by
    simp only [onCache, refused]
  exact bind_of_fault stopped

/-- A lookup that passes the cache by is what is computed. -/
theorem Run.lookupOrCompute_of_bypassed
    (started : (m.cache c).start function argument = .ok (.bypassed, cache)) (compute : Run Boxed) :
    lookupOrCompute c function argument compute m = compute (m.setCache c cache) :=
  bind_of_value (onCache_eq (f := fun cache => cache.start function argument) started)

/-- A lookup that finds its result computes nothing. -/
theorem Run.lookupOrCompute_of_hit {r : Boxed}
    (started : (m.cache c).start function argument = .ok (.hit r, cache)) (compute : Run Boxed) :
    lookupOrCompute c function argument compute m = (.value r, m.setCache c cache) :=
  bind_of_value (onCache_eq (f := fun cache => cache.start function argument) started)

/-- Any other lookup brings the cache what is computed. -/
theorem Run.lookupOrCompute_of_pending {ticket : Ticket}
    (started : (m.cache c).start function argument = .ok (.pending ticket, cache)) (compute : Run Boxed) :
    lookupOrCompute c function argument compute m =
      (compute >>= fun r => onCache c fun cache => cache.finish ticket r) (m.setCache c cache) :=
  bind_of_value (onCache_eq (f := fun cache => cache.start function argument) started)

end

/-- A value comes through the seal of a function, in both directions. -/
theorem Run.value_of_sealed {x : Run Boxed} {m m' : Machine} {v : Boxed}
    (ended : x.sealed m = (.value v, m')) : x m = (.value v, m') := by
  unfold Run.sealed at ended
  split at ended
  next => cases ended
  next => exact ended

theorem Run.sealed_of_value {x : Run Boxed} {m m' : Machine} {v : Boxed} (ended : x m = (.value v, m')) :
    x.sealed m = (.value v, m') := by
  unfold Run.sealed
  rw [ended]

theorem Run.sealed_congr {x y : Run Boxed} {m : Machine} (same : x m = y m) :
    x.sealed m = y.sealed m := by
  unfold Run.sealed
  rw [same]

/-- Steps that end in a value end a block. -/
theorem Step.runFrom_of_value {all rest : List Step} {v a : Boxed} {m m' : Machine}
    (ended : runAll rest v m = (.value a, m')) (fuel : Nat) :
    runFrom all (fuel + 1) rest v m = (.value a, m') := by
  unfold runFrom
  simp only [ended]

/-! ## What follows whatever the outcome -/

namespace Run

/-- A run, and after its end, unless it has run out of fuel, another one that is told how it ended. -/
def onward {α β : Type} (x : Run α) (f : Outcome α → Run β) : Run β := fun m =>
  match x m with
  | (.exhausted, m) => (.exhausted, m)
  | (o, m) => f o m

/-- The run that ends in an outcome at once. -/
def done {α : Type} (o : Outcome α) : Run α := fun m => (o, m)

section

variable {α β : Type} {x : Run α} {f : Outcome α → Run β} {m after : Machine} {o : Outcome α}

theorem onward_of_exhausted (ended : x m = (.exhausted, after)) :
    x.onward f m = (.exhausted, after) := by
  unfold onward
  rw [ended]

theorem onward_of_ended (ended : x m = (o, after)) (out : o ≠ .exhausted) :
    x.onward f m = f o after := by
  unfold onward
  rw [ended]
  cases o with
  | exhausted => exact absurd rfl out
  | _ => rfl

/-- What follows on a value. -/
def onValue (f : α → Run β) : Outcome α → Run β
  | .value a => f a
  | .fault e => fail e
  | .jump target v => jump target v
  | .exhausted => exhausted

theorem bind_eq_onward (x : Run α) (f : α → Run β) : x >>= f = x.onward (onValue f) := by
  funext m
  show Run.bind x f m = _
  unfold Run.bind onward
  rcases x m with ⟨- | - | - | -, after⟩ <;> rfl

/-- A function refuses what would be a jump out of it. -/
theorem sealed_eq_onward (x : Run Boxed) :
    x.sealed = x.onward fun
      | .jump _ _ => fail (.unsupported .escapingJump)
      | o => done o := by
  funext m
  unfold sealed onward
  rcases x m with ⟨- | - | - | -, after⟩ <;> rfl

theorem releasing_eq_onward (p : PoolId) (slots : Value) (x : Run α) :
    releasing p slots x = x.onward fun o => release p slots >>= fun _ => done o := by
  funext m
  unfold releasing onward
  rcases x m with ⟨o, after⟩
  cases released : (after.pool p).release slots with
  | ok pool =>
    have ended : release p slots after = (.value (), after.setPool p pool) := by
      unfold release tryPool
      simp only [released]
    cases o <;> simp only [ended, bind_of_value ended, done]
  | error f =>
    have ended : release p slots after = (.fault f, after) := by
      unfold release tryPool
      simp only [released]
    have stopped (o : Outcome α) : (release p slots >>= fun _ => done o) after = (.fault f, after) := by
      show Run.bind (release p slots) _ after = _
      rw [Run.bind, ended]
    cases o <;> simp only [ended, stopped]

/-- Of two runs that both take place, the second one takes place however the first one ends. -/
theorem both_eq_onward (rightFirst : Bool) (x : Run α) (y : Run β) :
    both rightFirst x y =
      if rightFirst then y.onward fun b => x.onward fun a => done (a.both b)
      else x.onward fun a => y.onward fun b => done (a.both b) := by
  funext m
  cases rightFirst with
  | true =>
    simp only [both, onward, done, if_true]
    rcases y m with ⟨- | - | - | -, after⟩ <;> simp only <;>
      rcases x after with ⟨- | - | - | -, last⟩ <;> rfl
  | false =>
    simp only [both, onward, done, Bool.false_eq_true, if_false]
    rcases x m with ⟨- | - | - | -, after⟩ <;> simp only <;>
      rcases y after with ⟨- | - | - | -, last⟩ <;> rfl

end

end Run

/-- A step of a block, after which the block goes on or ends. -/
theorem Step.runFrom_succ (all : List Step) (fuel : Nat) (rest : List Step) (v : Boxed) :
    Step.runFrom all (fuel + 1) rest v = (Step.runAll rest v).onward fun
      | .jump target w =>
        match Step.after? target all with
        | some behind => Step.runFrom all fuel behind w
        | none => Run.jump target w
      | o => Run.done o := by
  funext m
  simp only [Step.runFrom, Run.onward]
  rcases Step.runAll rest v m with ⟨- | - | - | -, after⟩
  case jump target w =>
    cases found : Step.after? target all with
    | some => simp only [found]
    | none => simp only [found]; rfl
  all_goals rfl

/-- A turn of a loop, after which the loop goes on or ends. -/
theorem Run.loop_succ (body : Run Boxed) (breakLabel continueLabel : Option Nat) (fuel : Nat) :
    Run.loop body breakLabel continueLabel (fuel + 1) = body.onward fun
      | .value _ => Run.loop body breakLabel continueLabel fuel
      | .jump target v =>
        if breakLabel = some target then pure v
        else if continueLabel = some target then Run.loop body breakLabel continueLabel fuel
        else Run.jump target v
      | o => Run.done o := by
  funext m
  simp only [Run.loop, Run.onward]
  rcases body m with ⟨- | - | - | -, after⟩
  case jump target w =>
    by_cases broken : breakLabel = some target
    · simp only [if_pos broken]
      rfl
    · by_cases continued : continueLabel = some target
      · simp only [if_neg broken, if_pos continued]
      · simp only [if_neg broken, if_neg continued]
        rfl
  all_goals rfl

/-! ## Trees -/

/-- A call that is put off. -/
inductive Deferred where
  | call (function : Boxed) (values : List Boxed)
  | cached (cache : CacheId) (function argument : Boxed)

/-- The call, run at last. -/
def Deferred.run (i : Interpreter) : Deferred → Run Boxed
  | call function values => i.call function values
  | cached cache function argument =>
    Run.lookupOrCompute cache function argument (i.call function [argument])

namespace Expr

variable [Host] (i : Interpreter) (fuel : Nat) (context : Context) (frame : FrameId)

/-- An operator that evaluates both of its operands evaluates the left one first. -/
theorem eval_binary_of_strict {op : BinaryOp} (other : op ≠ .assign)
    (strict : op.isShortCircuit = false) (a b : Expr) (t : StaticType) :
    (binary op a b t).eval i fuel context frame = (do
      let v ← a.eval i fuel context frame
      let w ← b.eval i fuel context frame
      Run.applyBinary op v w) := by
  cases op <;> first | rfl | contradiction

/-- One argument alone. -/
theorem evalAll_one_bind {α : Type} (e : Expr) (g : List Boxed → Run α) :
    (evalAll i fuel context frame [e] >>= g) =
      (e.eval i fuel context frame >>= fun v => g [v]) := by
  simp only [evalAll, bind_assoc, pure_bind]

/-- The steps of a block are its expressions, each with its label. -/
theorem steps_eq_map (es : List Expr) :
    steps i fuel context frame es =
      es.map fun e => ⟨e.labelUid?, e.eval i fuel context frame⟩ := by
  induction es with
  | nil => rfl
  | cons e es ih =>
    rw [List.map_cons, ← ih]
    rfl

/-- What the evaluation of an operand of a split puts off. -/
def putOff : Expr → Run Deferred
  | invoke f args _ => do
    let function ← eval i fuel context frame f
    let values ← evalAll i fuel context frame args
    pure (.call function values)
  | cached f a _ cache => do
    let function ← eval i fuel context frame f
    let v ← eval i fuel context frame a
    pure (.cached (context.cacheFor cache) function v)
  | e => Run.fail (.unsupported (.deferring e.kind))

/-- Nothing is put off of a node that is no call. -/
theorem putOff_of_noCall {e : Expr} (noCall : e.isCall = false) :
    putOff i fuel context frame e = Run.fail (.unsupported (.deferring e.kind)) := by
  cases e <;> first | rfl | cases noCall

theorem deferred_eq_putOff (e : Expr) :
    deferred i fuel context frame e =
      putOff i fuel context frame e >>= fun call => pure (call.run i) := by
  cases e with
  | invoke f args t => simp only [deferred, putOff, bind_assoc, pure_bind, Deferred.run]
  | cached f a t c => simp only [deferred, putOff, bind_assoc, pure_bind, Deferred.run]
  | _ => rfl

/-- A split puts both of its calls off. -/
theorem eval_parallel (op : BinaryOp) (a b : Expr) (t : StaticType) (pool : Option PoolId) :
    (parallel op a b t pool).eval i fuel context frame = (do
      let call ← a.putOff i fuel context frame
      let call' ← b.putOff i fuel context frame
      Run.splitBinary op (call.run i) (call'.run i) (pool.or context.pool)) := by
  simp only [eval, deferred_eq_putOff, bind_assoc, pure_bind]

omit [Host] in
/-- There is an obstacle in several trees only if there is one in a tree among them. -/
theorem obstacleAmong?_eq_none {es : List Expr} :
    obstacleAmong? es = none ↔ ∀ e ∈ es, e.obstacle? = none := by
  induction es with
  | nil => simp [obstacleAmong?]
  | cons e es ih => simp [obstacleAmong?, ih]

end Expr

/-! ## Calls -/

/-- A function is looked up at its place, and that changes nothing. -/
theorem Run.callable_of_some {id : Nat} {c : Callable} {m : Machine} (there : m.functions[id]? = some c) :
    callable id m = (.value c, m) := by
  unfold callable
  rw [there]

theorem Run.callable_of_none {id : Nat} {m : Machine} (absent : m.functions[id]? = none) :
    callable id m = (.fault .wrongKind, m) := by
  unfold callable
  rw [absent]

/-- A call of a closure applies the function at its place. -/
theorem Run.call_of_closure [Host] {function : Boxed} {id : Nat} {c : Callable} {m : Machine}
    (closure : function.value = .closure id) (there : m.functions[id]? = some c) (fuel : Nat)
    (args : List Boxed) :
    call (fuel + 1) function args m = apply ⟨call fuel, applyUnary⟩ fuel c args m := by
  unfold call callBy
  rw [closure]
  exact bind_of_value (callable_of_some there)

/-- A call of a closure of one variable opens a frame and evaluates the body in it. -/
theorem Run.call_closure [Host] {function argument : Boxed} {id uid : Nat} {body : Expr} {frame : FrameId}
    {context : Context} {m : Machine} (closure : function.value = .closure id)
    (there : m.functions[id]? = some (.closure [uid] body frame context)) (fuel : Nat) :
    call (fuel + 1) function [argument] m =
      (body.eval ⟨call fuel, applyUnary⟩ fuel context m.frames.frames.size).sealed
        { m with frames := (m.frames.push (some frame) [(uid, argument)]).2 } :=
  call_of_closure closure there fuel [argument]

end Knot
