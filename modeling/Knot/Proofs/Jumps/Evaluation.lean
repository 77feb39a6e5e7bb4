import Knot.Proofs.Endings
import Knot.Proofs.Evaluation
import Knot.Proofs.Hosts
import Knot.Proofs.Jumps.Scope

/-!
# Where a jump out of a tree goes

A tree ends in a jump only if the target is not caught in the tree (`Confinement.eval`), given that
functions let no jump out.

The induction is done once, for any invariant of machines and any set of faults that fit together
(`Confinement`): with no invariant and all faults it says that no jump gets out, and with all functions
of the machine in scope it says that no jump is refused either.
-/

namespace Knot

/-! ## Runs that leave functions alone -/

namespace Run

variable {α β : Type}

/-- Whether a run leaves the table of functions as it is, and ends neither in a jump nor in the fault of
a jump that a function has refused. -/
def Quiet (x : Run α) : Prop :=
  ∀ functions, Ends (fun m => m.functions = functions) (· ≠ .unsupported .escapingJump)
    (fun _ _ => False) (fun _ => True) x

namespace Quiet

theorem intro {x : Run α}
    (outcome : ∀ m, (x m).1.Among (· ≠ .unsupported .escapingJump) (fun _ _ => False) fun _ => True)
    (kept : ∀ m, (x m).2.functions = m.functions) : Quiet x :=
  fun _ m holds => ⟨outcome m, (kept m).trans holds⟩

theorem of_pure (a : α) : Quiet (pure a) := fun _ => .of_pure trivial

theorem fail {f : Fault} (other : f ≠ .unsupported .escapingJump) : Quiet (Run.fail f : Run α) :=
  fun _ => .fail other

theorem bind {x : Run α} {g : α → Run β} (first : Quiet x) (second : ∀ a, Quiet (g a)) :
    Quiet (x >>= g) := fun functions => (first functions).bind fun a _ => second a functions

theorem ite {c : Prop} [Decidable c] {x y : Run α} (left : Quiet x) (right : Quiet y) :
    Quiet (if c then x else y) := by
  split
  · exact left
  · exact right

theorem read (f : Machine → α) : Quiet (Run.read f) := .intro (fun _ => trivial) fun _ => rfl

theorem update {f : Machine → Machine} (kept : ∀ m, (f m).functions = m.functions) :
    Quiet (Run.update f) := .intro (fun _ => trivial) kept

theorem box (v : Value) : Quiet (Run.box v) := .intro (fun _ => trivial) fun _ => rfl

theorem lift {x : Except Fault α} (supported : Supported x) : Quiet (Run.lift x) := by
  cases x with
  | ok a => exact of_pure a
  | error f => exact fail fun same => supported _ (congrArg _ same)

theorem boxResult {x : Except Fault Value} (supported : Supported x) : Quiet (Run.boxResult x) := by
  cases x with
  | ok v => exact box v
  | error f => exact fail fun same => supported _ (congrArg _ same)

theorem coerce (t : StaticType) (v : Boxed) : Quiet (Run.coerce t v) :=
  .ite (of_pure v) (boxResult (supported_coerce t v.value))

theorem applyUnary (op : UnaryOp) (source target : StaticType) (v : Boxed) :
    Quiet (Run.applyUnary op source target v) :=
  .ite (of_pure v) (boxResult (supported_applyUnary op v.value target))

theorem applyBinary (op : BinaryOp) (a b : Boxed) : Quiet (Run.applyBinary op a b) :=
  boxResult (supported_apply op a.value b.value)

theorem lookup (frame : FrameId) (p : Parameter) : Quiet (Run.lookup frame p) := by
  refine .intro ?_ ?_
  · intro m
    unfold Run.lookup
    split
    · trivial
    · rintro ⟨⟩
  · intro m
    unfold Run.lookup
    split <;> rfl

theorem assign (frame : FrameId) (p : Parameter) (v : Boxed) : Quiet (Run.assign frame p v) := by
  refine .intro ?_ ?_
  · intro m
    unfold Run.assign
    split
    · trivial
    · rintro ⟨⟩
  · intro m
    unfold Run.assign
    split <;> rfl

theorem openFrame (parent : Option FrameId) (bindings : List (Nat × Boxed)) :
    Quiet (Run.openFrame parent bindings) := .intro (fun _ => trivial) fun _ => rfl

theorem blockFrame (frame : FrameId) (locals : List Parameter) :
    Quiet (Run.blockFrame frame locals) := .ite (of_pure frame) (openFrame _ _)

theorem onCache (c : CacheId) {f : MemoCache → Except Fault (α × MemoCache)}
    (supported : ∀ cache, Supported (f cache)) : Quiet (Run.onCache c f) := by
  refine .intro ?_ ?_
  · intro m
    have known := supported (m.cache c)
    unfold Run.onCache
    split
    · trivial
    next f failed => exact fun same => known _ (failed.trans (congrArg _ same))
  · intro m
    unfold Run.onCache
    split <;> rfl

theorem tryPool (p : PoolId) {f : WorkerPool → Except Fault WorkerPool}
    (supported : ∀ pool, Supported (f pool)) : Quiet (Run.tryPool p f) := by
  refine .intro ?_ ?_
  · intro m
    have known := supported (m.pool p)
    unfold Run.tryPool
    split
    · trivial
    next f failed => exact fun same => known _ (failed.trans (congrArg _ same))
  · intro m
    unfold Run.tryPool
    split <;> rfl

theorem onPool (p : PoolId) (f : WorkerPool → WorkerPool) : Quiet (Run.onPool p f) :=
  update fun _ => rfl

theorem reserve (p : PoolId) (slots : Value) : Quiet (Run.reserve p slots) := by
  refine .intro ?_ ?_
  · intro m
    have known := supported_reserve? (m.pool p) slots
    unfold Run.reserve
    split
    · trivial
    · trivial
    next f failed => exact fun same => known _ (failed.trans (congrArg _ same))
  · intro m
    unfold Run.reserve
    split <;> rfl

theorem resolvePool (pool : Option PoolId) : Quiet (Run.resolvePool pool) := by
  cases pool with
  | some p => exact of_pure p
  | none =>
    refine .intro (fun _ => trivial) fun m => ?_
    show m.ensureDefaultPool.2.functions = m.functions
    unfold Machine.ensureDefaultPool
    split <;> rfl

theorem askNesting : Quiet Run.askNesting :=
  fun functions m holds => lift (supported_askNesting m.settings) functions m holds

theorem callable (id : Nat) : Quiet (Run.callable id) := by
  refine .intro ?_ ?_
  · intro m
    unfold Run.callable
    split
    · trivial
    · rintro ⟨⟩
  · intro m
    unfold Run.callable
    split <;> rfl

theorem functionMember (owner : Value) (name : String) : Quiet (Run.functionMember owner name) := by
  unfold Run.functionMember
  split
  · exact (callable _).bind fun c => box _
  · refine (callable _).bind fun c => ?_
    split
    · exact of_pure _
    · exact fail (by rintro ⟨⟩)
  · exact fail (by rintro ⟨⟩)

theorem member (owner : Boxed) (name : String) : Quiet (Run.member owner name) := by
  refine (read _).bind fun given => ?_
  split
  · exact of_pure _
  · split
    · exact of_pure _
    · exact box _
    · exact box _
    · exact fail (by rintro ⟨⟩)
    · exact functionMember _ _

theorem reportAll (args : List Boxed) : Quiet (HostAction.reportAll args) :=
  .ite (update fun _ => rfl) (fail (by rintro ⟨⟩))

theorem coerceAll (types : List StaticType) (vs : List Boxed) : Quiet (Run.coerceAll types vs) := by
  induction types generalizing vs with
  | nil => exact of_pure []
  | cons t ts ih =>
    cases vs with
    | nil => exact of_pure []
    | cons v vs => exact (coerce t v).bind fun _ => (ih vs).bind fun _ => of_pure _

end Quiet

/-- A quiet run, or one that makes a function that waits for more arguments, which has no body. -/
def QuietOrCollects (x : Run Boxed) : Prop :=
  x.Quiet ∨ ∃ collected n, x = Run.newFunction (.collector collected n)

theorem QuietOrCollects.collector (collected : List Boxed) (missing : Nat) (args : List Boxed) :
    QuietOrCollects
      (args |> HostAction.onOne fun x => HostAction.collect (collected ++ [x]) missing) :=
  HostAction.collector_of (.inl (.fail (by rintro ⟨⟩))) (fun v => .inl (.box v))
    (fun collected n => .inr ⟨collected, n, rfl⟩) collected missing args

end Run

/-- A host that does not jump: its functions are quiet or make one that waits for more arguments, and its
methods do not fail as only the evaluation of a tree does. -/
class Host.IsQuiet [Host] : Prop where
  run : ∀ f args, (Host.run f args).QuietOrCollects
  method : ∀ v name args, Supported (Host.method v name args)

instance Host.listed_isQuiet : Host.IsQuiet where
  run f args := f.action.run_of (fun v => .inl (.of_pure v))
    (fun _ other => .inl (.fail (other _))) (fun _ supported => .inl (.boxResult supported))
    (fun args v => .inl ((Run.Quiet.reportAll args).bind fun _ => .of_pure v))
    (fun collected n => .inr ⟨collected, n, rfl⟩) args
  method := supported_callMethod

/-! ## Jumps that are caught -/

/-- A jump is caught by a block that has a label for it. -/
theorem Step.after?_eq_none {target : Nat} {steps : List Step} (none : after? target steps = none) :
    ∀ s ∈ steps, s.label ≠ some target := by
  induction steps with
  | nil => exact List.forall_mem_nil _
  | cons s rest ih =>
    unfold after? at none
    split at none
    next => cases none
    next absent =>
      split at none
      next => cases none
      next other => exact List.forall_mem_cons.2 ⟨other, ih absent⟩

/-- So a jump out of a block is to none of its labels. -/
theorem Step.label_of_jump {all : List Step} {target : Nat} {w : Boxed} (fuel : Nat) :
    ∀ {rest : List Step} {v : Boxed} {m : Machine},
      (runFrom all fuel rest v m).1 = .jump target w → ∀ s ∈ all, s.label ≠ some target := by
  induction fuel with
  | zero => rintro rest v m ⟨⟩
  | succ fuel ih =>
    intro rest v m out
    unfold runFrom at out
    rcases ended : runAll rest v m with ⟨outcome, after⟩
    rw [ended] at out
    cases outcome with
    | jump t u =>
      simp only at out
      split at out
      next => exact ih out
      next absent =>
        cases out
        exact after?_eq_none absent
    | value | fault | exhausted => cases out

/-- A jump out of a loop is to neither of its labels. -/
theorem Run.label_of_jump {body : Run Boxed} {breakLabel continueLabel : Option Nat} {target : Nat}
    {w : Boxed} (fuel : Nat) : ∀ {m : Machine},
      (Run.loop body breakLabel continueLabel fuel m).1 = .jump target w →
        breakLabel ≠ some target ∧ continueLabel ≠ some target := by
  induction fuel with
  | zero => rintro m ⟨⟩
  | succ fuel ih =>
    intro m out
    unfold Run.loop at out
    rcases ended : body m with ⟨outcome, after⟩
    rw [ended] at out
    cases outcome with
    | value v => exact ih out
    | jump t u =>
      simp only at out
      split at out
      next => cases out
      next notBreak =>
        split at out
        next => exact ih out
        next notContinue =>
          cases out
          exact ⟨notBreak, notContinue⟩
    | fault | exhausted => cases out

/-! ## Invariants -/

/-- Whether the jumps in the body of a function are in scope. -/
def Callable.InScope : Callable → Prop
  | .closure _ body _ _ => body.JumpsInside
  | .collector _ _ | .thunk _ | .wrapper _ => True

/-- An invariant of machines and a set of faults that fit together: the invariant is about functions only
and allows for all whose jumps are in scope, and a function may refuse a jump only where nothing is
demanded of functions. -/
structure Confinement (I : Machine → Prop) (faults : Fault → Prop) : Prop where
  others : ∀ f, f ≠ .unsupported .escapingJump → faults f
  same : ∀ m m' : Machine, m'.functions = m.functions → I m → I m'
  added : ∀ (m m' : Machine) c, c.InScope → m'.functions = m.functions.push c → I m → I m'
  known : (faults (.unsupported .escapingJump) ∧ ∀ m, I m) ∨
    ∀ (m : Machine) c, I m → c ∈ m.functions → c.InScope

/-- Nothing is demanded. -/
theorem Confinement.none : Confinement (fun _ => True) fun _ => True :=
  ⟨fun _ _ => trivial, fun _ _ _ => id, fun _ _ _ _ _ => id, .inl ⟨trivial, fun _ => trivial⟩⟩

/-- Whether the jumps in all functions are in scope. -/
def Machine.InScope (m : Machine) : Prop := ∀ c ∈ m.functions, c.InScope

/-- All functions are in scope, and no jump is refused. -/
theorem Confinement.inScope : Confinement Machine.InScope (· ≠ .unsupported .escapingJump) := by
  refine ⟨fun _ => id, fun m m' same holds => ?_, fun m m' c new added holds => ?_,
    .inr fun m c holds inside => holds c inside⟩
  · unfold Machine.InScope
    rwa [same]
  · unfold Machine.InScope
    rw [added]
    intro d inside
    rcases Array.mem_push.1 inside with old | rfl
    · exact holds d old
    · exact new

/-- Whether a run keeps an invariant and ends in none but certain faults and jumps. -/
abbrev Run.Within {α : Type} (I : Machine → Prop) (faults : Fault → Prop) (targets : Nat → Prop)
    (x : Run α) : Prop := Run.Ends I faults (fun n _ => targets n) (fun _ => True) x

theorem Run.Within.mono {α : Type} {I : Machine → Prop} {faults : Fault → Prop}
    {targets more : Nat → Prop} {x : Run α} (h : Within I faults targets x)
    (all : ∀ n, targets n → more n) : Within I faults more x := by
  intro m holds
  obtain ⟨among, kept⟩ := h m holds
  exact ⟨among.imp (fun _ => id) (fun n _ => all n) fun _ => id, kept⟩

/-- The outcome of two runs is among what they end in. -/
theorem Outcome.Among.both {α β : Type} {faults : Fault → Prop} {jumps : Nat → Boxed → Prop}
    {a : Outcome α} {b : Outcome β} (left : a.Among faults jumps fun _ => True)
    (right : b.Among faults jumps fun _ => True) : (a.both b).Among faults jumps fun _ => True := by
  cases a <;> cases b <;> trivial

/-- Two runs that both take place. -/
theorem Run.Within.both {α β : Type} {I : Machine → Prop} {faults : Fault → Prop}
    {targets : Nat → Prop} {left : Run α} {right : Run β} (rightFirst : Bool)
    (ofLeft : Within I faults targets left) (ofRight : Within I faults targets right) :
    Within I faults targets (Run.both rightFirst left right) := by
  intro m holds
  unfold Run.both
  split
  · obtain ⟨among, kept⟩ := ofRight m holds
    rcases ended : right m with ⟨outcome, after⟩
    rw [ended] at among kept
    obtain ⟨among', kept'⟩ := ofLeft after kept
    cases outcome with
    | exhausted => exact ⟨trivial, kept⟩
    | value | fault | jump => exact ⟨among'.both among, kept'⟩
  · obtain ⟨among, kept⟩ := ofLeft m holds
    rcases ended : left m with ⟨outcome, after⟩
    rw [ended] at among kept
    obtain ⟨among', kept'⟩ := ofRight after kept
    cases outcome with
    | exhausted => exact ⟨trivial, kept⟩
    | value | fault | jump => exact ⟨among.both among', kept'⟩

namespace Confinement

open Run (Ends Within)

variable {I : Machine → Prop} {faults : Fault → Prop} {targets more : Nat → Prop} {α β : Type}

variable (h : Confinement I faults)
include h

/-- A quiet run fits every invariant. -/
theorem quiet {x : Run α} (quiet : x.Quiet) : Within I faults targets x := by
  intro m holds
  obtain ⟨among, kept⟩ := quiet m.functions m rfl
  refine ⟨among.imp h.others ?_ fun _ => id, h.same m _ kept holds⟩
  rintro n v ⟨⟩

theorem addFunction {c : Callable} (inScope : c.InScope) :
    Within I faults targets (Run.addFunction c) :=
  fun m holds => ⟨trivial, h.added m _ c inScope rfl holds⟩

theorem newFunction {c : Callable} (inScope : c.InScope) :
    Within I faults targets (Run.newFunction c) :=
  (h.addFunction inScope).bind fun _ _ => .of_pure trivial

/-- What is known of a function that is looked up. -/
theorem callable (place : Nat) :
    Ends I faults (fun n _ => targets n)
      (fun c => (faults (.unsupported .escapingJump) ∧ ∀ m, I m) ∨ c.InScope) (Run.callable place) := by
  intro m holds
  unfold Run.callable
  split
  next c found =>
    refine ⟨?_, holds⟩
    exact h.known.imp id fun known => known m c holds (Array.mem_of_getElem? found)
  next => exact ⟨h.others _ (by rintro ⟨⟩), holds⟩

/-- A function lets no jump out: it refuses those that nobody has caught, if there can be any. -/
theorem sealed {x : Run Boxed}
    (inner : (faults (.unsupported .escapingJump) ∧ ∀ m, I m) ∨
      Within I faults (fun _ => False) x) : Within I faults (fun _ => False) (Run.sealed x) := by
  intro m holds
  unfold Run.sealed
  rcases inner with ⟨refusal, anything⟩ | caught
  · refine ⟨?_, anything _⟩
    rcases x m with ⟨v | f | ⟨t, v⟩ | -, after⟩
    · trivial
    · by_cases same : f = .unsupported .escapingJump
      · exact same ▸ refusal
      · exact h.others f same
    · exact refusal
    · trivial
  · obtain ⟨among, kept⟩ := caught m holds
    rcases ended : x m with ⟨outcome, after⟩
    rw [ended] at among kept
    cases outcome with
    | jump t v => cases among
    | value | fault | exhausted => exact ⟨among, kept⟩

/-! ## Splits and caches -/

theorem releasing {p : PoolId} {slots : Value} {x : Run α} (inner : Within I faults targets x) :
    Within I faults targets (Run.releasing p slots x) := by
  intro m holds
  obtain ⟨among, kept⟩ := inner m holds
  have gives : Within I faults targets (Run.release p slots) :=
    h.quiet (.tryPool p fun pool => supported_release pool slots)
  unfold Run.releasing
  rcases ended : x m with ⟨outcome, after⟩
  rw [ended] at among kept
  obtain ⟨among', kept'⟩ := gives after kept
  cases outcome with
  | exhausted => exact ⟨trivial, kept⟩
  | value | fault | jump =>
    rcases given : Run.release p slots after with ⟨outcome', last⟩
    rw [given] at among' kept'
    simp only [given]
    cases outcome' with
    | fault f => exact ⟨among', kept'⟩
    | value | jump | exhausted => exact ⟨among, kept'⟩

theorem operands {pool : Option PoolId} {left : Run α} {right : Run β}
    (ofLeft : Within I faults targets left) (ofRight : Within I faults targets right) :
    Within I faults targets (Run.operands pool left right) := by
  refine (h.quiet (.resolvePool pool)).bind fun p _ => (h.quiet (.reserve p _)).bind fun free _ => ?_
  split
  · refine (h.quiet (.read _)).bind fun rightFirst _ => (h.quiet (.onPool p _)).bind fun _ _ => ?_
    refine h.releasing ((h.quiet (.tryPool p supported_submit)).bind fun _ _ => ?_)
    exact ofLeft.both rightFirst ofRight
  · unfold Run.sequential
    refine (h.quiet (.onPool p _)).bind fun _ _ => ?_
    exact ofLeft.bind fun _ _ => ofRight.bind fun _ _ => .of_pure trivial

theorem splitBinary {op : BinaryOp} {pool : Option PoolId} {left right : Run Boxed}
    (ofLeft : Within I faults targets left) (ofRight : Within I faults targets right) :
    Within I faults targets (Run.splitBinary op left right pool) := by
  unfold Run.splitBinary
  split
  · exact (h.operands ofLeft ofRight).bind fun values _ =>
      h.quiet (.boxResult (supported_apply op _ _))
  · exact h.quiet (.fail (by rintro ⟨⟩))

theorem quietOrCollects {x : Run Boxed} (quiet : x.QuietOrCollects) : Within I faults targets x := by
  rcases quiet with quiet | ⟨collected, n, rfl⟩
  · exact h.quiet quiet
  · exact h.newFunction trivial

theorem lookupOrCompute {c : CacheId} {function argument : Boxed} {compute : Run Boxed}
    (inner : Within I faults targets compute) :
    Within I faults targets (Run.lookupOrCompute c function argument compute) := by
  refine (h.quiet (.onCache c fun cache => supported_start cache function argument)).bind
    fun begun _ => ?_
  split
  · exact inner
  · exact .of_pure trivial
  · exact inner.bind fun result _ =>
      h.quiet (.onCache c fun cache => supported_finish cache _ result)

/-! ## Trees -/

end Confinement

section

open Run (Ends Within)

variable {I : Machine → Prop} {faults : Fault → Prop} {targets : Nat → Prop} {i : Interpreter}
  {fuel : Nat} {context : Context} {frame : FrameId}

theorem Expr.evalAll_within [Host] {es : List Expr}
    (each : ∀ e ∈ es, Within I faults targets (e.eval i fuel context frame)) :
    Within I faults targets (evalAll i fuel context frame es) := by
  induction es with
  | nil => exact .of_pure trivial
  | cons e es ih =>
    obtain ⟨first, rest⟩ := List.forall_mem_cons.1 each
    exact first.bind fun _ _ => (ih rest).bind fun _ _ => .of_pure trivial

theorem Expr.evalOption_within [Host] {d : Option Expr}
    (each : ∀ e ∈ d.toList, Within I faults targets (e.eval i fuel context frame)) :
    Within I faults targets (evalOption i fuel context frame d) := by
  cases d with
  | none => exact .of_pure trivial
  | some e => exact each e List.mem_cons_self

/-- A block catches the jumps to its labels. -/
theorem Expr.runBlock_within [Host] {es : List Expr}
    (each : ∀ e ∈ es, Within I faults (fun n => targets n ∨ ∃ e ∈ es, e.labelUid? = some n)
      (e.eval i fuel context frame)) :
    Within I faults targets (Step.runBlock fuel (steps i fuel context frame es)) := by
  intro m holds
  rw [steps_eq_map]
  have every : ∀ s ∈ es.map fun e => (⟨e.labelUid?, e.eval i fuel context frame⟩ : Step),
      Within I faults (fun n => targets n ∨ ∃ e ∈ es, e.labelUid? = some n) s.run := by
    intro s inside
    obtain ⟨e, member, rfl⟩ := List.mem_map.1 inside
    exact each e member
  have block := Ends.runFrom every
    (fun s last => every s (List.mem_of_getLast? last)) (fun _ _ _ _ _ _ => trivial)
    fuel ⟨[], rfl⟩ (fun _ => trivial) (v := Boxed.none) m holds
  refine ⟨?_, block.2⟩
  have among := block.1
  unfold Step.runBlock
  cases outcome : (Step.runFrom _ fuel _ Boxed.none m).1 with
  | jump target v =>
    rw [outcome] at among
    -- a jump that leaves the block has none of its labels as a target
    rcases among with outside | ⟨e, member, labelled⟩
    · exact outside
    · have caught := Step.label_of_jump fuel outcome _ (List.mem_map_of_mem member)
      exact absurd labelled caught
  | value | fault | exhausted =>
    rw [outcome] at among
    exact among

/-- A loop catches the jumps to its labels. -/
theorem Run.loop_within {body : Run Boxed} {breakLabel continueLabel : Option Nat}
    (turn : Within I faults
      (fun n => targets n ∨ breakLabel = some n ∨ continueLabel = some n) body) :
    Within I faults targets (Run.loop body breakLabel continueLabel fuel) := by
  intro m holds
  have whole : (Run.loop body breakLabel continueLabel fuel m).1.Among faults _ (fun _ => True) ∧
      I (Run.loop body breakLabel continueLabel fuel m).2 :=
    Ends.loop turn (fun _ _ _ _ => trivial) fuel m holds
  refine ⟨?_, whole.2⟩
  have among := whole.1
  cases outcome : (Run.loop body breakLabel continueLabel fuel m).1 with
  | jump target v =>
    rw [outcome] at among
    obtain ⟨notBreak, notContinue⟩ := Run.label_of_jump fuel outcome
    rcases among with outside | broken | continued
    · exact outside
    · exact absurd broken notBreak
    · exact absurd continued notContinue
  | value | fault | exhausted =>
    rw [outcome] at among
    exact among

end

namespace Confinement

open Run (Ends Within)

variable {I : Machine → Prop} {faults : Fault → Prop} (h : Confinement I faults) {i : Interpreter}
  (calls : ∀ f args, Within I faults (fun _ => False) (i.call f args))
  (unary : ∀ op source target v, Within I faults (fun _ => False) (i.unary op source target v))
include h calls

/-- The operand of a split call, before the call itself. -/
theorem deferred [Host] {fuel : Nat} {context : Context} {frame : FrameId} {targets : Nat → Prop} {e : Expr}
    (below : ∀ c ∈ e.children, Within I faults (e.scope targets) (c.eval i fuel context frame)) :
    Ends I faults (fun n _ => targets n) (Within I faults targets)
      (e.deferred i fuel context frame) := by
  have call (f : Boxed) (args : List Boxed) : Within I faults targets (i.call f args) :=
    (calls f args).mono (by rintro n ⟨⟩)
  cases e with
  | invoke f args t =>
    have callee := below f List.mem_cons_self
    have arguments := Expr.evalAll_within fun a member => below a (List.mem_cons_of_mem _ member)
    exact callee.bind fun function _ => arguments.bind fun values _ => .of_pure (call function values)
  | cached f a t cache =>
    have callee := below f List.mem_cons_self
    have argument := below a (List.mem_cons_of_mem _ List.mem_cons_self)
    exact callee.bind fun function _ => argument.bind fun v _ =>
      .of_pure (h.lookupOrCompute (call function [v]))
  | _ => exact .fail (h.others _ (by rintro ⟨⟩))

include unary

/-- A node ends in no jump but to certain targets if its children do so, also where the call that a
child is stays to be run. -/
theorem node [Host] [Host.IsQuiet] {fuel : Nat} {context : Context} {frame : FrameId} {targets : Nat → Prop}
    {e : Expr} (jumps : e.JumpsWithin targets)
    (below : ∀ c ∈ e.children, ∀ inner, Within I faults (e.scope targets)
      (c.eval i fuel context inner))
    (later : ∀ c ∈ e.children, Ends I faults (fun n _ => e.scope targets n)
      (Within I faults (e.scope targets)) (c.deferred i fuel context frame)) :
    Within I faults targets (e.eval i fuel context frame) := by
  -- no jump leaves a call, so a call is within any targets
  have call (f : Boxed) (args : List Boxed) : Within I faults targets (i.call f args) :=
    (calls f args).mono (by rintro n ⟨⟩)
  cases e with
  | constant v t => exact .of_pure trivial
  | parameter p => exact h.quiet (.lookup frame p)
  | unary op a t =>
    have operand := below a List.mem_cons_self frame
    exact operand.bind fun v _ => (unary op a.type t v).mono (by rintro n ⟨⟩)
  | binary op a b t =>
    have left := below a List.mem_cons_self frame
    have right := below b (List.mem_cons_of_mem _ List.mem_cons_self) frame
    have strict : Within I faults targets (do
        let v ← a.eval i fuel context frame
        let w ← b.eval i fuel context frame
        Run.applyBinary op v w) :=
      left.bind fun v _ => right.bind fun w _ => h.quiet (.applyBinary op v w)
    cases op with
    | assign =>
      cases a with
      | parameter p =>
        exact right.bind fun v _ => (h.quiet (.assign frame p v)).bind fun _ _ => .of_pure trivial
      | _ => exact h.quiet (.fail (by rintro ⟨⟩))
    | andAlso =>
      refine left.bind fun v _ => ?_
      split
      · exact right.bind fun w _ => h.quiet (.box _)
      · exact h.quiet (.box _)
    | orElse =>
      refine left.bind fun v _ => ?_
      split
      · exact h.quiet (.box _)
      · exact right.bind fun w _ => h.quiet (.box _)
    | _ => exact strict
  | conditional a b c t =>
    have test := below a List.mem_cons_self frame
    have ifTrue := below b (by simp [Expr.children]) frame
    have ifFalse := below c (by simp [Expr.children]) frame
    refine test.bind fun v _ => ?_
    split
    · exact ifTrue
    · exact ifFalse
  | invoke f args t =>
    have callee := below f List.mem_cons_self frame
    have arguments := Expr.evalAll_within fun a member =>
      below a (List.mem_cons_of_mem _ member) frame
    exact callee.bind fun function _ => arguments.bind fun values _ => call function values
  | member a name t =>
    have owner := below a List.mem_cons_self frame
    exact owner.bind fun v _ => h.quiet (.member v name)
  | hostCall f args t =>
    have arguments := Expr.evalAll_within fun a member => below a member frame
    refine arguments.bind fun values _ => ?_
    exact (h.quietOrCollects (Host.IsQuiet.run f values)).bind fun v _ => h.quiet (.coerce t v)
  | block vs es t =>
    -- in its steps the labels of the block are targets as well; the block catches what jumps to them
    refine (h.quiet (.blockFrame frame vs)).bind fun inner _ => ?_
    exact Expr.runBlock_within fun c member => below c member inner
  | label l d t => exact Expr.evalOption_within fun c member => below c member frame
  | goto k l v t =>
    -- its own target is the one jump that a tree makes itself
    have value := Expr.evalOption_within fun c member => below c member frame
    exact value.bind fun w _ => .jump jumps.target
  | loop a b c t => exact Run.loop_within (below a List.mem_cons_self frame)
  | lambda ps a t =>
    unfold Expr.eval Run.closure
    split
    · exact h.newFunction (jumps.children a List.mem_cons_self)
    · exact h.quiet (.fail (by rintro ⟨⟩))
  | cached f a t cache =>
    have callee := below f List.mem_cons_self frame
    have argument := below a (List.mem_cons_of_mem _ List.mem_cons_self) frame
    exact callee.bind fun function _ => argument.bind fun v _ =>
      h.lookupOrCompute (call function [v])
  | parallel op a b t pool =>
    have left := later a List.mem_cons_self
    have right := later b (List.mem_cons_of_mem _ List.mem_cons_self)
    exact left.bind fun x ofLeft => right.bind fun y ofRight => h.splitBinary ofLeft ofRight
  | strange v t => exact h.quiet (.fail (by rintro ⟨⟩))
  | bare t => exact h.quiet (.fail (by rintro ⟨⟩))

/-- A tree ends in no jump but to the targets that its jumps are within. -/
theorem eval [Host] [Host.IsQuiet] {fuel : Nat} {context : Context} {frame : FrameId} {targets : Nat → Prop}
    {e : Expr} (jumps : e.JumpsWithin targets) : Within I faults targets (e.eval i fuel context frame) := by
  -- a split evaluates the parts of the calls that it has for operands, so both are proved together
  suffices both : ∀ inner, Within I faults targets (e.eval i fuel context inner) ∧
      Ends I faults (fun n _ => targets n) (Within I faults targets)
        (e.deferred i fuel context inner) from (both frame).1
  induction jumps with
  | @node targets e here children ih =>
    intro inner
    have below : ∀ c ∈ e.children, ∀ inner, Within I faults (e.scope targets)
        (c.eval i fuel context inner) := fun c child inner => (ih c child inner).1
    exact ⟨h.node calls unary (.node here children) below fun c child => (ih c child inner).2,
      h.deferred calls fun c child => below c child inner⟩

end Confinement

end Knot
