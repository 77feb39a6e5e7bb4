import Knot.Definition
import Knot.Proofs.Caching.Steps
import Knot.Proofs.Endings
import Knot.Proofs.Hosts
import Knot.Proofs.Obstacles
import Knot.Proofs.PoolSizes

/-!
# Evaluation and caches

What is evaluated or called is composed of steps that touch no cache, and of lookups. So it has each property
that those steps have, and that a run inherits from its parts and a lookup from its computation
(`Run.Inherited`). The steps that touch no cache leave the settings and the sizes of worker pools alone as well
(`Run.Uncached`).

One such property is that the settings stay as they are, that there are as many caches as before, and that each
has taken steps of lookups only (`Machine.Advances`, `Run.Advancing.call`). In particular nothing that is
evaluated resets a cache.
-/

namespace Knot

/-- Only the list of caches counts for a cache. -/
theorem Machine.cache_congr {m m' : Machine} (same : m'.caches = m.caches) (c : CacheId) :
    m'.cache c = m.cache c := by
  unfold Machine.cache
  rw [same]

/-- The settings and the number of caches are the same, and every cache has taken steps of lookups only. -/
structure Machine.Advances (m m' : Machine) : Prop where
  settings : m'.settings = m.settings
  size : m'.caches.size = m.caches.size
  cache : ∀ c, (m.cache c).Advances (m'.cache c)

namespace Machine.Advances

variable {m m' m'' : Machine}

theorem of_eq (caches : m'.caches = m.caches) (settings : m'.settings = m.settings) : m.Advances m' := by
  refine ⟨settings, by rw [caches], fun c => ?_⟩
  rw [Machine.cache_congr caches]
  exact .refl _

theorem refl (m : Machine) : m.Advances m := of_eq rfl rfl

theorem trans (first : m.Advances m') (second : m'.Advances m'') : m.Advances m'' where
  settings := second.settings.trans first.settings
  size := second.size.trans first.size
  cache c := (first.cache c).trans (second.cache c)

/-- A step of one cache. -/
theorem setCache {c : CacheId} {value : MemoCache} (step : (m.cache c).Step value) :
    m.Advances (m.setCache c value) := by
  refine ⟨rfl, by simp [Machine.setCache], fun d => ?_⟩
  by_cases inside : c < m.caches.size
  · by_cases here : d = c
    · subst here
      rw [Machine.cache_setCache_self inside]
      exact step.advances
    · rw [Machine.cache_setCache_of_ne here]
      exact .refl _
  · have same : m.setCache c value = m := by
      unfold Machine.setCache
      rw [Array.setIfInBounds_eq_of_size_le (Nat.le_of_not_lt inside)]
    rw [same]
    exact .refl _

end Machine.Advances

/-! ## Runs without lookups -/

namespace Run

/-- The run leaves caches and settings as they are, and worker pools their sizes. -/
def Uncached {α : Type} (x : Run α) : Prop :=
  ∀ m, (x m).2.caches = m.caches ∧ m.KeepsPools (x m).2

namespace Uncached

variable {α β : Type}

theorem of_pure (a : α) : Uncached (pure a) := fun _ => ⟨rfl, .of_eq rfl rfl rfl rfl⟩

theorem fail (f : Fault) : Uncached (Run.fail f : Run α) := fun _ => ⟨rfl, .of_eq rfl rfl rfl rfl⟩

theorem done (o : Outcome α) : Uncached (Run.done o) := fun _ => ⟨rfl, .of_eq rfl rfl rfl rfl⟩

theorem read (f : Machine → α) : Uncached (Run.read f) := fun _ => ⟨rfl, .of_eq rfl rfl rfl rfl⟩

theorem bind {x : Run α} {f : α → Run β} (first : Uncached x) (second : ∀ a, Uncached (f a)) :
    Uncached (x >>= f) := by
  intro m
  show (Run.bind x f m).2.caches = _ ∧ m.KeepsPools (Run.bind x f m).2
  have before := first m
  unfold Run.bind
  generalize x m = r at before ⊢
  obtain ⟨o, after⟩ := r
  obtain ⟨caches, pools⟩ := before
  cases o with
  | value a =>
    obtain ⟨caches', pools'⟩ := second a after
    exact ⟨caches'.trans caches, pools.trans pools'⟩
  | fault | jump | exhausted => exact ⟨caches, pools⟩

theorem ite {c : Prop} [Decidable c] {x y : Run α} (left : Uncached x) (right : Uncached y) :
    Uncached (if c then x else y) := by
  split
  · exact left
  · exact right

theorem box (v : Value) : Uncached (Run.box v) := fun _ => ⟨rfl, .of_eq rfl rfl rfl rfl⟩

theorem boxResult (x : Except Fault Value) : Uncached (Run.boxResult x) := by
  intro m
  cases x <;> exact ⟨rfl, .of_eq rfl rfl rfl rfl⟩

theorem lift (x : Except Fault α) : Uncached (Run.lift x) := by
  intro m
  cases x <;> exact ⟨rfl, .of_eq rfl rfl rfl rfl⟩

theorem coerce (t : StaticType) (v : Boxed) : Uncached (Run.coerce t v) := .ite (of_pure v) (boxResult _)

theorem coerceAll (types : List StaticType) (vs : List Boxed) : Uncached (Run.coerceAll types vs) := by
  induction types generalizing vs with
  | nil => exact of_pure []
  | cons t types ih =>
    cases vs with
    | nil => exact of_pure []
    | cons v vs => exact (coerce t v).bind fun _ => (ih vs).bind fun _ => of_pure _

theorem applyUnary (op : UnaryOp) (source target : StaticType) (v : Boxed) :
    Uncached (Run.applyUnary op source target v) := .ite (of_pure v) (boxResult _)

theorem lookup (frame : FrameId) (x : Parameter) : Uncached (Run.lookup frame x) := by
  intro m
  unfold Run.lookup
  split <;> exact ⟨rfl, .of_eq rfl rfl rfl rfl⟩

theorem assign (frame : FrameId) (x : Parameter) (v : Boxed) : Uncached (Run.assign frame x v) := by
  intro m
  unfold Run.assign
  split <;> exact ⟨rfl, .of_eq rfl rfl rfl rfl⟩

theorem openFrame (parent : Option FrameId) (bindings : List (Nat × Boxed)) :
    Uncached (Run.openFrame parent bindings) := fun _ => ⟨rfl, .of_eq rfl rfl rfl rfl⟩

theorem blockFrame (frame : FrameId) (locals : List Parameter) :
    Uncached (Run.blockFrame frame locals) := .ite (of_pure frame) (openFrame _ _)

theorem addFunction (c : Callable) : Uncached (Run.addFunction c) := fun _ => ⟨rfl, .of_eq rfl rfl rfl rfl⟩

theorem newFunction (c : Callable) : Uncached (Run.newFunction c) :=
  (addFunction c).bind fun _ => of_pure _

theorem newObject (name : String) (members : List (String × Boxed)) :
    Uncached (Run.newObject name members) := fun _ => ⟨rfl, .of_eq rfl rfl rfl rfl⟩

theorem callable (id : Nat) : Uncached (Run.callable id) := by
  intro m
  unfold Run.callable
  split <;> exact ⟨rfl, .of_eq rfl rfl rfl rfl⟩

theorem functionMember (owner : Value) (name : String) : Uncached (Run.functionMember owner name) := by
  unfold Run.functionMember
  split
  · exact (callable _).bind fun c => box _
  · refine (callable _).bind fun c => ?_
    split
    · exact of_pure _
    · exact fail _
  · exact fail _

theorem member (owner : Boxed) (name : String) : Uncached (Run.member owner name) := by
  unfold Run.member
  refine (read _).bind fun given => ?_
  split
  · exact of_pure _
  · split
    · exact of_pure _
    · exact box _
    · exact box _
    · exact fail _
    · exact functionMember _ _

theorem tryPool (p : PoolId) {f : WorkerPool → Except Fault WorkerPool}
    (keeps : ∀ {pool used}, f pool = .ok used → used.workers = pool.workers) :
    Uncached (Run.tryPool p f) := by
  intro m
  unfold Run.tryPool
  split
  next used done => exact ⟨rfl, .setPool (keeps done)⟩
  next => exact ⟨rfl, .refl m⟩

theorem submit (p : PoolId) : Uncached (Run.submit p) := tryPool p WorkerPool.workers_of_submit

theorem release (p : PoolId) (slots : Value) : Uncached (Run.release p slots) :=
  tryPool p WorkerPool.workers_of_release

theorem onPool (p : PoolId) {f : WorkerPool → WorkerPool}
    (keeps : ∀ pool, (f pool).workers = pool.workers) : Uncached (Run.onPool p f) :=
  fun _ => ⟨rfl, .setPool (keeps _)⟩

theorem reserve (p : PoolId) (slots : Value) : Uncached (Run.reserve p slots) := by
  intro m
  unfold Run.reserve
  split
  next used taken => exact ⟨rfl, .setPool (WorkerPool.workers_of_reserve? taken)⟩
  next => exact ⟨rfl, .refl m⟩
  next => exact ⟨rfl, .refl m⟩

theorem resolvePool (pool : Option PoolId) : Uncached (Run.resolvePool pool) := by
  intro m
  cases pool with
  | some p => exact ⟨rfl, .refl m⟩
  | none =>
    refine ⟨?_, .ensureDefaultPool m⟩
    show m.ensureDefaultPool.2.caches = _
    unfold Machine.ensureDefaultPool
    split <;> rfl

theorem askNesting : Uncached Run.askNesting := fun m => lift m.settings.askNesting m

theorem reportAll (args : List Boxed) : Uncached (HostAction.reportAll args) :=
  .ite (fun _ => ⟨rfl, .of_eq rfl rfl rfl rfl⟩) (fail _)

theorem collector (collected : List Boxed) (missing : Nat) (args : List Boxed) :
    Uncached (args |> HostAction.onOne fun x => HostAction.collect (collected ++ [x]) missing) :=
  HostAction.collector_of (fail _) box (fun _ _ => newFunction _) collected missing args

theorem wrapResult (f : PureFunction) (v : Boxed) : Uncached (Run.wrapResult f v) := by
  unfold Run.wrapResult
  split
  · exact .ite ((addFunction (.wrapper v)).bind fun _ => of_pure _) (of_pure _)
  · exact of_pure _

end Uncached

end Run

/-- A host whose functions look nothing up. -/
class Host.IsUncached [Host] : Prop where
  run : ∀ f args, (Host.run f args).Uncached

instance Host.listed_isUncached : Host.IsUncached where
  run f args := f.action.run_of .of_pure (fun fault _ => .fail fault) (fun x _ => .boxResult x)
    (fun args v => (Run.Uncached.reportAll args).bind fun _ => .of_pure v)
    (fun _ _ => .newFunction _) args

/-! ## Properties that are inherited -/

namespace Run

/-- A property of runs that those without lookups have, and that a run has whenever its parts have it. -/
structure Composes (J : ∀ {α : Type}, Run α → Prop) : Prop where
  of_uncached : ∀ {α : Type} {x : Run α}, x.Uncached → J x
  onward : ∀ {α β : Type} {x : Run α} {f : Outcome α → Run β}, J x → (∀ o, J (f o)) → J (x.onward f)

namespace Composes

variable {J : ∀ {α : Type}, Run α → Prop} {α β : Type}

theorem bind (h : Composes J) {x : Run α} {f : α → Run β} (first : J x) (second : ∀ a, J (f a)) :
    J (x >>= f) := by
  rw [Run.bind_eq_onward]
  refine h.onward first fun o => ?_
  cases o with
  | value a => exact second a
  | fault | jump | exhausted => exact h.of_uncached (.done _)

theorem after (h : Composes J) {x : Run α} {f : α → Run β} (first : x.Uncached)
    (second : ∀ a, J (f a)) : J (x >>= f) := h.bind (h.of_uncached first) second

theorem ite (_ : Composes J) {c : Prop} [Decidable c] {x y : Run α} (left : J x) (right : J y) :
    J (if c then x else y) := by
  split
  · exact left
  · exact right

theorem sealed (h : Composes J) {x : Run Boxed} (inner : J x) : J x.sealed := by
  rw [Run.sealed_eq_onward]
  refine h.onward inner fun o => ?_
  cases o with
  | jump => exact h.of_uncached (.fail _)
  | value | fault | exhausted => exact h.of_uncached (.done _)

end Composes

/-- A property that a lookup has, besides, whenever its computation has it. All that is evaluated or called
has such a property (`Inherited.body`, `Inherited.call`). -/
structure Inherited (J : ∀ {α : Type}, Run α → Prop) : Prop extends Composes J where
  lookupOrCompute : ∀ {c : CacheId} {function argument : Boxed} {x : Run Boxed}, J x →
    J (Run.lookupOrCompute c function argument x)

namespace Inherited

variable {J : ∀ {α : Type}, Run α → Prop} (h : Inherited J)
include h

/-! ## Splits -/

theorem splitBinary {op : BinaryOp} {x y : Run Boxed} {pool : Option PoolId} (left : J x) (right : J y) :
    J (Run.splitBinary op x y pool) := by
  unfold Run.splitBinary
  refine h.ite (h.bind ?_ fun _ => h.of_uncached (.boxResult _)) (h.of_uncached (.fail _))
  unfold Run.operands
  refine h.after (.resolvePool pool) fun place => ?_
  refine h.after (.reserve place _) fun reserved => h.ite ?_ ?_
  · unfold Run.split
    refine h.after (.read _) fun rightFirst => ?_
    refine h.after (.onPool place fun _ => rfl) fun _ => ?_
    rw [Run.releasing_eq_onward]
    refine h.onward (h.after (.submit place) fun _ => ?_) fun o =>
      h.after (.release _ _) fun _ => h.of_uncached (.done o)
    rw [Run.both_eq_onward]
    split
    · exact h.onward right fun b => h.onward left fun a => h.of_uncached (.done _)
    · exact h.onward left fun a => h.onward right fun b => h.of_uncached (.done _)
  · unfold Run.sequential
    refine h.after (.onPool place fun _ => rfl) fun _ => ?_
    exact h.bind left fun a => h.bind right fun b => h.of_uncached (.of_pure (a, b))

/-! ## Blocks and loops -/

theorem runAll {steps : List Step} (each : ∀ s ∈ steps, J s.run) (v : Boxed) :
    J (Step.runAll steps v) := by
  induction steps generalizing v with
  | nil => exact h.of_uncached (.of_pure v)
  | cons s rest ih =>
    obtain ⟨first, others⟩ := List.forall_mem_cons.1 each
    exact h.bind first fun w => ih others w

theorem runFrom {all : List Step} (whole : ∀ s ∈ all, J s.run) (fuel : Nat) :
    ∀ {rest : List Step} (v : Boxed), (∀ s ∈ rest, J s.run) → J (Step.runFrom all fuel rest v) := by
  induction fuel with
  | zero => exact fun _ _ => h.of_uncached (.done .exhausted)
  | succ fuel ih =>
    intro rest v each
    rw [Step.runFrom_succ]
    refine h.onward (h.runAll each v) fun o => ?_
    cases o with
    | value | fault | exhausted => exact h.of_uncached (.done _)
    | jump target w =>
      simp only
      cases found : Step.after? target all with
      | none => exact h.of_uncached (.done _)
      | some behind =>
        -- the steps behind a label are steps of the block
        obtain ⟨before, s, rfl, -⟩ := Step.after?_eq_some found
        exact ih w fun s inside => whole s
          (List.mem_append_right _ (List.mem_cons_of_mem _ inside))

theorem loop {x : Run Boxed} (turn : J x) (breakLabel continueLabel : Option Nat) (fuel : Nat) :
    J (Run.loop x breakLabel continueLabel fuel) := by
  induction fuel with
  | zero => exact h.of_uncached (.done .exhausted)
  | succ fuel ih =>
    rw [Run.loop_succ]
    refine h.onward turn fun o => ?_
    cases o with
    | value v => exact ih
    | jump target v => exact h.ite (h.of_uncached (.of_pure v)) (h.ite ih (h.of_uncached (.done _)))
    | fault | exhausted => exact h.of_uncached (.done _)

/-! ## Trees -/

section

variable [Host] {i : Interpreter} {fuel : Nat} {context : Context} {frame : FrameId}

theorem evalAll {es : List Expr} (each : ∀ e ∈ es, J (e.eval i fuel context frame)) :
    J (Expr.evalAll i fuel context frame es) := by
  induction es with
  | nil => exact h.of_uncached (.of_pure [])
  | cons e es ih =>
    obtain ⟨first, rest⟩ := List.forall_mem_cons.1 each
    exact h.bind first fun v => h.bind (ih rest) fun vs => h.of_uncached (.of_pure (v :: vs))

theorem evalOption {d : Option Expr} (each : ∀ e ∈ d.toList, J (e.eval i fuel context frame)) :
    J (Expr.evalOption i fuel context frame d) := by
  cases d with
  | none => exact h.of_uncached (.of_pure Boxed.none)
  | some e => exact each e List.mem_cons_self

theorem runBlock {es : List Expr} (each : ∀ e ∈ es, J (e.eval i fuel context frame)) :
    J (Step.runBlock fuel (Expr.steps i fuel context frame es)) := by
  have steps : ∀ s ∈ Expr.steps i fuel context frame es, J s.run := by
    intro s inside
    rw [Expr.steps_eq_map] at inside
    obtain ⟨e, member, rfl⟩ := List.mem_map.1 inside
    exact each e member
  exact h.runFrom steps fuel Boxed.none steps

/-- What is evaluated of a call that is put off. -/
theorem putOff {e : Expr} (each : ∀ c ∈ e.children, J (c.eval i fuel context frame)) :
    J (e.putOff i fuel context frame) := by
  cases e with
  | invoke f args t =>
    have callee := each f List.mem_cons_self
    have arguments := h.evalAll fun a member => each a (List.mem_cons_of_mem _ member)
    exact h.bind callee fun function => h.bind arguments fun values => h.of_uncached (.of_pure _)
  | cached f a t cache =>
    have callee := each f List.mem_cons_self
    have argument := each a (List.mem_cons_of_mem _ List.mem_cons_self)
    exact h.bind callee fun function => h.bind argument fun v => h.of_uncached (.of_pure _)
  | _ => exact h.of_uncached (.fail _)

omit [Host] in
theorem closure (context : Context) (frame : FrameId) (ps : List Expr) (a : Expr) :
    J (Run.closure context frame ps a) := by
  unfold Run.closure
  split
  · exact h.of_uncached (.newFunction _)
  · exact h.of_uncached (.fail _)

end

section

variable {i : Interpreter} (calls : ∀ f args, J (i.call f args))
  (unary : ∀ op source target v, J (i.unary op source target v))
include calls

theorem deferred (call : Deferred) : J (call.run i) := by
  cases call with
  | call function values => exact calls function values
  | cached cache function argument => exact h.lookupOrCompute (calls function [argument])

include unary

/-- A node inherits the property from its children, also where a child is put off. -/
theorem node [Host] [Host.IsUncached] {fuel : Nat} {context : Context} {frame : FrameId} {e : Expr}
    (inside : ∀ c ∈ e.children, ∀ frame, J (c.eval i fuel context frame))
    (later : ∀ c ∈ e.children, J (c.putOff i fuel context frame)) :
    J (e.eval i fuel context frame) := by
  have children : ∀ c ∈ e.children, J (c.eval i fuel context frame) :=
    fun c child => inside c child frame
  cases e with
  | constant v t => exact h.of_uncached (.of_pure v)
  | parameter x => exact h.of_uncached (.lookup frame x)
  | unary op a t =>
    have operand := children a List.mem_cons_self
    exact h.bind operand fun v => unary op _ t v
  | binary op a c t =>
    have left := children a List.mem_cons_self
    have right := children c (List.mem_cons_of_mem _ List.mem_cons_self)
    by_cases assignment : op = .assign
    · subst assignment
      cases a with
      | parameter x =>
        exact h.bind right fun v => h.after (.assign frame x v) fun _ => h.of_uncached (.of_pure v)
      | _ => exact h.of_uncached (.fail _)
    · cases strict : op.isShortCircuit with
      | false =>
        rw [Expr.eval_binary_of_strict _ _ _ _ assignment strict]
        exact h.bind left fun v => h.bind right fun w => h.of_uncached (.boxResult _)
      | true =>
        cases op with
        | andAlso =>
          refine h.bind left fun v => h.ite ?_ (h.of_uncached (.box _))
          exact h.bind right fun w => h.of_uncached (.box _)
        | orElse =>
          refine h.bind left fun v => h.ite (h.of_uncached (.box _)) ?_
          exact h.bind right fun w => h.of_uncached (.box _)
        | _ => cases strict
  | conditional a c d t =>
    have test := children a List.mem_cons_self
    have ifTrue := children c (by simp [Expr.children])
    have ifFalse := children d (by simp [Expr.children])
    exact h.bind test fun v => h.ite ifTrue ifFalse
  | invoke f args t =>
    have callee := children f List.mem_cons_self
    have arguments := h.evalAll fun a member => children a (List.mem_cons_of_mem _ member)
    exact h.bind callee fun function => h.bind arguments fun values => calls function values
  | member a name t =>
    have owner := children a List.mem_cons_self
    exact h.bind owner fun v => h.of_uncached (.member v name)
  | hostCall f args t =>
    have arguments := h.evalAll children
    exact h.bind arguments fun values =>
      h.of_uncached ((Host.IsUncached.run f values).bind fun v => .coerce t v)
  | block vs es t =>
    refine h.after (.blockFrame frame vs) fun inner => h.runBlock fun c member => ?_
    exact inside c member inner
  | label l d t => exact h.evalOption children
  | goto k l v t => exact h.bind (h.evalOption children) fun w => h.of_uncached (.done (.jump l.uid w))
  | loop a c d t => exact h.loop (children a List.mem_cons_self) _ _ fuel
  | lambda ps a t => exact h.closure context frame ps a
  -- this is the one case in which a cache is asked; the call that it may make keeps the property
  | cached f a t cache =>
    have callee := children f List.mem_cons_self
    have argument := children a (List.mem_cons_of_mem _ List.mem_cons_self)
    exact h.bind callee fun function => h.bind argument fun v => h.lookupOrCompute (calls function [v])
  | parallel op a c t pool =>
    have left := later a List.mem_cons_self
    have right := later c (List.mem_cons_of_mem _ List.mem_cons_self)
    rw [Expr.eval_parallel]
    exact h.bind left fun call => h.bind right fun call' =>
      h.splitBinary (h.deferred calls call) (h.deferred calls call')
  | strange v t => exact h.of_uncached (.fail _)
  | bare t => exact h.of_uncached (.fail _)

/-- A tree inherits the property from the calls that it makes. -/
theorem eval [Host] [Host.IsUncached] {fuel : Nat} {context : Context} (e : Expr) (frame : FrameId) :
    J (e.eval i fuel context frame) := by
  -- a split evaluates the parts of the calls that it has for operands, so both are proved together
  suffices both : ∀ frame, J (e.eval i fuel context frame) ∧ J (e.putOff i fuel context frame) from
    (both frame).1
  induction e using Expr.of_children with
  | node e ih =>
    intro frame
    have inside : ∀ c ∈ e.children, ∀ frame, J (c.eval i fuel context frame) :=
      fun c child frame => (ih c child frame).1
    have later : ∀ c ∈ e.children, J (c.putOff i fuel context frame) :=
      fun c child => (ih c child frame).2
    exact ⟨h.node calls unary inside later, h.putOff fun c child => inside c child frame⟩

/-! ## Calls -/

theorem apply [Host] [Host.IsUncached] {fuel : Nat} (c : Callable) (args : List Boxed) : J
    (Run.apply i fuel c args) := by
  cases c with
  | closure ps body frame context =>
    refine h.ite ?_ (h.of_uncached (.fail _))
    exact h.after (.openFrame _ _) fun inner => h.sealed (h.eval calls unary body inner)
  | collector collected missing => exact h.of_uncached (.collector collected _ args)
  | thunk result => exact h.of_uncached (.ite (.of_pure result) (.fail _))
  | wrapper inner => exact calls inner args

end

section

variable {call : Caller} (calls : ∀ f args, J (call f args))
include calls

theorem applyPure (f : PureFunction) (args : List Boxed) : J (Run.applyPure call f args) := by
  unfold Run.applyPure
  refine h.ite ?_ (h.of_uncached ((Uncached.read _).bind fun shown => .fail _))
  refine h.after (.coerceAll _ _) fun values => h.after .askNesting fun _ => ?_
  refine h.after (.callable _) fun c => ?_
  cases c with
  | wrapper inner =>
    refine h.bind (calls inner values) fun v => ?_
    exact h.after (.read _) fun shown => h.of_uncached (.wrapResult shown v)
  | closure | collector | thunk => exact h.of_uncached (.fail _)

theorem callAll (chain : List (List Boxed)) (v : Boxed) : J (Run.callAll call v chain) := by
  induction chain generalizing v with
  | nil => exact h.of_uncached (.of_pure v)
  | cons args chain ih => exact h.bind (calls v args) fun w => ih w

theorem applyMethod [Host] (owner : Boxed) (name : String) (args : List Boxed) :
    J (Run.applyMethod call owner name args) := by
  unfold Run.applyMethod
  split
  · exact h.callAll calls _ owner
  · refine h.ite (calls owner args) (h.after (.lift _) fun result => ?_)
    split
    · exact h.of_uncached (.of_pure owner)
    · exact h.of_uncached (.box _)

end

section

variable [Host] [Host.IsUncached]

/-- Every call has the property, whatever is called, by induction on how deep calls nest. -/
theorem call (fuel : Nat) : ∀ f args, J (Run.call fuel f args) := by
  induction fuel with
  | zero => exact fun f args => h.of_uncached (.done .exhausted)
  | succ fuel ih =>
    intro f args
    unfold Run.call Run.callBy
    split
    · exact h.of_uncached (Host.IsUncached.run _ args)
    · exact h.after (.callable _) fun c =>
        h.apply (i := ⟨Run.call fuel, Run.applyUnary⟩) ih
          (fun op source target v => h.of_uncached (.applyUnary op source target v)) c args
    · exact h.applyPure ih _ args
    · exact h.applyMethod ih _ _ args
    · exact h.of_uncached (.fail _)

/-- So has the evaluation of a tree in a frame, whatever the calls that it makes. -/
theorem body (fuel : Nat) (context : Context) (e : Expr) (frame : FrameId) :
    J (e.eval ⟨Run.call fuel, Run.applyUnary⟩ fuel context frame) :=
  h.eval (i := ⟨Run.call fuel, Run.applyUnary⟩) (h.call fuel)
    (fun op source target v => h.of_uncached (.applyUnary op source target v)) e frame

/-! ## Building -/

/-- The evaluation of a tree at the root. -/
theorem evaluate (fuel : Nat) (context : Context) (e : Expr) : J (Run.evaluate fuel context e) := by
  unfold Run.evaluate
  split
  · exact h.of_uncached (.fail _)
  · exact h.after (.openFrame none []) fun frame => h.body fuel context e frame

/-- The compilation of a definition. -/
theorem compile (fuel : Nat) (d : Definition) (o : CompileOptions) : J (Run.compile fuel d o) := by
  have log (message : String) : (Run.log message).Uncached :=
    fun _ => ⟨rfl, .of_eq rfl rfl rfl rfl⟩
  have freshUid : Run.freshUid.Uncached := fun _ => ⟨rfl, .of_eq rfl rfl rfl rfl⟩
  have reduce (e : Expr) : (Run.reduce e).Uncached := by
    unfold Run.reduce
    refine (Uncached.read _).bind fun limit => (Uncached.lift _).bind fun passes => .ite (.of_pure _) ?_
    exact (Uncached.lift _).bind fun text => (log _).bind fun _ => .of_pure _
  unfold Run.compile
  refine h.after freshUid fun uid => h.after (.read _) fun allowImpure => ?_
  refine h.after (.lift _) fun assembled => h.after (reduce _) fun reduction => ?_
  refine h.bind (h.evaluate fuel _ _) fun function => h.after (log _) fun _ => ?_
  exact h.after (.lift _) fun text => h.after (log _) fun _ => h.of_uncached (.of_pure _)

/-- The building of a pure function. -/
theorem build (fuel : Nat) (e : Expr) (caching threading : Bool) (cache : Option CacheId)
    (pool : Option PoolId) : J (Run.build fuel e caching threading cache pool) := by
  unfold Run.build
  refine h.after (.lift _) fun d => h.bind (h.compile fuel d _) fun compiled => ?_
  refine h.bind ?_ fun function => h.of_uncached (.of_pure _)
  exact h.after (.addFunction _) fun id => h.of_uncached (.of_pure _)

end

end Inherited

/-! ## Advancing -/

/-- The run advances caches. -/
def Advancing {α : Type} (x : Run α) : Prop := ∀ m : Machine, m.Advances (x m).2

namespace Advancing

variable {α β : Type}

theorem of_uncached {x : Run α} (h : x.Uncached) : Advancing x := fun m => .of_eq (h m).1 (h m).2.settings

theorem onward {x : Run α} {f : Outcome α → Run β} (first : Advancing x)
    (second : ∀ o, Advancing (f o)) : Advancing (x.onward f) := by
  intro m
  have step := first m
  unfold Run.onward
  generalize x m = r at step ⊢
  obtain ⟨o, after⟩ := r
  cases o with
  | exhausted => exact step
  | value | fault | jump => exact step.trans (second _ after)

theorem composes : Composes Advancing := ⟨of_uncached, onward⟩

theorem onCache {c : CacheId} {f : MemoCache → Except Fault (α × MemoCache)}
    (step : ∀ cache a cache', f cache = .ok (a, cache') → cache.Step cache') :
    Advancing (Run.onCache c f) := by
  intro m
  unfold Run.onCache
  split
  next a cache done => exact .setCache (step _ a cache done)
  next => exact .refl m

theorem lookupOrCompute {c : CacheId} {function argument : Boxed} {x : Run Boxed}
    (compute : Advancing x) : Advancing (Run.lookupOrCompute c function argument x) := by
  refine composes.bind (onCache fun cache a cache' done => .start done) fun begun => ?_
  cases begun with
  | bypassed => exact compute
  | hit result => exact of_uncached (.of_pure result)
  | pending ticket =>
    exact composes.bind compute fun result => onCache fun cache a cache' done => .finish done

theorem inherited : Inherited Advancing := ⟨composes, lookupOrCompute⟩

variable [Host] [Host.IsUncached]

/-- A call advances caches, whatever is called. -/
theorem call (fuel : Nat) (f : Boxed) (args : List Boxed) : Advancing (Run.call fuel f args) :=
  inherited.call fuel f args

/-- Evaluating a tree in a frame advances caches, whatever the calls that it makes. -/
theorem body (fuel : Nat) (context : Context) (e : Expr) (frame : FrameId) :
    Advancing (e.eval ⟨Run.call fuel, Run.applyUnary⟩ fuel context frame) :=
  inherited.body fuel context e frame

/-- Building a pure function advances caches. -/
theorem build (fuel : Nat) (e : Expr) (caching threading : Bool) (cache : Option CacheId)
    (pool : Option PoolId) : Advancing (Run.build fuel e caching threading cache pool) :=
  inherited.build fuel e caching threading cache pool

end Advancing

end Run

end Knot
