import Knot.Proofs.Curried.Chains
import Knot.Proofs.FirstOrder.Functions

/-!
# Compiled curried functions

What `Run.build` and `Run.recursiveClosure` give for a curried definition, and what is got by applying it.
A compilation adds the application to no arguments to the store, and yields an entry that calls it
(`Store.Holds.compile`). A pure function wraps the entry or a closure of the store, coerces its argument, and
wraps the result again if that is a function; so it follows the answer on the coerced argument
(`Store.runs_wrapped`), and calls on one argument after another follow the chain of such answers
(`Store.runs_coerced`). The plain closure is the entry alone, and does the same without coercions
(`CurriedDefinition.PlainIn.serves`, `Store.runs_curried`).
-/

namespace Knot

/-- The application of a compiled function to no arguments. -/
def CompiledCurried.start {o : CompileOptions} (c : CompiledCurried o) : Application o :=
  ⟨c, [], c.definition.first, c.definition.rest, .none⟩

namespace Store

variable {o : CompileOptions} {σ τ : Store o} {c : CompiledCurried o} {m m' : Machine}

/-! ## Compilations -/

/-- A closure that calls the application to no arguments. -/
def Enters (σ : Store o) (c : CompiledCurried o) (id : Nat) (m : Machine) : Prop :=
  ∃ frame, m.functions[id]? = some (.closure [c.definition.first.parameter.uid]
      (c.definition.parts.entry o c.bound) frame o.context) ∧
    σ.Shows c (c.definition.environment c.bound []) frame m

theorem Enters.later {id : Nat} (h : σ.Enters c id m) (more : σ.Extends τ) (later : Later m m') :
    τ.Enters c id m' := by
  obtain ⟨frame, there, shows⟩ := h
  exact ⟨frame, later.functions _ _ there, shows.later more later⟩

/-- Nothing else is known before the first argument. -/
theorem eq_of_environment_nil {d : CurriedDefinition} {f : Parameter} {uid : Nat} {v : Value}
    (known : d.environment f [] uid = some v) : uid = f.uid ∧ v = .list [] := by
  have none_given : givenTo d.inputs [] uid = none := by simp [givenTo]
  unfold CurriedDefinition.environment at known
  rw [none_given, Option.none_or] at known
  split at known
  next same =>
    cases known
    exact ⟨same, rfl⟩
  next => cases known

/-- A machine after a compilation holds the application to no arguments, and an entry to it. -/
theorem Holds.compiled (h : σ.Holds m) (c : CompiledCurried o) {log : Array String}
    (shape : m' = { ({ m with nextUid := m.nextUid + 1 } : Machine).compiled
      c.definition.first.parameter c.bound (c.body.curried c.definition.codomain c.definition.rest)
      (c.definition.parts.entry o c.bound) o.context with log := log }) :
    ∃ τ : Store o, σ.Extends τ ∧ τ.Holds m' ∧ Continues m m' ∧
      τ.Enters c (m.functions.size + 1) m' := by
  let started : Machine := { m with nextUid := m.nextUid + 1 }
  let x := c.definition.first.parameter
  let body := c.body.curried c.definition.codomain c.definition.rest
  let entry := c.definition.parts.entry o c.bound
  let after := started.compiled x c.bound body entry o.context
  obtain rfl : m' = { after with log := log } := shape
  have later := m.later_compilation x c.bound body entry o.context log
  -- the new frame shows the new closure, and that is all that is known before the first argument
  have shows : (σ.add m.functions.size c.start).Shows c (c.definition.environment c.bound [])
      (m.frames.frames.size + 1) { after with log := log } := by
    refine ⟨?_, fun uid v known => ?_⟩
    · show _ < after.frames.frames.size
      rw [Machine.frames_compiled_size]
      exact Nat.lt_succ_self _
    · obtain ⟨rfl, rfl⟩ := eq_of_environment_nil known
      exact ⟨⟨.closure m.functions.size, 0⟩,
        Frames.lookup_of_get? (started.bound_compiled x c.bound body entry o.context),
        .application (p := c.start) (add_self σ _ _) rfl⟩
  obtain ⟨more, holds⟩ := h.add (p := c.start) later rfl
    ⟨_, started.function_compiled x c.bound body entry o.context, shows⟩
  exact ⟨_, more, holds, ⟨later, rfl⟩, _,
    started.entry_compiled x c.bound body entry o.context, shows⟩

/-- A compilation adds the application to no arguments, and yields an entry to it. -/
theorem Holds.compile [Host] {d : CurriedDefinition} {fuel : Nat} {k : Compilation} (h : σ.Holds m)
    (fresh : ∀ x ∈ d.inputs, x.parameter.uid < m.nextUid) (sequential : o.threading = false)
    (compiled : Run.compile fuel d.parts o m = (.value k, m')) :
    ∃ c : CompiledCurried o, c.definition = d ∧ ∃ τ : Store o, σ.Extends τ ∧ τ.Holds m' ∧
      Continues m m' ∧ ∃ id, k.function.value = .closure id ∧ τ.Enters c id m' := by
  obtain ⟨passes, log, rfl, after, -⟩ := d.has.compile_value compiled
  have shape : d.parts.marked o m (d.body.curried d.codomain d.rest) =
      (d.body.marked (d.parts.substitution (d.parts.bound m) o
        m.settings.allowImpure.truthy)).curried d.codomain d.rest :=
    CurriedDefinition.marked_curried rfl d.body fun x inside => List.mem_cons_of_mem _ inside
  rw [shape, Expr.iterate_passed_curried] at after
  have free : d.Free (d.parts.bound m) := fun x declared => Nat.ne_of_lt (fresh x declared)
  let c : CompiledCurried o := ⟨d, d.parts.bound m, _,
    CurriedDefinition.compiles_marked free rfl sequential m.settings.allowImpure.truthy passes⟩
  obtain ⟨τ, more, holds, continues, enters⟩ := h.compiled c after
  exact ⟨c, rfl, τ, more, holds, continues, _, rfl, enters⟩

/-! ## Calls without coercions -/

open CurriedDefinition

/-- An entry applies the function to its argument. -/
theorem runs_entry [Host] (h : σ.Holds m) {n id : Nat} (enters : σ.Enters c id m) {function argument : Boxed}
    (closure : function.value = .closure id)
    (typed : argument.value.hasType c.definition.first.domain = true) :
    σ.Runs (Follows (within c) (c.definition.limit (.list []) argument.value)
      (c.definition.approx n (.list []) argument.value)) (Run.call (n + 1) function [argument]) m := by
  obtain ⟨frame, there, shows⟩ := enters
  let x := c.definition.first.parameter
  let i : Interpreter := ⟨Run.call n, Run.applyUnary⟩
  have takes : Takes c.definition.inputs [] (c.definition.first :: c.definition.rest) := .none
  have opened := Later.push m (some frame) [(x.uid, argument)]
  have holds := h.later opened rfl
  have shows' := Shows.push takes shows typed
  have own : c.definition.environment c.bound [argument.value] c.bound.uid = some (.list []) :=
    c.compiles.free.environment_self _
  have given : c.definition.environment c.bound [argument.value] x.uid = some argument.value :=
    (environment_append _ takes argument.value x.uid).trans (if_pos rfl)
  -- with or without a cache the entry looks up the function and the argument and then calls
  have application : ∀ {call : Boxed → Boxed → Run Boxed}, Applies o n call →
      σ.Runs (Follows (within c) (c.definition.limit (.list []) argument.value)
        (c.definition.approx n (.list []) argument.value))
        (do
          let f ← (Expr.parameter c.bound).eval i n o.context m.frames.frames.size
          let v ← (Expr.parameter x).eval i n o.context m.frames.frames.size
          call f v)
        { m with frames := (m.frames.push (some frame) [(x.uid, argument)]).2 } := by
    intro call applies
    have awaits : ∀ d, Partial.value (.list []) = some (.ok d) → ∃ args, d = .list args ∧
        Takes c.definition.inputs args (c.definition.first :: c.definition.rest) := by
      intro d same
      cases same
      exact ⟨[], rfl, takes⟩
    have known : ∀ d, Partial.value argument.value = some (.ok d) →
        d.hasType c.definition.first.domain = true := by
      intro d same
      cases same
      exact typed
    exact runs_application applies (.refl _) (.refl _) awaits known
      (runs_lookup holds shows' own i n o.context)
      fun τ m' more holds' later => runs_lookup holds' (shows'.later more later) given i n o.context
  refine Runs.of_continues (Runs.sealed ?_) (.refl σ) ⟨opened, rfl⟩ (Run.call_closure closure there n)
  unfold Definition.entry
  split
  next caching =>
    rw [Expr.eval]
    exact application ((applies_call o n).cached caching)
  next =>
    simp only [Expr.eval, Expr.evalAll_one_bind]
    exact application (applies_call o n)

/-- A scalar cannot be called. -/
theorem runs_misapplied [Host] {reading : Reading o} {approx : Partial} (h : σ.Holds m) {f : Boxed}
    {s : Scalar} (value : f.value = .scalar s) (n : Nat) (argument : Boxed) :
    σ.Runs (Follows reading (c.definition.limit (.scalar s) argument.value) approx)
      (Run.call (n + 1) f [argument]) m := by
  have refused : Run.call (n + 1) f [argument] m = (.fault .wrongKind, m) := by
    unfold Run.call Run.callBy
    rw [value]
    rfl
  exact .of_eq h refused (limit_scalar s argument.value)

/-- What a value stands for: what it denotes, or the function if it is an entry to it. -/
inductive Serves (σ : Store o) (c : CompiledCurried o) (m : Machine) : Value → Value → Prop
  | denoted {v d} (denotes : σ.Denotes c v d) : Serves σ c m v d
  | entry {id} (enters : σ.Enters c id m) : Serves σ c m (.closure id) (.list [])

/-- Values of a machine with entries. -/
def serving (c : CompiledCurried o) : Reading o := fun τ m => τ.Serves c m

theorem Serves.later {v d : Value} (h : σ.Serves c m v d) (more : σ.Extends τ) (later : Later m m') :
    τ.Serves c m' v d := by
  cases h with
  | denoted denotes => exact .denoted (denotes.extend more)
  | entry enters => exact .entry (enters.later more later)

/-- A function of the machine can be called. -/
theorem Serves.isCallable {v : Value} {args : List Value} (h : σ.Serves c m v (.list args)) :
    v.isCallable = true := by
  cases h with
  | denoted denotes =>
    obtain ⟨id, p, rfl, -⟩ := denotes.inversion
    rfl
  | entry => rfl

/-- A call on an argument of the domain follows the answer. It takes one more step where it goes through an
entry. -/
theorem runs_served [Host] (h : σ.Holds m) {f argument : Boxed} {d : Value} {vs : List Value}
    (serves : σ.Serves c m f.value d) (fits : c.definition.Fits d (argument.value :: vs)) (n : Nat) :
    σ.Runs (Follows (within c) (c.definition.limit d argument.value)
      (c.definition.approx (n - 1) d argument.value)) (Run.call n f [argument]) m := by
  cases n with
  | zero => exact .of_eq h rfl rfl
  | succ n =>
    generalize value : f.value = v at serves
    cases serves with
    | denoted denotes =>
      cases denotes with
      | scalar s =>
        exact runs_misapplied h value n argument
      | @application id p held own =>
        obtain ⟨rest, takes, some_rest, admits⟩ := fits _ rfl
        obtain ⟨x, rest, rfl⟩ := List.exists_cons_of_ne_nil some_rest
        subst own
        obtain ⟨rfl, -⟩ := p.awaited takes
        have below : (p.approx n argument.value).Below (p.approx (n + 1) argument.value) :=
          approx_increasing (.list p.args) argument.value n
        exact (applies_call o (n + 1) σ id p f argument m held value admits.1 h).weaken
          fun τ m' out follows => follows.lower below
    | entry enters =>
      obtain ⟨rest, takes, -, admits⟩ := fits _ rfl
      obtain rfl : rest = c.definition.inputs := takes.rest_eq
      exact runs_entry h enters value admits.1

/-- So do calls on one argument after another. -/
theorem runs_curried [Host] (h : σ.Holds m) {f : Boxed} {d : Value} (serves : σ.Serves c m f.value d)
    {args : List Boxed} (fits : c.definition.Fits d (args.map fun a => a.value)) (n : Nat) :
    σ.Runs (Follows (serving c) (.chain c.definition.limit d (args.map fun a => a.value))
      (.chain (c.definition.approx (n - 1)) d (args.map fun a => a.value)))
      (Run.applyCurried n f args) m :=
  runs_chain c.definition.Fits (approx_below_limit (n - 1))
    (fun holds serves fits => (runs_served holds serves fits n).weaken fun _ _ _ follows =>
      follows.read fun _ _ denotes => .denoted denotes)
    Fits.step args h serves fits

/-! ## Calls with coercions -/

/-- What a result of a pure function stands for: a scalar for itself, and a pure function for what the
function stands for that it wraps. -/
inductive Wraps (σ : Store o) (c : CompiledCurried o) (m : Machine) : Value → Value → Prop
  | scalar (s : Scalar) : Wraps σ c m (.scalar s) (.scalar s)
  | function {g inner args x rest} (takes : Takes c.definition.inputs args (x :: rest))
      (params : g.params = [.value x.domain]) (result : g.result = .curried rest c.definition.codomain)
      (there : m.functions[g.id]? = some (.wrapper inner))
      (serves : σ.Serves c m inner.value (.list args)) : Wraps σ c m (.compiled g) (.list args)

theorem Wraps.later {v d : Value} (h : σ.Wraps c m v d) (more : σ.Extends τ) (later : Later m m') :
    τ.Wraps c m' v d := by
  cases h with
  | scalar s => exact .scalar s
  | function takes params result there serves =>
    exact .function takes params result (later.functions _ _ there) (serves.later more later)

/-- What stands for a function is a pure function. -/
theorem Wraps.compiled {v : Value} {args : List Value} (h : σ.Wraps c m v (.list args)) :
    ∃ g, v = .compiled g := by
  cases h
  exact ⟨_, rfl⟩

/-- It awaits another argument. -/
theorem Wraps.takes {v : Value} {args : List Value} (h : σ.Wraps c m v (.list args)) :
    ∃ x rest, Takes c.definition.inputs args (x :: rest) := by
  cases h with
  | function takes => exact ⟨_, _, takes⟩

/-- Values of a machine that lets pure functions be called. -/
def wrapping (c : CompiledCurried o) : Reading o := fun τ m v d =>
  τ.Wraps c m v d ∧ m.settings.askNesting = .ok ()

/-- The result of a pure function stands for what the result of the wrapped function denotes. -/
theorem runs_wrapResult (h : σ.Holds m) (nesting : m.settings.askNesting = .ok ()) {g : PureFunction}
    {rest : List WholeVariable} (result : g.result = .curried rest c.definition.codomain) {v : Boxed}
    {d : Value} (denotes : σ.Denotes c v.value d)
    (suits : c.definition.Suits rest c.definition.codomain d) :
    σ.Runs (Follows (wrapping c) (.value d) (.value d)) (Run.wrapResult g v) m := by
  cases rest with
  | nil =>
    obtain rfl := denotes.eq_of_hasType suits
    obtain ⟨s, same, -⟩ := Value.hasType_iff.1 suits
    have shown : Run.wrapResult g v = pure v := by
      unfold Run.wrapResult
      rw [result]
      rfl
    rw [shown, same]
    exact runs_pure h ⟨by rw [same]; exact .scalar s, nesting⟩
  | cons x rest =>
    obtain ⟨args, rfl, takes⟩ := suits
    have shown : Run.wrapResult g v = Run.wrap g.name [.value x.domain] (.curried rest c.definition.codomain)
        g.caching g.threading v := by
      unfold Run.wrapResult
      rw [result]
      exact if_pos (Serves.denoted (m := m) denotes).isCallable
    rw [shown]
    have added := Later.addFunction m (.wrapper v)
    have there : (m.functions.push (Callable.wrapper v))[m.functions.size]? = some (.wrapper v) :=
      Array.getElem?_push_size
    exact ⟨σ, .refl σ, h.later added rfl, ⟨added, rfl⟩, .list args, rfl,
      .function takes rfl rfl there (.denoted denotes), nesting⟩

/-- A call of a pure function follows the answer on the coerced argument. -/
theorem runs_wrapped [Host] (h : σ.Holds m) {f : Boxed} {d : Value} (wraps : wrapping c σ m f.value d)
    (n : Nat) (argument : Boxed) :
    σ.Runs (Follows (wrapping c) (c.definition.onCoerced c.definition.limit d argument.value)
      (c.definition.callApprox n d argument.value)) (Run.call n f [argument]) m := by
  cases n with
  | zero => exact .of_eq h rfl rfl
  | succ n =>
    obtain ⟨wraps, nesting⟩ := wraps
    generalize value : f.value = v at wraps
    cases wraps with
    | scalar s =>
      exact runs_misapplied h value n argument
    | @function g inner args x rest takes params result there serves =>
      rw [callApprox, onCoerced_eq _ takes, onCoerced_eq _ takes]
      rcases Run.call_wrapper value params there nesting n argument with
        ⟨e, coerced, failed⟩ | ⟨b, k, coerced, inside⟩
      · simp only [coerced]
        exact .of_eq h failed rfl
      · simp only [coerced]
        have typed : b.value.hasType x.domain = true := ValueType.coerce_hasType coerced
        have boxed := Later.box m k
        have called := runs_served (h.later boxed rfl) (serves.later (.refl σ) boxed)
          (fits_one takes typed) n
        -- the result of the wrapped function is wrapped again if it is a function
        refine Runs.of_continues ?_ (.refl σ) ⟨boxed, rfl⟩ inside
        rw [← Partial.andThen_pure (c.definition.limit (.list args) b.value),
          ← Partial.andThen_pure (c.definition.approx (n - 1) (.list args) b.value)]
        refine called.andThen (approx_below_limit (n - 1) (.list args) b.value)
          fun v d τ m' known denotes _ holds continues => ?_
        exact runs_wrapResult (g := m'.current g) holds (by rw [continues.settings]; exact nesting) result
          denotes (limit_typed args x rest b.value d takes typed known)

/-- So do calls on one argument after another. -/
theorem runs_coerced [Host] (h : σ.Holds m) {f : Boxed} {d : Value} (wraps : wrapping c σ m f.value d)
    (args : List Boxed) (n : Nat) :
    σ.Runs (Follows (wrapping c)
      (.chain (c.definition.onCoerced c.definition.limit) d (args.map fun a => a.value))
      (.chain (c.definition.callApprox n) d (args.map fun a => a.value)))
      (Run.applyCurried n f args) m :=
  runs_chain (fun _ _ => True) (callApprox_below n) (fun holds wraps _ => runs_wrapped holds wraps n _)
    (fun _ _ => trivial) args h wraps trivial

/-! ## Building -/

/-- A build adds the application to no arguments, and yields a pure function that stands for it. -/
theorem Holds.build [Host] {o : CompileOptions} {σ : Store o.resolved} {d : CurriedDefinition} {fuel : Nat}
    {k : Compilation} (h : σ.Holds m) (fresh : ∀ x ∈ d.inputs, x.parameter.uid < m.nextUid)
    (sequential : o.threading = false)
    (built : Run.build fuel d.tree o.caching o.threading o.cache o.pool m = (.value k, m')) :
    ∃ c : CompiledCurried o.resolved, c.definition = d ∧ ∃ τ : Store o.resolved, σ.Extends τ ∧ τ.Holds m' ∧
      Continues m m' ∧ τ.Wraps c m' k.function.value (.list []) := by
  obtain ⟨compilation, before, compiled, rfl, rfl⟩ := Run.compile_of_build d.ofExpr_tree built
  obtain ⟨c, rfl, τ, more, holds, continues, id, closure, enters⟩ := h.compile fresh sequential compiled
  have added := Later.addFunction before (.wrapper compilation.function)
  have serves : τ.Serves c before compilation.function.value (.list []) := by
    rw [closure]
    exact .entry enters
  refine ⟨c, rfl, τ, more, holds.later added rfl, continues.trans ⟨added, rfl⟩, ?_⟩
  have takes : Takes c.definition.inputs [] (c.definition.first :: c.definition.rest) := .none
  exact .function takes rfl rfl Array.getElem?_push_size (serves.later (.refl τ) added)

end Store

/-! ## Plain closures -/

/-- A function is the plain closure of a definition, and the machine is the one after it was made. -/
def CurriedDefinition.PlainIn [Host] (d : CurriedDefinition) (plain : Boxed) (m : Machine) : Prop :=
  ∃ fuel before, (∀ x ∈ d.inputs, x.parameter.uid < before.nextUid) ∧
    Run.recursiveClosure fuel d.tree before = (.value plain, m)

/-- A plain closure is an entry to the function that it was made from. -/
theorem CurriedDefinition.PlainIn.serves [Host] {d : CurriedDefinition} {plain : Boxed} {m : Machine}
    (h : d.PlainIn plain m) :
    ∃ c : CompiledCurried .plain, c.definition = d ∧ ∃ σ : Store .plain, σ.Holds m ∧
      σ.Serves c m plain.value (.list []) := by
  obtain ⟨fuel, before, fresh, made⟩ := h
  obtain ⟨compilation, compiled, rfl⟩ := Run.compile_of_recursiveClosure d.ofExpr_tree made
  have nothing : (Store.empty .plain).Holds before :=
    .start fun caching => absurd caching Bool.false_ne_true
  obtain ⟨c, own, σ, -, holds, -, id, closure, enters⟩ := nothing.compile fresh rfl compiled
  refine ⟨c, own, σ, holds, ?_⟩
  rw [closure]
  exact .entry enters

end Knot
