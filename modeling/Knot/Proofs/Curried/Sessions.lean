import Knot.Proofs.Curried.Functions

/-!
# Sessions with curried functions

`CurriedSession` is every state of a process that builds curried definitions with one choice of options,
applies what it has built to arguments, keeps the partial applications that come back and applies these, and
resets its cache, in any order. An application that runs out of fuel stands for one that is still going on.

In every such state there is a store of applications that holds (`CurriedSession.backed`), in which what has
been kept stands for the function with the arguments that it was given. So the cache does not mix partial
applications: what is kept answers on further arguments what the plain closure of its definition answers on
all of them (`CurriedSession.applied_answers_plain`).
-/

namespace Knot

/-! ## Ends of runs -/

/-- With enough fuel, a run from a machine answers so. -/
def Machine.Ends (m : Machine) (x : Nat → Run Boxed) (r : Except Fault Value) : Prop :=
  ∃ fuel, (x fuel m).1.answer = some r

/-- With enough fuel a run from a machine answers, and always by a function. -/
def Machine.YieldsFunction (m : Machine) (x : Nat → Run Boxed) : Prop :=
  (∃ r, m.Ends x r) ∧ ∀ r, m.Ends x r → ∃ v, r = .ok v ∧ v.isCallable = true

/-- A run that yields a function comes to an end. -/
theorem Machine.YieldsFunction.exists_value {m : Machine} {x : Nat → Run Boxed}
    (h : m.YieldsFunction x) : ∃ fuel v m', x fuel m = (.value v, m') := by
  obtain ⟨⟨r, fuel, answer⟩, functions⟩ := h
  obtain ⟨v, rfl, -⟩ := functions r ⟨fuel, answer⟩
  refine ⟨fuel, ?_⟩
  generalize x fuel m = ended at answer
  obtain ⟨out, m'⟩ := ended
  cases out with
  | value b => exact ⟨b, m', rfl⟩
  | _ => cases answer

namespace Store

variable {o : CompileOptions} {σ : Store o} {c : CompiledCurried o} {m : Machine}
  {reading : Reading o} {limit : Partial} {approx : Nat → Partial} {x : Nat → Run Boxed}

/-- Readings by which scalars stand for themselves and functions for lists of arguments. -/
def Represents (reading : Reading o) : Prop :=
  ∀ τ m v d, reading τ m v d →
    (∃ s, d = .scalar s ∧ v = .scalar s) ∨ ∃ args, d = .list args ∧ v.isCallable = true

theorem represents_serving (c : CompiledCurried o) : Represents (serving c) := by
  intro τ m v d serves
  cases serves with
  | denoted denotes =>
    cases denotes with
    | scalar s => exact .inl ⟨s, rfl, rfl⟩
    | application => exact .inr ⟨_, rfl, rfl⟩
  | entry => exact .inr ⟨_, rfl, rfl⟩

theorem represents_wrapping (c : CompiledCurried o) : Represents (wrapping c) := by
  rintro τ m v d ⟨wraps, -⟩
  cases wraps with
  | scalar s => exact .inl ⟨s, rfl, rfl⟩
  | function => exact .inr ⟨_, rfl, rfl⟩

/-- Where a limit answers, a run that follows it answers with enough fuel. -/
theorem exists_ends (settles : Partial.Settles approx limit)
    (runs : ∀ n, σ.Runs (Follows reading limit (approx n)) (x n) m) {r : Except Fault Value}
    (known : limit = some r) : ∃ r', m.Ends x r' := by
  obtain ⟨n, settled⟩ := settles
  obtain ⟨τ, -, -, -, outcome⟩ := runs n
  have deep : approx n = some r := (settled n (Nat.le_refl n)).trans known
  unfold Machine.Ends
  generalize ended : (x n m).1 = out at outcome
  cases out with
  | value v => exact ⟨_, n, by rw [ended]; rfl⟩
  | fault e => exact ⟨_, n, by rw [ended]; rfl⟩
  | jump t v => exact outcome.elim
  | exhausted =>
    have silent : approx n = none := outcome
    rw [deep] at silent
    cases silent

/-- A run that follows a limit answers what the limit answers, if that is no function. -/
theorem ends_iff (represents : Represents reading) (settles : Partial.Settles approx limit)
    (runs : ∀ n, σ.Runs (Follows reading limit (approx n)) (x n) m)
    (noFunction : ∀ args, limit ≠ some (.ok (.list args))) (r : Except Fault Value) :
    m.Ends x r ↔ limit = some r := by
  have sound : ∀ {r}, m.Ends x r → limit = some r := by
    rintro r ⟨n, answer⟩
    obtain ⟨τ, -, -, -, outcome⟩ := runs n
    generalize (x n m).1 = out at outcome answer
    cases out with
    | value v =>
      cases answer
      obtain ⟨d, known, reads⟩ := outcome
      rcases represents _ _ _ _ reads with ⟨s, rfl, value⟩ | ⟨args, rfl, -⟩
      · rw [known, value]
      · exact absurd known (noFunction args)
    | fault e =>
      cases answer
      exact outcome
    | jump t v => exact outcome.elim
    | exhausted => cases answer
  refine ⟨sound, fun known => ?_⟩
  obtain ⟨r', ends⟩ := exists_ends settles runs known
  obtain rfl : r' = r := Option.some.inj ((sound ends).symm.trans known)
  exact ends

/-- If the limit is a function, so is every answer. -/
theorem yieldsFunction (represents : Represents reading) (settles : Partial.Settles approx limit)
    (runs : ∀ n, σ.Runs (Follows reading limit (approx n)) (x n) m) {args : List Value}
    (known : limit = .value (.list args)) : m.YieldsFunction x := by
  refine ⟨exists_ends settles runs known, ?_⟩
  rintro r ⟨n, answer⟩
  obtain ⟨τ, -, -, -, outcome⟩ := runs n
  generalize (x n m).1 = out at outcome answer
  cases out with
  | value v =>
    cases answer
    obtain ⟨d, known', reads⟩ := outcome
    cases known.symm.trans known'
    rcases represents _ _ _ _ reads with ⟨s, impossible, -⟩ | ⟨before, -, callable⟩
    · cases impossible
    · exact ⟨_, rfl, callable⟩
  | fault e => cases known.symm.trans outcome
  | jump t v => exact outcome.elim
  | exhausted => cases answer

end Store

/-! ## Plain closures -/

namespace CurriedDefinition.PlainIn

variable [Host] {d : CurriedDefinition} {plain : Boxed} {m : Machine} {args : List Boxed}

/-- A plain closure follows the chain on arguments of the domains of its variables. -/
theorem follows (made : d.PlainIn plain m) (admits : Admits d.inputs (args.map fun a => a.value)) :
    ∃ (c : CompiledCurried .plain) (σ : Store .plain), ∀ fuel,
      σ.Runs (Store.Follows (Store.serving c) (.chain d.limit (.list []) (args.map fun a => a.value))
        (.chain (d.approx (fuel - 1)) (.list []) (args.map fun a => a.value)))
        (Run.applyCurried fuel plain args) m := by
  obtain ⟨c, rfl, σ, holds, serves⟩ := made.serves
  refine ⟨c, σ, Store.runs_curried holds serves ?_⟩
  intro before same
  cases same
  exact ⟨c.definition.inputs, .none, List.cons_ne_nil _ _, admits⟩

omit [Host] in
/-- What it follows settles. -/
theorem settles (d : CurriedDefinition) (vs : List Value) :
    Partial.Settles (fun fuel => .chain (d.approx (fuel - 1)) (.list []) vs)
      (.chain d.limit (.list []) vs) :=
  (Partial.chain_settles d.approx_settles vs (.list [])).shift fun n => by omega

/-- On all its arguments it answers what the chain answers. -/
theorem ends_iff (made : d.PlainIn plain m) (admits : Admits d.inputs (args.map fun a => a.value))
    (enough : d.inputs.length ≤ args.length) (r : Except Fault Value) :
    m.Ends (fun fuel => Run.applyCurried fuel plain args) r ↔
      Partial.chain d.limit (.list []) (args.map fun a => a.value) = some r := by
  obtain ⟨c, σ, runs⟩ := made.follows admits
  exact Store.ends_iff (Store.represents_serving c) (settles d _) runs
    (chain_of_all .none (List.cons_ne_nil d.first d.rest) admits (by rw [List.length_map]; exact enough)) r

/-- On fewer it answers by a function. -/
theorem yieldsFunction (made : d.PlainIn plain m) (admits : Admits d.inputs (args.map fun a => a.value))
    (fewer : args.length < d.inputs.length) :
    m.YieldsFunction fun fuel => Run.applyCurried fuel plain args := by
  obtain ⟨c, σ, runs⟩ := made.follows admits
  exact Store.yieldsFunction (Store.represents_serving c) (settles d _) runs
    (chain_of_fewer .none admits (by rw [List.length_map]; exact fewer)).1

end CurriedDefinition.PlainIn

/-! ## Applications -/

/-- The ways to apply a pure function to one argument after another: by its member, or by a call on each. -/
inductive Applying where
  | member
  | calls

namespace Applying

/-- Applies a function in this way. -/
def run [Host] : Applying → Nat → Boxed → List Boxed → Run Boxed
  | member => Run.applyMember
  | calls => Run.applyCurried

/-- What it answers with some fuel. -/
def approx (d : CurriedDefinition) (given vs : List Value) : Applying → Nat → Partial
  | member, 0 => none
  | member, n + 1 => .chain (d.callApprox n) (.list given) vs
  | calls, n => .chain (d.callApprox n) (.list given) vs

theorem approx_settles (d : CurriedDefinition) (given vs : List Value) (way : Applying) :
    Partial.Settles (way.approx d given vs) (.chain (d.onCoerced d.limit) (.list given) vs) := by
  have settles := Partial.chain_settles (CurriedDefinition.callApprox_settles (d := d)) vs (.list given)
  cases way with
  | calls => exact settles
  | member =>
    obtain ⟨n, settled⟩ := settles
    refine ⟨n + 1, fun k deep => ?_⟩
    obtain ⟨k, rfl⟩ := Nat.exists_eq_succ_of_ne_zero (show k ≠ 0 by omega)
    exact settled k (by omega)

/-- The member of a pure function is a method of it, unless it was given another member of that name. -/
theorem applyMember_eq [Host] {m : Machine} {g : PureFunction} {identity : Nat}
    (own : m.given? ⟨.compiled g, identity⟩ "fi" = none) (fuel : Nat) (args : List Boxed) :
    Run.applyMember fuel ⟨.compiled g, identity⟩ args m =
      Run.call fuel ⟨.method (.compiled g) identity .bound "fi", m.nextIdentity⟩ args
        { m with nextIdentity := m.nextIdentity + 1 } := by
  have offered : (Value.compiled g).member? "fi" = some (.method .bound) := rfl
  have read : Run.member ⟨.compiled g, identity⟩ "fi" m =
      (.value ⟨.method (.compiled g) identity .bound "fi", m.nextIdentity⟩,
        { m with nextIdentity := m.nextIdentity + 1 }) := by
    have nothing : Run.read (fun m => m.given? ⟨.compiled g, identity⟩ "fi") m = (.value none, m) := by
      show (Outcome.value (m.given? ⟨.compiled g, identity⟩ "fi"), m) = _
      rw [own]
    refine (Run.bind_of_value nothing).trans ?_
    simp only [offered]
    rfl
  exact Run.bind_of_value read

/-- An application follows the chain of the answers on the coerced arguments. -/
theorem follows [Host] {o : CompileOptions} {σ : Store o} {c : CompiledCurried o} {m : Machine}
    (way : Applying) (h : σ.Holds m) {f : Boxed} {given : List Value}
    (wraps : Store.wrapping c σ m f.value (.list given)) (own : m.given? f "fi" = none) (args : List Boxed)
    (fuel : Nat) :
    σ.Runs (Store.Follows (Store.wrapping c)
      (.chain (c.definition.onCoerced c.definition.limit) (.list given) (args.map fun a => a.value))
      (way.approx c.definition given (args.map fun a => a.value) fuel)) (way.run fuel f args) m := by
  cases way with
  | calls => exact Store.runs_coerced h wraps args fuel
  | member =>
    have boxed := Later.box m (m.nextIdentity + 1)
    have holds := h.later boxed rfl
    have wraps' := Store.Wraps.later wraps.1 (.refl σ) boxed
    obtain ⟨value, identity⟩ := f
    obtain ⟨g, rfl⟩ := wraps.1.compiled
    refine Store.Runs.of_continues ?_ (.refl σ) ⟨boxed, rfl⟩ (applyMember_eq own fuel args)
    cases fuel with
    | zero => exact .of_eq holds rfl rfl
    | succ n => exact Store.runs_coerced holds ⟨wraps', wraps.2⟩ args n

end Applying

/-! ## Sessions -/

/-- A function that is kept: a compiled definition that was given some arguments, already coerced. -/
structure Kept where
  definition : CurriedDefinition
  given : List Value
  function : Boxed

namespace Kept

/-- The variables that await an argument. -/
def awaited (k : Kept) : List WholeVariable := k.definition.inputs.drop k.given.length

/-- Further arguments, coerced to the domains of the variables that await them. -/
def coerced (k : Kept) (args : List Boxed) : Except Fault (List Value) :=
  CurriedDefinition.coerceInputs k.awaited (args.map fun a => a.value)

end Kept

/-- The states of a process that builds curried definitions and applies them, with what it has kept. -/
inductive CurriedSession [Host] (o : CompileOptions) : List Kept → Machine → Prop
  /-- The cache is new, and no function was given a member of its own. -/
  | start {m} (nesting : m.settings.askNesting = .ok ())
      (cache : o.caching = true → m.caches[o.cache.getD Machine.defaultCache]? = some .empty)
      (methods : ∀ g identity, m.given? ⟨.compiled g, identity⟩ "fi" = none) : CurriedSession o [] m
  | build {kept m m' d fuel c} (before : CurriedSession o kept m)
      (fresh : ∀ x ∈ d.inputs, x.parameter.uid < m.nextUid)
      (built : Run.build fuel d.tree o.caching o.threading o.cache o.pool m = (.value c, m')) :
      CurriedSession o (⟨d, [], c.function⟩ :: kept) m'
  | apply {kept m k} (before : CurriedSession o kept m) (known : k ∈ kept) (way : Applying) (fuel : Nat)
      (args : List Boxed) : CurriedSession o kept (way.run fuel k.function args m).2
  /-- An application to fewer arguments than are awaited is kept. -/
  | keep {kept m m' k as v} (before : CurriedSession o kept m) (known : k ∈ kept) (way : Applying)
      (fuel : Nat) (args : List Boxed) (fewer : args.length < k.awaited.length)
      (coerced : k.coerced args = .ok as) (ended : way.run fuel k.function args m = (.value v, m')) :
      CurriedSession o (⟨k.definition, k.given ++ as, v⟩ :: kept) m'
  | reset {kept m} (before : CurriedSession o kept m) (caching : o.caching = true) :
      CurriedSession o kept (Run.resetCache (o.cache.getD Machine.defaultCache) m).2

namespace CurriedSession

open CurriedDefinition

variable {o : CompileOptions} {kept : List Kept} {m m' : Machine}

/-- A kept function stands for its definition with the arguments that it was given. -/
def Represented (σ : Store o.resolved) (k : Kept) (m : Machine) : Prop :=
  ∃ c : CompiledCurried o.resolved, c.definition = k.definition ∧
    σ.Wraps c m k.function.value (.list k.given)

/-- The applications of a store are there, and what is kept stands for some of them. -/
structure Backed (o : CompileOptions) (kept : List Kept) (σ : Store o.resolved) (m : Machine) : Prop where
  holds : σ.Holds m
  nesting : m.settings.askNesting = .ok ()
  methods : ∀ g identity, m.given? ⟨.compiled g, identity⟩ "fi" = none
  represented : ∀ k ∈ kept, Represented σ k m

/-- It stays so when the machine goes on. -/
theorem Backed.continues {σ τ : Store o.resolved} (h : Backed o kept σ m) (more : σ.Extends τ)
    (holds : τ.Holds m') (continues : Store.Continues m m') : Backed o kept τ m' where
  holds := holds
  nesting := by rw [continues.settings]; exact h.nesting
  methods g identity := by
    have same := h.methods g identity
    unfold Machine.given? at same ⊢
    rw [continues.attributes]
    exact same
  represented k known := by
    obtain ⟨c, own, wraps⟩ := h.represented k known
    exact ⟨c, own, wraps.later more continues.toLater⟩

/-- And when one more function is kept. -/
theorem Backed.keep {σ : Store o.resolved} {k : Kept} (h : Backed o kept σ m)
    (represented : Represented σ k m) : Backed o (k :: kept) σ m where
  holds := h.holds
  nesting := h.nesting
  methods := h.methods
  represented := List.forall_mem_cons.2 ⟨represented, h.represented⟩

/-- An application of what is kept follows the chain of the answers on the coerced arguments. -/
theorem Backed.follows [Host] {σ : Store o.resolved} (h : Backed o kept σ m) {k : Kept}
    {c : CompiledCurried o.resolved} (own : c.definition = k.definition)
    (wraps : σ.Wraps c m k.function.value (.list k.given)) (way : Applying) (args : List Boxed)
    (fuel : Nat) :
    σ.Runs (Store.Follows (Store.wrapping c)
      (.chain (k.definition.onCoerced k.definition.limit) (.list k.given) (args.map fun a => a.value))
      (way.approx k.definition k.given (args.map fun a => a.value) fuel))
      (way.run fuel k.function args) m := by
  have methods : m.given? k.function "fi" = none := by
    obtain ⟨g, compiled⟩ := wraps.compiled
    have none_given := h.methods g k.function.identity
    rw [← compiled] at none_given
    exact none_given
  rw [← own]
  exact way.follows h.holds ⟨wraps, h.nesting⟩ methods args fuel

/-- What is kept awaits the arguments that it was not given. -/
theorem takes_awaited {σ : Store o.resolved} {k : Kept} (h : Represented σ k m) :
    Takes k.definition.inputs k.given k.awaited ∧ k.awaited ≠ [] := by
  obtain ⟨c, own, wraps⟩ := h
  obtain ⟨x, rest, takes⟩ := wraps.takes
  rw [own] at takes
  have same : k.awaited = x :: rest := takes.rest_eq.symm
  rw [same]
  exact ⟨takes, List.cons_ne_nil x rest⟩

/-- Further arguments that are coerced leave the chain of the answers on them. -/
theorem chain_coerced {σ : Store o.resolved} {k : Kept} (represented : Represented σ k m)
    {args : List Boxed} {as : List Value} (coerced : k.coerced args = .ok as) :
    Partial.chain (k.definition.onCoerced k.definition.limit) (.list k.given) (args.map fun a => a.value) =
        .chain k.definition.limit (.list k.given) as ∧
      Admits k.awaited as ∧ as.length = args.length := by
  obtain ⟨takes, more⟩ := takes_awaited represented
  have coerces : coerceInputs k.awaited (args.map fun a => a.value) = .ok as := coerced
  obtain ⟨admits, counted⟩ := coerceInputs_admits coerces
  rw [chain_onCoerced takes more, coerces]
  exact ⟨rfl, admits, by rw [counted, List.length_map]⟩

/-- In every state of a session without splits what is kept stands for applications of a store that
holds. -/
theorem backed [Host] (sequential : o.threading = false) (session : CurriedSession o kept m) :
    ∃ σ : Store o.resolved, Backed o kept σ m := by
  induction session with
  | start nesting cache methods =>
    exact ⟨.empty o.resolved,
      .start fun caching => ⟨_, CompileOptions.cache_resolved caching, cache caching⟩, nesting, methods,
      fun k known => absurd known List.not_mem_nil⟩
  | build _ fresh built ih =>
    obtain ⟨σ, h⟩ := ih
    obtain ⟨c, own, τ, more, holds, continues, wraps⟩ := h.holds.build fresh sequential built
    exact ⟨τ, (h.continues more holds continues).keep ⟨c, own, wraps⟩⟩
  | apply _ known way fuel args ih =>
    obtain ⟨σ, h⟩ := ih
    obtain ⟨c, own, wraps⟩ := h.represented _ known
    obtain ⟨τ, more, holds, continues, -⟩ := h.follows own wraps way args fuel
    exact ⟨τ, h.continues more holds continues⟩
  | @keep kept m m' k as v _ known way fuel args fewer coerced ended ih =>
    obtain ⟨σ, h⟩ := ih
    have represented := h.represented _ known
    obtain ⟨takes, -⟩ := takes_awaited represented
    obtain ⟨same, admits, counted⟩ := chain_coerced represented coerced
    obtain ⟨c, own, wraps⟩ := represented
    obtain ⟨τ, more, holds, continues, outcome⟩ := h.follows own wraps way args fuel
    rw [ended, same] at outcome
    rw [ended] at holds continues
    -- with fewer arguments than are awaited the chain collects them
    have collects := (chain_of_fewer takes admits (by omega)).1
    obtain ⟨d, known', wraps', -⟩ := outcome
    cases collects.symm.trans known'
    exact ⟨τ, (h.continues more holds continues).keep ⟨c, own, wraps'⟩⟩
  | @reset kept m _ caching ih =>
    obtain ⟨σ, h⟩ := ih
    obtain ⟨c, named, inside, sound⟩ := h.holds.cache caching
    have here : c = o.cache.getD Machine.defaultCache :=
      Option.some.inj (named.symm.trans (CompileOptions.cache_resolved caching))
    rw [← here]
    have emptied := Later.setCache inside (MemoCache.Grows.reset (m.cache c))
    have holds := h.holds.setCache inside (MemoCache.Grows.reset (m.cache c)) sound.reset
    have logged := Later.log (m.setCache c (m.cache c).reset)
      ((m.setCache c (m.cache c).reset).log.push "Memo cache reset")
    exact ⟨σ, h.continues (.refl σ) (holds.later logged rfl) ⟨emptied.trans logged, rfl⟩⟩

/-! ## Answers -/

section

variable [Host] (sequential : o.threading = false) (session : CurriedSession o kept m) {k : Kept}
  (known : k ∈ kept) (way : Applying) {args : List Boxed} {as : List Value}

include sequential session known

/-- If an argument cannot be coerced, an application of what is kept answers by that fault. -/
theorem ends_iff_of_misfit {e : Fault} (failed : k.coerced args = .error e) (r : Except Fault Value) :
    m.Ends (fun fuel => way.run fuel k.function args) r ↔ r = .error e := by
  obtain ⟨σ, backed⟩ := session.backed sequential
  have represented := backed.represented k known
  obtain ⟨takes, more⟩ := takes_awaited represented
  obtain ⟨c, own, wraps⟩ := represented
  have fault := chain_onCoerced takes more (args.map fun a => a.value)
  have failed' : coerceInputs k.awaited (args.map fun a => a.value) = .error e := failed
  rw [failed'] at fault
  rw [Store.ends_iff (Store.represents_wrapping c) (way.approx_settles _ _ _)
    (backed.follows own wraps way args) (fun before impossible => by cases fault.symm.trans impossible) r,
    fault]
  exact ⟨fun same => (Option.some.inj same).symm, fun same => by rw [same]⟩

/-- If all arguments have been given now, it answers what the chain answers on the coerced ones. -/
theorem ends_iff (coerced : k.coerced args = .ok as) (enough : k.awaited.length ≤ args.length)
    (r : Except Fault Value) :
    m.Ends (fun fuel => way.run fuel k.function args) r ↔
      Partial.chain k.definition.limit (.list k.given) as = some r := by
  obtain ⟨σ, backed⟩ := session.backed sequential
  have represented := backed.represented k known
  obtain ⟨takes, more⟩ := takes_awaited represented
  obtain ⟨same, admits, counted⟩ := chain_coerced represented coerced
  obtain ⟨c, own, wraps⟩ := represented
  have noFunction := chain_of_all takes more admits (by omega)
  have follows := backed.follows own wraps way args
  have settles := way.approx_settles k.definition k.given (args.map fun a => a.value)
  rw [same] at follows settles
  exact Store.ends_iff (Store.represents_wrapping c) settles follows noFunction r

/-- If some are still missing, it answers by a function. -/
theorem yieldsFunction (coerced : k.coerced args = .ok as) (fewer : args.length < k.awaited.length) :
    m.YieldsFunction fun fuel => way.run fuel k.function args := by
  obtain ⟨σ, backed⟩ := session.backed sequential
  have represented := backed.represented k known
  obtain ⟨takes, -⟩ := takes_awaited represented
  obtain ⟨same, admits, counted⟩ := chain_coerced represented coerced
  obtain ⟨c, own, wraps⟩ := represented
  exact Store.yieldsFunction (Store.represents_wrapping c) (way.approx_settles _ _ _)
    (backed.follows own wraps way args) (same.trans (chain_of_fewer takes admits (by omega)).1)

end

/-- The cache does not mix partial applications. In every state of a session without splits, an application
of what is kept fails by the fault of a coercion, if an argument has one. Otherwise, if all arguments have
been given now, it answers a value or a fault just when the plain closure of the definition does on all the
coerced arguments, earlier and new; and if some are still missing, both answer by functions. -/
theorem applied_answers_plain [Host] (sequential : o.threading = false) (session : CurriedSession o kept m)
    {k : Kept} (known : k ∈ kept) (way : Applying) (args : List Boxed) :
    (∀ e, k.coerced args = .error e → ∀ r,
      m.Ends (fun fuel => way.run fuel k.function args) r ↔ r = .error e) ∧
    ∀ as, k.coerced args = .ok as → ∀ plain m', k.definition.PlainIn plain m' → ∀ all : List Boxed,
      (all.map fun a => a.value) = k.given ++ as →
        (k.awaited.length ≤ args.length → ∀ r,
          m.Ends (fun fuel => way.run fuel k.function args) r ↔
            m'.Ends (fun fuel => Run.applyCurried fuel plain all) r) ∧
        (args.length < k.awaited.length →
          m.YieldsFunction (fun fuel => way.run fuel k.function args) ∧
            m'.YieldsFunction fun fuel => Run.applyCurried fuel plain all) := by
  refine ⟨fun e failed r => ends_iff_of_misfit sequential session known way failed r,
    fun as coerced plain m' made all every => ?_⟩
  obtain ⟨σ, backed⟩ := session.backed sequential
  have represented := backed.represented k known
  obtain ⟨takes, more⟩ := takes_awaited represented
  obtain ⟨-, admits, counted⟩ := chain_coerced represented coerced
  -- the plain closure is applied to the earlier arguments and to the new ones
  have together := chain_append takes more as
  have lengths := takes.length
  have all_length : all.length = k.given.length + as.length := by
    rw [← List.length_append, ← every, List.length_map]
  have admitted : Admits k.definition.inputs (all.map fun a => a.value) := by
    rw [every]
    exact admits_append takes admits
  refine ⟨fun enough r => ?_, fun fewer => ⟨?_, ?_⟩⟩
  · rw [ends_iff sequential session known way coerced enough r, made.ends_iff admitted (by omega) r, every,
      together]
  · exact yieldsFunction sequential session known way coerced fewer
  · exact made.yieldsFunction admitted (by omega)

/-- A machine on which the variables of the seeded Fibonacci numbers have been made. -/
def seededMachine : Machine := { Machine.initial 1 with nextUid := 4 }

/-- With a cache, the Fibonacci numbers with the seed three are kept, and still answer what the plain
closure answers after a call and a reset. -/
theorem applied_answers_plain_seeded :
    ∃ kept m plain m' f,
      CurriedSession ⟨true, false, true, some 0, none⟩ kept m ∧
      ⟨SeededFibonacci.definition, [Fibonacci.word 3], f⟩ ∈ kept ∧
      SeededFibonacci.definition.PlainIn plain m' ∧
      m'.Ends (fun fuel => Run.applyCurried fuel plain [⟨Fibonacci.word 3, 0⟩, ⟨Fibonacci.word 5, 0⟩])
        (.ok (Fibonacci.word 24)) ∧
      m.Ends (fun fuel => Run.applyMember fuel f [⟨.int 5, 0⟩]) (.ok (Fibonacci.word 24)) := by
  let o : CompileOptions := ⟨true, false, true, some 0, none⟩
  let d := SeededFibonacci.definition
  have start : CurriedSession o [] seededMachine := .start rfl (fun _ => rfl) fun _ _ => rfl
  obtain ⟨c, built, build⟩ : ∃ c m, Run.build 2 d.tree true false (some 0) none seededMachine =
      (.value c, m) := Run.value_of_isValue (by decide +kernel)
  have session : CurriedSession o [⟨d, [], c.function⟩] built := .build start (by decide) build
  -- one argument is given by a call, and what comes back is kept
  have first := (applied_answers_plain rfl session List.mem_cons_self .calls [⟨.int 3, 0⟩]).2
    [Fibonacci.word 3] rfl
  obtain ⟨plain, made, make⟩ : ∃ plain m, Run.recursiveClosure 2 d.tree seededMachine =
      (.value plain, m) := Run.value_of_isValue (by decide +kernel)
  have closure : d.PlainIn plain made := ⟨2, seededMachine, by decide, make⟩
  obtain ⟨fuel, f, given, ended⟩ :=
    ((first plain made closure [⟨Fibonacci.word 3, 0⟩] rfl).2 (show 1 < 2 by decide)).1.exists_value
  have keeping : CurriedSession o [⟨d, [Fibonacci.word 3], f⟩, ⟨d, [], c.function⟩] given :=
    .keep session List.mem_cons_self .calls fuel [⟨.int 3, 0⟩] (show 1 < 2 by decide) rfl ended
  have called := CurriedSession.apply keeping List.mem_cons_self .member 5 [⟨.int 7, 0⟩]
  have again := CurriedSession.reset called rfl
  have answer : made.Ends (fun fuel =>
      Run.applyCurried fuel plain [⟨Fibonacci.word 3, 0⟩, ⟨Fibonacci.word 5, 0⟩])
      (.ok (Fibonacci.word 24)) := by
    have admits : Admits [SeededFibonacci.seed, SeededFibonacci.index]
        ([⟨Fibonacci.word 3, 0⟩, ⟨Fibonacci.word 5, 0⟩].map fun a : Boxed => a.value) :=
      ⟨rfl, rfl, trivial⟩
    refine (closure.ends_iff admits (Nat.le_refl 2) _).2 ?_
    show (d.limit (.list []) (Fibonacci.word 3)).andThen _ = _
    rw [limit_of_more .none, Partial.andThen_value]
    show (d.limit (.list [Fibonacci.word 3]) (Fibonacci.word 5)).andThen _ = _
    rw [SeededFibonacci.limit_three_five]
    rfl
  have same := ((applied_answers_plain rfl again List.mem_cons_self .member [⟨.int 5, 0⟩]).2
    [Fibonacci.word 5] rfl plain made closure
    [⟨Fibonacci.word 3, 0⟩, ⟨Fibonacci.word 5, 0⟩] rfl).1 (Nat.le_refl 1)
    (.ok (Fibonacci.word 24))
  exact ⟨_, _, plain, made, f, again, List.mem_cons_self, closure, answer, same.2 answer⟩

end CurriedSession

end Knot
