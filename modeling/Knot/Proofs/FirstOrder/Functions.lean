import Knot.Proofs.FirstOrder.Build

/-!
# Compiled functions

What `Run.build` and `Run.recursiveClosure` give for a first-order definition. A call of a compiled
function coerces its argument and goes on as a call of the entry, so that it follows the limit of the
definition on the coerced argument (`World.compiled_runs`). Any call of it, however many arguments it
is given, leaves the world as it should be (`World.compiled_keeps`).
-/

namespace Knot

/-! ## Answers of calls -/

/-- What a run answers: a value or a fault, if it has come to an end. -/
def Outcome.answer : Outcome Boxed → Partial
  | .value v => some (.ok v.value)
  | .fault e => some (.error e)
  | .jump _ _ => none
  | .exhausted => none

/-- With enough fuel, a call of a function on an argument answers so. -/
def Machine.Answers [Host] (m : Machine) (function argument : Boxed) (r : Except Fault Value) : Prop :=
  ∃ fuel, (Run.call fuel function [argument] m).1.answer = some r

namespace Follows

variable {strict live : Prop} {limit approx : Partial} {o : Outcome Boxed}

/-- An answer by a value is that of the limit. -/
theorem limit_of_value (h : Follows strict live limit approx o) {v : Value}
    (answer : o.answer = some (.ok v)) : limit = some (.ok v) := by
  cases o <;> cases answer
  exact h

/-- An answer is that of the limit. -/
theorem limit_of_answer (h : Follows strict live limit approx o) (exact_ : strict)
    {r : Except Fault Value} (answer : o.answer = some r) : limit = some r := by
  cases o <;> cases answer
  · exact h
  · exact h.1 exact_

/-- Where the approximation answers there is that answer. -/
theorem answer_of_approx (h : Follows strict live limit approx o) (exact_ : strict)
    (below : approx.Below limit) {r : Except Fault Value} (deep : approx = some r) :
    o.answer = some r := by
  have known := below.eq_of_some deep
  cases o with
  | value v =>
    have value : limit = some (.ok v.value) := h
    rw [Outcome.answer, ← value, known]
  | fault e => rw [Outcome.answer, ← h.1 exact_, known]
  | jump t v => exact h.elim
  | exhausted =>
    have silent := h.1 exact_
    rw [deep] at silent
    cases silent

/-- Where the approximation answers by a value there is that answer. -/
theorem answer_of_value (h : Follows strict live limit approx o) (alive : live)
    (below : approx.Below limit) {v : Value} (deep : approx = some (.ok v)) :
    o.answer = some (.ok v) := by
  have known := below.eq_of_some deep
  cases o with
  | value u =>
    have value : limit = some (.ok u.value) := h
    rw [Outcome.answer, ← value, known]
  | fault e => exact absurd deep (h.2 alive v)
  | jump t u => exact h.elim
  | exhausted => exact absurd deep (h.2 alive v)

end Follows

/-! ## Compiled functions -/

/-- What a function of the domain answers on an argument that is yet to be coerced. -/
def FirstOrderDefinition.onCoerced (d : FirstOrderDefinition) (answers : Value → Partial)
    (argument : Value) : Partial :=
  match d.domain.coerce argument with
  | .ok a => answers a
  | .error e => some (.error e)

namespace FirstOrderDefinition

variable (d : FirstOrderDefinition) {argument : Value}

theorem onCoerced_ok (answers : Value → Partial) {a : Value}
    (coerced : d.domain.coerce argument = .ok a) : d.onCoerced answers argument = answers a := by
  unfold onCoerced
  rw [coerced]

theorem onCoerced_error (answers : Value → Partial) {e : Fault}
    (coerced : d.domain.coerce argument = .error e) :
    d.onCoerced answers argument = some (.error e) := by
  unfold onCoerced
  rw [coerced]

theorem onCoerced_below_limit (n : Nat) (argument : Value) :
    (d.onCoerced (d.approx n) argument).Below (d.onCoerced d.limit argument) := by
  unfold onCoerced
  split
  · exact d.approx_below_limit n _
  · exact .refl _

/-- What the limit answers is answered at some depth. -/
theorem onCoerced_reached {r : Except Fault Value} (answered : d.onCoerced d.limit argument = some r) :
    ∃ n, d.onCoerced (d.approx n) argument = some r := by
  cases coerced : d.domain.coerce argument with
  | ok a =>
    rw [d.onCoerced_ok _ coerced] at answered
    obtain ⟨n, deep⟩ := d.limit_eq_some_iff.1 answered
    exact ⟨n, (d.onCoerced_ok _ coerced).trans deep⟩
  | error e =>
    -- a coercion fails before any call
    rw [d.onCoerced_error _ coerced] at answered
    exact ⟨0, (d.onCoerced_error _ coerced).trans answered⟩

end FirstOrderDefinition

/-- A pure function around the entry of a compiled definition. -/
def Installed.Wrapped {o : CompileOptions} (i : Installed o) (f : Boxed) (m : Machine) : Prop :=
  ∃ g inner k, f.value = .compiled g ∧ g.params = [.value i.definition.domain] ∧
    g.result = .value i.definition.codomain ∧ m.functions[g.id]? = some (.wrapper inner) ∧
    inner.value = .closure k ∧ i.EntryAt k m

theorem Installed.Wrapped.later {o : CompileOptions} {i : Installed o} {f : Boxed} {m m' : Machine}
    (h : i.Wrapped f m) (later : Later m m') : i.Wrapped f m' := by
  obtain ⟨g, inner, k, compiled, params, result, there, closure, entry⟩ := h
  exact ⟨g, inner, k, compiled, params, result, later.functions _ _ there, closure, entry.later later⟩

/-- Coercing an argument to a value type fails, or yields the coerced value in some box. -/
theorem Run.coerce_eq (t : ValueType) (v : Boxed) (m : Machine) :
    (∃ e, t.coerce v.value = .error e ∧ Run.coerce (.value t) v m = (.fault e, m)) ∨
      ∃ (b : Boxed) (n : Nat), t.coerce v.value = .ok b.value ∧
        Run.coerce (.value t) v m = (.value b, { m with nextIdentity := n }) := by
  unfold Run.coerce
  split
  next keeps =>
    have typed : v.value.hasType t = true := keeps
    have same : t.coerce v.value = .ok v.value := by
      unfold ValueType.coerce
      rw [if_pos typed]
    exact .inr ⟨v, m.nextIdentity, same, rfl⟩
  next =>
    show (∃ e, _ ∧ Run.boxResult (t.coerce v.value) m = _) ∨
      ∃ b n, _ ∧ Run.boxResult (t.coerce v.value) m = _
    cases coerced : t.coerce v.value with
    | error e => exact .inl ⟨e, rfl, rfl⟩
    | ok a => exact .inr ⟨⟨a, m.nextIdentity⟩, m.nextIdentity + 1, rfl, rfl⟩

/-- What a call of a pure function does with the coerced arguments. -/
def Run.callWrapped (call : Caller) (f : PureFunction) (values : List Boxed) : Run Boxed := do
  askNesting
  match ← callable f.id with
  | .wrapper inner => do
    let v ← call inner values
    let shown ← read fun m => m.current f
    wrapResult shown v
  | _ => fail .wrongKind

/-- A call of a function of one argument that wraps another one fails to coerce the argument, or goes on
as a call of that one on the coerced argument. -/
theorem Run.call_wrapper [Host] {f : Boxed} {g : PureFunction} {t : ValueType} {inner : Boxed} {m : Machine}
    (compiled : f.value = .compiled g) (params : g.params = [.value t])
    (there : m.functions[g.id]? = some (.wrapper inner)) (nesting : m.settings.askNesting = .ok ())
    (fuel : Nat) (argument : Boxed) :
    (∃ e, t.coerce argument.value = .error e ∧ call (fuel + 1) f [argument] m = (.fault e, m)) ∨
      ∃ (b : Boxed) (n : Nat), t.coerce argument.value = .ok b.value ∧
        call (fuel + 1) f [argument] m = (do
          let v ← call fuel inner [b]
          let shown ← read fun m => m.current g
          wrapResult shown v) { m with nextIdentity := n } := by
  have shape : call (fuel + 1) f [argument] =
      coerceAll [.value t] [argument] >>= callWrapped (call fuel) g := by
    unfold call callBy
    rw [compiled, ← params]
    exact if_pos (by rw [params]; rfl)
  rw [shape]
  rcases coerce_eq t argument m with ⟨e, coerced, failed⟩ | ⟨b, n, coerced, done⟩
  · exact .inl ⟨e, coerced, bind_of_fault (bind_of_fault failed)⟩
  · refine .inr ⟨b, n, coerced, ?_⟩
    have values : coerceAll [.value t] [argument] m = (.value [b], { m with nextIdentity := n }) :=
      bind_of_value done
    have asked : askNesting { m with nextIdentity := n } = (.value (), { m with nextIdentity := n }) := by
      unfold askNesting
      simp only [nesting]
      rfl
    have found : callable g.id { m with nextIdentity := n } =
        (.value (.wrapper inner), { m with nextIdentity := n }) := callable_of_some there
    exact (bind_of_value values).trans ((bind_of_value asked).trans (bind_of_value found))

namespace World

variable {w : World} {i : Installed w.options} {m : Machine}

/-- A call of a compiled function on one argument follows the limit on the coerced argument. -/
theorem compiled_runs [Host] (member : i ∈ w.members) {f : Boxed} (wrapped : i.Wrapped f m)
    (nesting : m.settings.askNesting = .ok ()) (h : w.Holds m) (fuel : Nat) (argument : Boxed) :
    w.Runs (Follows (w.options.threading = false)
        (w.options.threading = false ∨ i.definition.body.connectsNoCalls = true)
        (i.definition.onCoerced i.definition.limit argument.value)
        (i.definition.onCoerced (i.definition.approx (fuel - 1)) argument.value))
      (Run.call (fuel + 1) f [argument]) m := by
  obtain ⟨g, inner, k, compiled, params, result, there, closure, entry⟩ := wrapped
  rcases Run.call_wrapper compiled params there nesting fuel argument with
    ⟨e, coerced, failed⟩ | ⟨b, n, coerced, inside⟩
  · rw [i.definition.onCoerced_error _ coerced, i.definition.onCoerced_error _ coerced]
    exact .of_eq h failed ⟨fun _ => rfl, fun _ v impossible => by cases impossible⟩
  · have later := Later.box m n
    have holds := h.later later rfl rfl
    have typed : b.value.hasType i.definition.domain = true := ValueType.coerce_hasType coerced
    rw [i.definition.onCoerced_ok _ coerced, i.definition.onCoerced_ok _ coerced]
    refine Runs.of_later ?_ later (fun _ _ => rfl) inside
    have called : w.Runs (Follows (w.options.threading = false)
        (w.options.threading = false ∨ i.definition.body.connectsNoCalls = true)
        (i.definition.limit b.value) (i.definition.approx (fuel - 1) b.value))
        (Run.call fuel inner [b]) { m with nextIdentity := n } := by
      cases fuel with
      | zero => exact .of_eq holds rfl ⟨fun _ => rfl, fun _ v impossible => by cases impossible⟩
      | succ n' => exact entry_runs member n' closure (entry.later later) typed holds
    refine called.bind (fun v m' value holds' _ => ?_) (fun e => id) (fun t v => id) id
    -- no function comes back that would have to be wrapped
    have shown : Run.wrapResult (m'.current g) v = pure v := by
      have plain : (m'.current g).result = .value i.definition.codomain := result
      unfold Run.wrapResult
      rw [plain]
    refine .of_eq holds' (o := .value v) ?_ value
    show Run.wrapResult (m'.current g) v m' = _
    rw [shown]
    rfl

/-- A call of a compiled function on any arguments leaves the world as it should be. -/
theorem compiled_keeps [Host] (member : i ∈ w.members) {f : Boxed} (wrapped : i.Wrapped f m)
    (nesting : m.settings.askNesting = .ok ()) (h : w.Holds m) (fuel : Nat) (args : List Boxed) :
    w.Runs (fun _ => True) (Run.call fuel f args) m := by
  cases fuel with
  | zero => exact .of_eq h rfl trivial
  | succ n =>
    by_cases one : ∃ argument, args = [argument]
    · obtain ⟨argument, rfl⟩ := one
      exact (compiled_runs member wrapped nesting h n argument).weaken fun _ _ => trivial
    · obtain ⟨g, inner, k, compiled, params, -⟩ := wrapped
      have counted : ¬args.length = g.params.length := by
        rw [params]
        intro same
        exact one (List.length_eq_one_iff.1 same)
      refine .of_eq h (o := .fault (.functionArguments (m.current g).name g.params.length args.length))
        ?_ trivial
      unfold Run.call Run.callBy
      rw [compiled]
      show Run.applyPure _ g args m = _
      unfold Run.applyPure
      simp only [counted, if_false]
      rfl

end World

/-! ## Building -/

/-- The options that a build compiles with. -/
def CompileOptions.resolved (o : CompileOptions) : CompileOptions :=
  ⟨o.caching, o.threading, true,
    if o.caching then some (o.cache.getD Machine.defaultCache) else o.cache, o.pool⟩

theorem CompileOptions.cache_resolved {o : CompileOptions} (caching : o.caching = true) :
    o.resolved.cache = some (o.cache.getD Machine.defaultCache) := if_pos caching

/-- A build adds a member to a world, and yields a pure function around its entry. -/
theorem World.Holds.build [Host] {o : CompileOptions} {members : List (Installed o.resolved)}
    {d : FirstOrderDefinition} {fuel : Nat} {m m' : Machine} {c : Compilation}
    (h : (World.mk o.resolved members).Holds m) (fresh : d.argument.uid ≠ m.nextUid)
    (built : Run.build fuel d.tree o.caching o.threading o.cache o.pool m = (.value c, m')) :
    ∃ i : Installed o.resolved, i.definition = d ∧ (World.mk o.resolved (i :: members)).Holds m' ∧
      Later m m' ∧ i.Wrapped c.function m' := by
  obtain ⟨compilation, before, compiled, rfl, rfl⟩ := Run.compile_of_build d.ofExpr_tree built
  obtain ⟨i, rfl, holds, later, id, closure, entry⟩ := h.compile fresh compiled
  have added := Later.addFunction before (.wrapper compilation.function)
  refine ⟨i, rfl, holds.later added rfl rfl, later.trans added, ?_⟩
  refine ⟨_, compilation.function, id, rfl, rfl, rfl, ?_, closure, entry.later added⟩
  exact Array.getElem?_push_size

/-! ## Plain closures -/

namespace FirstOrderDefinition

variable {d : FirstOrderDefinition}

/-- A function is the plain closure of a definition, and the machine is the one after it was made. -/
def PlainIn [Host] (d : FirstOrderDefinition) (plain : Boxed) (m : Machine) : Prop :=
  ∃ fuel before, d.argument.uid < before.nextUid ∧
    Run.recursiveClosure fuel d.tree before = (.value plain, m)

/-- A plain closure answers on an argument of the domain what the limit answers. -/
theorem PlainIn.answers_iff [Host] {plain : Boxed} {m : Machine} (h : d.PlainIn plain m) (argument : Boxed)
    (typed : argument.value.hasType d.domain = true) (r : Except Fault Value) :
    m.Answers plain argument r ↔ d.limit argument.value = some r := by
  obtain ⟨fuel, before, fresh, made⟩ := h
  obtain ⟨compilation, compiled, rfl⟩ := Run.compile_of_recursiveClosure d.ofExpr_tree made
  -- a world of the one definition, without a cache and without a pool
  have alone : (World.mk .plain []).Holds before :=
    .start (fun caching => absurd caching Bool.false_ne_true)
      fun threading => absurd threading Bool.false_ne_true
  obtain ⟨i, rfl, holds, -, id, closure, entry⟩ := alone.compile (Nat.ne_of_lt fresh) compiled
  have runs := fun fuel => World.entry_runs (w := (World.mk .plain []).add i) (i := i)
    List.mem_cons_self fuel closure entry typed holds
  constructor
  · rintro ⟨fuel, answer⟩
    cases fuel with
    | zero => cases answer
    | succ n => exact (runs n).outcome.limit_of_answer rfl answer
  · intro known
    obtain ⟨n, deep⟩ := i.definition.limit_eq_some_iff.1 known
    exact ⟨n + 1, (runs n).outcome.answer_of_approx rfl (i.definition.approx_below_limit n _) deep⟩

end FirstOrderDefinition

end Knot
