import Knot.Proofs.FirstOrder.Functions

/-!
# Sessions

`Session` is every state of a process that builds first-order definitions with one choice of options,
calls what it has built on any arguments, and resets its cache, in any order. A call that runs out of
fuel stands for one that is still going on.

In every such state the world of the definitions holds (`Session.backed`). So neither the cache nor
the splits change an answer:

* with a cache and without splits a call answers just what the plain closure answers on the coerced
  argument, and every entry of the cache is an answer of a plain closure
  (`Session.cached_answers_plain`);
* with splits a call answers by no other value than without, and by the same value if no connective
  has two calls as its operands; and a call that ends leaves as many slots free as it found
  (`Session.split_answers_alike`).
-/

namespace Knot

/-! ## Reading a machine -/

/-- Every entry of a cache, in every generation, belongs to what the recursive calls of one of the
functions go to, and is what the plain closure of its definition answers on the argument. -/
def Machine.KeepsAnswers [Host] (m : Machine) (c : CacheId)
    (compiled : List (FirstOrderDefinition × Boxed)) : Prop :=
  ∀ generation ∈ (m.cache c).generations, ∀ table ∈ generation.tables, ∀ entry ∈ table.2,
    ∃ d f, (d, f) ∈ compiled ∧
      (∃ box, m.recursive? f = some box ∧ box.value = table.1.box.value) ∧
      ∀ plain m', d.PlainIn plain m' → ∀ identity,
        m'.Answers plain ⟨entry.1.box.value, identity⟩ (.ok entry.2.value)

/-! ## Sessions -/

/-- The states of a process that builds definitions, with what it has built so far. -/
inductive Session [Host] (o : CompileOptions) : List (FirstOrderDefinition × Boxed) → Machine → Prop
  /-- The cache is new, and the pool counts slots. -/
  | start {m} (nesting : m.settings.askNesting = .ok ())
      (cache : o.caching = true → m.caches[o.cache.getD Machine.defaultCache]? = some .empty)
      (pool : o.threading = true →
        ∃ p, o.pool = some p ∧ ∃ pool, m.pools[p]? = some pool ∧ pool.Whole) : Session o [] m
  | build {compiled m m' d fuel c} (before : Session o compiled m)
      (fresh : d.argument.uid < m.nextUid)
      (built : Run.build fuel d.tree o.caching o.threading o.cache o.pool m = (.value c, m')) :
      Session o ((d, c.function) :: compiled) m'
  | call {compiled m d f} (before : Session o compiled m) (known : (d, f) ∈ compiled) (fuel : Nat)
      (args : List Boxed) : Session o compiled (Run.call fuel f args m).2
  | reset {compiled m} (before : Session o compiled m) (caching : o.caching = true) :
      Session o compiled (Run.resetCache (o.cache.getD Machine.defaultCache) m).2
  /-- Others take slots of the pool or give them back. -/
  | share {compiled m p pool} (before : Session o compiled m) (threading : o.threading = true)
      (named : o.pool = some p) (same : pool.workers = (m.pool p).workers) (whole : pool.Whole) :
      Session o compiled (m.setPool p pool)

/-- The members of a world are the definitions that have been built. -/
structure Session.Backed [Host] (o : CompileOptions) (compiled : List (FirstOrderDefinition × Boxed))
    (members : List (Installed o.resolved)) (m : Machine) : Prop where
  holds : (World.mk o.resolved members).Holds m
  nesting : m.settings.askNesting = .ok ()
  member : ∀ d f, (d, f) ∈ compiled → ∃ i ∈ members, i.definition = d ∧ i.Wrapped f m
  built : ∀ i ∈ members, ∃ f, (i.definition, f) ∈ compiled ∧ i.Wrapped f m

namespace Session

variable {o : CompileOptions} {compiled : List (FirstOrderDefinition × Boxed)} {m : Machine}

/-- The recursive calls of a compiled function go to the closure of the definition. -/
theorem recursive?_of_wrapped {w : World} (h : w.Holds m) {i : Installed w.options}
    (member : i ∈ w.members) {f : Boxed} (wrapped : i.Wrapped f m) :
    ∃ box, m.recursive? f = some box ∧ box.value = .closure i.closure := by
  obtain ⟨g, inner, k, compiled, -, -, there, closure, entry⟩ := wrapped
  obtain ⟨-, box, found, value⟩ := (h.installed i member).bound
  refine ⟨box, ?_, value⟩
  rw [Machine.recursive?_eq compiled there closure entry (Definition.callee?_entry _ _ _), found]

section

variable [Host]

/-- What has been built stays so in a later machine. -/
theorem Backed.later {members : List (Installed o.resolved)} {m' : Machine}
    (h : Backed o compiled members m) (later : Later m m')
    (holds : (World.mk o.resolved members).Holds m') : Backed o compiled members m' where
  holds := holds
  nesting := by rw [later.settings]; exact h.nesting
  member d f known := by
    obtain ⟨i, member, definition, wrapped⟩ := h.member d f known
    exact ⟨i, member, definition, wrapped.later later⟩
  built i member := by
    obtain ⟨f, known, wrapped⟩ := h.built i member
    exact ⟨f, known, wrapped.later later⟩

/-- In every state of a session the world of the definitions holds. -/
theorem backed (session : Session o compiled m) : ∃ members, Backed o compiled members m := by
  -- by induction on the session, which says of each step what becomes of the members
  induction session with
  | @start m nesting cache pool =>
    exact ⟨[], .start (fun caching => ⟨_, CompileOptions.cache_resolved caching, cache caching⟩) pool,
      nesting, fun d f known => absurd known List.not_mem_nil,
      fun i member => absurd member List.not_mem_nil⟩
  | @build compiled m m' d fuel c _ fresh built ih =>
    obtain ⟨members, h⟩ := ih
    obtain ⟨i, rfl, holds, later, wrapped⟩ := h.holds.build (Nat.ne_of_lt fresh) built
    refine ⟨i :: members, holds, by rw [later.settings]; exact h.nesting, ?_, ?_⟩
    · rintro d f (_ | ⟨_, known⟩)
      · exact ⟨i, List.mem_cons_self, rfl, wrapped⟩
      -- what was built before is still there, since a build only adds
      · obtain ⟨j, member, definition, wrapped'⟩ := h.member d f known
        exact ⟨j, List.mem_cons_of_mem _ member, definition, wrapped'.later later⟩
    · rintro j (_ | ⟨_, member⟩)
      · exact ⟨c.function, List.mem_cons_self, wrapped⟩
      · obtain ⟨f, known, wrapped'⟩ := h.built j member
        exact ⟨f, List.mem_cons_of_mem _ known, wrapped'.later later⟩
  | call _ known fuel args ih =>
    obtain ⟨members, h⟩ := ih
    obtain ⟨i, member, -, wrapped⟩ := h.member _ _ known
    have runs := World.compiled_keeps (w := ⟨o.resolved, members⟩) member wrapped h.nesting h.holds fuel
      args
    exact ⟨members, h.later runs.later runs.holds⟩
  | @reset compiled m _ caching ih =>
    obtain ⟨members, h⟩ := ih
    obtain ⟨c, named, inside, sound⟩ := h.holds.cache caching
    have here : c = o.cache.getD Machine.defaultCache :=
      Option.some.inj (named.symm.trans (CompileOptions.cache_resolved caching))
    rw [← here]
    have emptied := Later.setCache inside (MemoCache.Grows.reset (m.cache c))
    have holds := h.holds.setCache inside (MemoCache.Grows.reset (m.cache c)) sound.reset
    have logged := Later.log (m.setCache c (m.cache c).reset)
      ((m.setCache c (m.cache c).reset).log.push "Memo cache reset")
    exact ⟨members, h.later (emptied.trans logged) (holds.later logged rfl rfl)⟩
  | @share compiled m p pool _ threading named same whole ih =>
    obtain ⟨members, h⟩ := ih
    obtain ⟨q, named', inside, -⟩ := h.holds.pool threading
    have here : q = p := Option.some.inj (named'.symm.trans named)
    subst here
    exact ⟨members, h.later (.setPool inside same) (h.holds.setPool inside same whole)⟩

/-- Without splits a call answers what the limit answers on the coerced argument. -/
theorem answers_iff (session : Session o compiled m) (sequential : o.threading = false)
    {d : FirstOrderDefinition} {f : Boxed} (known : (d, f) ∈ compiled) (argument : Boxed)
    (r : Except Fault Value) :
    m.Answers f argument r ↔ d.onCoerced d.limit argument.value = some r := by
  obtain ⟨members, h⟩ := session.backed
  obtain ⟨i, member, rfl, wrapped⟩ := h.member d f known
  have runs := fun fuel => World.compiled_runs (w := ⟨o.resolved, members⟩) member wrapped h.nesting
    h.holds fuel argument
  constructor
  · rintro ⟨fuel, answer⟩
    cases fuel with
    | zero => cases answer
    | succ n => exact (runs n).outcome.limit_of_answer sequential answer
  · intro answered
    -- the limit is reached at some depth, and one more each is needed for wrapper and entry
    obtain ⟨n, deep⟩ := i.definition.onCoerced_reached answered
    exact ⟨n + 2, (runs (n + 1)).outcome.answer_of_approx sequential
      (i.definition.onCoerced_below_limit n _) deep⟩

/-- In every state of a session every entry of the cache is an answer of a plain closure. -/
theorem keepsAnswers (session : Session o compiled m) (caching : o.caching = true) :
    m.KeepsAnswers (o.cache.getD Machine.defaultCache) compiled := by
  obtain ⟨members, h⟩ := session.backed
  obtain ⟨c, named, -, sound⟩ := h.holds.cache caching
  cases named.symm.trans (CompileOptions.cache_resolved caching)
  intro generation inside table tables entry entries
  obtain ⟨n, found⟩ := Array.mem_iff_getElem?.1 inside
  obtain ⟨p, there⟩ := List.mem_iff_getElem?.1 tables
  obtain ⟨k, owner, answers⟩ := sound.entries n generation found p table there
  obtain ⟨i, member, rfl, typed, answer⟩ := answers entry entries
  obtain ⟨f, known, wrapped⟩ := h.built i member
  obtain ⟨box, recursive, value⟩ := recursive?_of_wrapped h.holds member wrapped
  refine ⟨i.definition, f, known, ⟨box, recursive, value.trans owner.symm⟩, ?_⟩
  intro plain m' made identity
  exact (made.answers_iff ⟨entry.1.box.value, identity⟩ typed _).2 answer

/-- Caching never changes a result. In every state of a session with a cache and without splits, a call
of what has been built answers a value or a fault just when the plain closure of the definition does on
the coerced argument, or the fault of the coercion; and every entry of the cache is an answer of a
plain closure. -/
theorem cached_answers_plain (caching : o.caching = true) (sequential : o.threading = false)
    (session : Session o compiled m) :
    (∀ d f, (d, f) ∈ compiled → ∀ plain m', d.PlainIn plain m' → ∀ argument : Boxed,
      (∀ a, d.domain.coerce argument.value = .ok a → ∀ identity r,
        m.Answers f argument r ↔ m'.Answers plain ⟨a, identity⟩ r) ∧
      (∀ e, d.domain.coerce argument.value = .error e → ∀ r,
        m.Answers f argument r ↔ r = .error e)) ∧
      m.KeepsAnswers (o.cache.getD Machine.defaultCache) compiled := by
  refine ⟨fun d f known plain m' made argument => ⟨fun a coerced identity r => ?_,
    fun e coerced r => ?_⟩, session.keepsAnswers caching⟩
  · have typed : a.hasType d.domain = true := ValueType.coerce_hasType coerced
    rw [session.answers_iff sequential known, made.answers_iff ⟨a, identity⟩ typed,
      d.onCoerced_ok _ coerced]
  · rw [session.answers_iff sequential known, d.onCoerced_error _ coerced]
    constructor
    · intro same
      cases same
      rfl
    · rintro rfl
      rfl

end

/-- A machine on which the two variables of the Fibonacci numbers have been made, with a pool of four
workers. -/
def fibonacciMachine : Machine := { Machine.initial 1 with nextUid := 3, pools := #[.new (.int 4)] }

/-- With a cache, after a call and a reset, the seventh Fibonacci number is what the plain closure
answers. -/
theorem cached_answers_plain_fibonacci :
    ∃ f m plain m', Session ⟨true, false, true, some 0, none⟩ [(Fibonacci.definition, f)] m ∧
      Fibonacci.definition.PlainIn plain m' ∧
      m'.Answers plain ⟨Fibonacci.word 7, 0⟩ (.ok (Fibonacci.word 13)) ∧
      m.Answers f ⟨.int 7, 0⟩ (.ok (Fibonacci.word 13)) ∧
      m.KeepsAnswers 0 [(Fibonacci.definition, f)] := by
  let o : CompileOptions := ⟨true, false, true, some 0, none⟩
  have start : Session o [] fibonacciMachine := .start rfl (fun _ => rfl) nofun
  obtain ⟨c, built, build⟩ : ∃ c m, Run.build 2 Fibonacci.definition.tree true false (some 0) none
      fibonacciMachine = (.value c, m) := Run.value_of_isValue (by decide +kernel)
  have session : Session o [(Fibonacci.definition, c.function)] built := .build start (by decide) build
  have called := Session.call session List.mem_cons_self 5 [⟨.int 7, 0⟩]
  have again := Session.reset called rfl
  obtain ⟨plain, made, make⟩ : ∃ plain m, Run.recursiveClosure 2 Fibonacci.definition.tree
      fibonacciMachine = (.value plain, m) := Run.value_of_isValue (by decide +kernel)
  have closure : Fibonacci.definition.PlainIn plain made := ⟨2, fibonacciMachine, by decide, make⟩
  obtain ⟨alike, kept⟩ := cached_answers_plain rfl rfl again
  have answer : made.Answers plain ⟨Fibonacci.word 7, 0⟩ (.ok (Fibonacci.word 13)) :=
    (closure.answers_iff ⟨Fibonacci.word 7, 0⟩ rfl _).2 Fibonacci.limit_seven
  have same := (alike _ _ List.mem_cons_self plain made closure ⟨.int 7, 0⟩).1 (Fibonacci.word 7) rfl 0
  exact ⟨c.function, _, plain, made, again, closure, answer, (same _).2 answer, kept⟩

/-! ## Splits -/

section

variable [Host]

/-- With splits or without, a call answers by no other value than the limit on the coerced argument. -/
theorem limit_of_answers (session : Session o compiled m) {d : FirstOrderDefinition} {f : Boxed}
    (known : (d, f) ∈ compiled) {argument : Boxed} {v : Value}
    (answer : m.Answers f argument (.ok v)) :
    d.onCoerced d.limit argument.value = some (.ok v) := by
  obtain ⟨members, h⟩ := session.backed
  obtain ⟨i, member, rfl, wrapped⟩ := h.member d f known
  obtain ⟨fuel, answer⟩ := answer
  cases fuel with
  | zero => cases answer
  | succ n =>
    exact (World.compiled_runs (w := ⟨o.resolved, members⟩) member wrapped h.nesting h.holds n
      argument).outcome.limit_of_value answer

/-- If no connective has two calls as its operands, a call answers every value that the limit answers,
whatever is split. -/
theorem answers_of_limit (session : Session o compiled m) {d : FirstOrderDefinition} {f : Boxed}
    (known : (d, f) ∈ compiled) (calm : d.body.connectsNoCalls = true) {argument : Boxed} {v : Value}
    (answer : d.onCoerced d.limit argument.value = some (.ok v)) : m.Answers f argument (.ok v) := by
  obtain ⟨members, h⟩ := session.backed
  obtain ⟨i, member, rfl, wrapped⟩ := h.member d f known
  obtain ⟨n, deep⟩ := i.definition.onCoerced_reached answer
  have run := World.compiled_runs (w := ⟨o.resolved, members⟩) member wrapped h.nesting h.holds (n + 1)
    argument
  exact ⟨n + 2, run.outcome.answer_of_value (.inr calm) (i.definition.onCoerced_below_limit n _) deep⟩

/-- A call that ends leaves as many slots of the pool free as it found. -/
theorem slots_kept (session : Session o compiled m) {d : FirstOrderDefinition} {f : Boxed}
    (known : (d, f) ∈ compiled) {p : PoolId} (named : o.pool = some p) (fuel : Nat)
    (args : List Boxed) (ended : (Run.call fuel f args m).1.Ended) :
    ((Run.call fuel f args m).2.pool p).available = (m.pool p).available := by
  obtain ⟨members, h⟩ := session.backed
  obtain ⟨i, member, -, wrapped⟩ := h.member d f known
  exact (World.compiled_keeps (w := ⟨o.resolved, members⟩) member wrapped h.nesting h.holds fuel
    args).slots ended p named

/-- Threading never changes a result. Of two sessions, one with splits and one without, each with a
cache or without one, the one with splits answers by no other value than the other one, and by the same
value if no connective of the body has two calls as its operands. After a call that ends, with a value
or a fault, as many slots of the pool are free as before, however many those were, and whichever operand
of a split came first. -/
theorem split_answers_alike {o' : CompileOptions}
    {compiled' : List (FirstOrderDefinition × Boxed)} {m' : Machine}
    (session : Session o compiled m) (session' : Session o' compiled' m')
    (threaded : o.threading = true) (sequential : o'.threading = false)
    {d : FirstOrderDefinition} {f g : Boxed} (known : (d, f) ∈ compiled) (known' : (d, g) ∈ compiled')
    {argument argument' : Boxed} (same : argument'.value = argument.value) :
    (∀ v, m.Answers f argument (.ok v) → m'.Answers g argument' (.ok v)) ∧
      (d.body.connectsNoCalls = true → ∀ v, m'.Answers g argument' (.ok v) →
        m.Answers f argument (.ok v)) ∧
      ∃ p, o.pool = some p ∧ ∀ fuel, (Run.call fuel f [argument] m).1.Ended →
        ((Run.call fuel f [argument] m).2.pool p).available = (m.pool p).available := by
  refine ⟨fun v answer => ?_, fun calm v answer => ?_, ?_⟩
  · refine (session'.answers_iff sequential known' _ _).2 ?_
    rw [same]
    exact session.limit_of_answers known answer
  · have answered := (session'.answers_iff sequential known' _ _).1 answer
    rw [same] at answered
    exact session.answers_of_limit known calm answered
  · obtain ⟨members, h⟩ := session.backed
    obtain ⟨p, named, -⟩ := h.holds.pool threaded
    exact ⟨p, named, fun fuel ended => session.slots_kept known named fuel [argument] ended⟩

end

/-- With splits and a cache the seventh Fibonacci number is the one without. -/
theorem split_answers_alike_fibonacci :
    ∃ f m g m', Session ⟨true, true, true, some 0, some 0⟩ [(Fibonacci.definition, f)] m ∧
      Session ⟨false, false, true, none, none⟩ [(Fibonacci.definition, g)] m' ∧
      Fibonacci.definition.body.connectsNoCalls = true ∧
      m'.Answers g ⟨.int 7, 0⟩ (.ok (Fibonacci.word 13)) ∧
      m.Answers f ⟨.int 7, 0⟩ (.ok (Fibonacci.word 13)) := by
  let o : CompileOptions := ⟨true, true, true, some 0, some 0⟩
  let o' : CompileOptions := ⟨false, false, true, none, none⟩
  have whole : (WorkerPool.new (.int 4)).Whole := ⟨4, 4, rfl, rfl, Int.le_refl 4⟩
  have start : Session o [] fibonacciMachine :=
    .start rfl (fun _ => rfl) fun _ => ⟨0, rfl, .new (.int 4), rfl, whole⟩
  have start' : Session o' [] fibonacciMachine := .start rfl nofun nofun
  obtain ⟨c, built, build⟩ : ∃ c m, Run.build 2 Fibonacci.definition.tree true true (some 0) (some 0)
      fibonacciMachine = (.value c, m) := Run.value_of_isValue (by decide +kernel)
  obtain ⟨c', built', build'⟩ : ∃ c m, Run.build 2 Fibonacci.definition.tree false false none none
      fibonacciMachine = (.value c, m) := Run.value_of_isValue (by decide +kernel)
  have session : Session o [(Fibonacci.definition, c.function)] built := .build start (by decide) build
  have session' : Session o' [(Fibonacci.definition, c'.function)] built' :=
    .build start' (by decide) build'
  have answer : built'.Answers c'.function ⟨.int 7, 0⟩ (.ok (Fibonacci.word 13)) :=
    (session'.answers_iff rfl List.mem_cons_self _ _).2 Fibonacci.limit_seven
  have alike := split_answers_alike (m := built) (f := c.function) (g := c'.function) session session' rfl
    rfl List.mem_cons_self List.mem_cons_self (rfl : (⟨.int 7, 0⟩ : Boxed).value = _)
  exact ⟨c.function, built, c'.function, built', session, session', rfl, answer,
    alike.2.1 rfl _ answer⟩

end Session

end Knot
