import Knot.Proofs.Curried.Marking
import Knot.Proofs.Evaluation
import Knot.Proofs.FirstOrder.World

/-!
# Machines that hold partial applications

A call of a curried function on fewer arguments than it takes answers by a new closure, and a memo cache
may hand out that closure again, and keeps a table of its own for it. A `Store` says which closures of a
machine are partial applications, of which function and to which arguments. `Store.Holds` is what is
invariant while compiled curried functions run:

* every closure in the store awaits the next argument of its function, in a frame that shows the arguments
  it has been given;
* every entry of the memo cache is an answer of the application that the closure is (`Store.Answers`).

A run adds to the store and takes nothing out of it. `Store.Runs` is the judgement on runs, with what is
expected of the outcome, `Store.Follows` what is expected of a run that has a denotation.
-/

namespace Knot

/-! ## Stores -/

/-- A compiled curried definition. -/
structure CompiledCurried (o : CompileOptions) where
  definition : CurriedDefinition
  /-- The variable that the calls of the function look up. -/
  bound : Parameter
  body : Expr
  compiles : definition.Compiles o bound body

/-- A compiled function with some arguments, fewer than it takes. -/
structure Application (o : CompileOptions) where
  function : CompiledCurried o
  args : List Value
  next : WholeVariable
  rest : List WholeVariable
  takes : Takes function.definition.inputs args (next :: rest)

/-- What it does with the next argument. -/
def Application.body {o : CompileOptions} (p : Application o) : Expr :=
  p.function.body.curried p.function.definition.codomain p.rest

/-- What the variables stand for in it. -/
def Application.environment {o : CompileOptions} (p : Application o) : Nat → Option Value :=
  p.function.definition.environment p.function.bound p.args

/-- What it answers on an argument. -/
noncomputable def Application.answer {o : CompileOptions} (p : Application o) (v : Value) : Partial :=
  p.function.definition.limit (.list p.args) v

/-- Which closures are applications, and which. -/
def Store (o : CompileOptions) := Nat → Option (Application o)

namespace Store

variable {o : CompileOptions} {σ τ υ : Store o} {c : CompiledCurried o} {m m' : Machine}

/-- The store of which no closure is an application. -/
def empty (o : CompileOptions) : Store o := fun _ => none

/-- The store with one more application. -/
def add (σ : Store o) (id : Nat) (p : Application o) : Store o :=
  fun k => if k = id then some p else σ k

/-- What is in the one store is in the other. -/
def Extends (σ τ : Store o) : Prop := ∀ id p, σ id = some p → τ id = some p

theorem Extends.refl (σ : Store o) : σ.Extends σ := fun _ _ => id

theorem Extends.trans (first : σ.Extends τ) (second : τ.Extends υ) : σ.Extends υ :=
  fun id p held => second id p (first id p held)

theorem add_self (σ : Store o) (id : Nat) (p : Application o) : σ.add id p id = some p := if_pos rfl

theorem extends_add {id : Nat} (free : σ id = none) (p : Application o) : σ.Extends (σ.add id p) := by
  intro k q held
  have other : k ≠ id := by
    rintro rfl
    rw [free] at held
    cases held
  exact (if_neg other).trans held

/-- The value of a machine that stands for what a part of a body denotes: a scalar for itself, and a
closure for the function with the arguments it has been given. -/
inductive Denotes (σ : Store o) (c : CompiledCurried o) : Value → Value → Prop
  | scalar (s : Scalar) : Denotes σ c (.scalar s) (.scalar s)
  | application {id p} (held : σ id = some p) (own : p.function = c) :
      Denotes σ c (.closure id) (.list p.args)

theorem Denotes.extend {v d : Value} (h : σ.Denotes c v d) (more : σ.Extends τ) : τ.Denotes c v d := by
  cases h with
  | scalar s => exact .scalar s
  | application held own => exact .application (more _ _ held) own

theorem Denotes.of_hasType {v : Value} {t : ValueType} (typed : v.hasType t = true) :
    σ.Denotes c v v := by
  obtain ⟨s, rfl, -⟩ := Value.hasType_iff.1 typed
  exact .scalar s

/-- What a scalar denotes is the scalar. -/
theorem Denotes.eq_of_hasType {v d : Value} {t : ValueType} (h : σ.Denotes c v d)
    (typed : d.hasType t = true) : v = d := by
  cases h with
  | scalar s => rfl
  | application held own => cases typed

/-- A closure denotes the function with its arguments. -/
theorem Denotes.inversion {v : Value} {args : List Value} (h : σ.Denotes c v (.list args)) :
    ∃ id p, v = .closure id ∧ σ id = some p ∧ p.function = c ∧ p.args = args := by
  cases h with
  | application held own => exact ⟨_, _, rfl, held, own, rfl⟩

/-! ## The invariant -/

/-- A frame shows what the variables stand for. -/
structure Shows (σ : Store o) (c : CompiledCurried o) (env : Nat → Option Value) (frame : Nat)
    (m : Machine) : Prop where
  inside : frame < m.frames.frames.size
  shown : ∀ uid v, env uid = some v →
    ∃ box, m.frames.lookup frame uid = some box ∧ σ.Denotes c box.value v

/-- A closure awaits the next argument of an application. -/
def Places (σ : Store o) (id : Nat) (p : Application o) (m : Machine) : Prop :=
  ∃ frame, m.functions[id]? = some (.closure [p.next.parameter.uid] p.body frame o.context) ∧
    σ.Shows p.function p.environment frame m

/-- An answer of the application that a closure is. -/
def Answers (σ : Store o) (closure : Nat) (a r : Value) : Prop :=
  ∃ p, σ closure = some p ∧ a.hasType p.next.domain = true ∧
    ∃ d, p.answer a = some (.ok d) ∧ σ.Denotes p.function r d

theorem Answers.extend {closure : Nat} {a r : Value} (h : σ.Answers closure a r)
    (more : σ.Extends τ) : τ.Answers closure a r := by
  obtain ⟨p, held, typed, d, answer, denotes⟩ := h
  exact ⟨p, more _ _ held, typed, d, answer, denotes.extend more⟩

/-- The applications of a store are there, and the cache holds answers only. -/
structure Holds (σ : Store o) (m : Machine) : Prop where
  places : ∀ id p, σ id = some p → σ.Places id p m
  cache : o.caching = true →
    ∃ c, o.cache = some c ∧ c < m.caches.size ∧ (m.cache c).Sound σ.Answers

/-- Before the first application all that is expected of a machine is that the cache is there and has not
been used. -/
theorem Holds.start (cache : o.caching = true →
    ∃ c, o.cache = some c ∧ m.caches[c]? = some .empty) : (Store.empty o).Holds m where
  places id p held := by cases held
  cache on := by
    obtain ⟨c, named, unused⟩ := cache on
    refine ⟨c, named, (Array.getElem?_eq_some_iff.1 unused).1, ?_⟩
    unfold Machine.cache
    rw [unused]
    exact MemoCache.Sound.unused

/-- What a run leaves as it is. -/
structure Continues (m m' : Machine) : Prop extends Later m m' where
  attributes : m'.attributes = m.attributes

theorem Continues.refl (m : Machine) : Continues m m := ⟨.refl m, rfl⟩

theorem Continues.trans {m'' : Machine} (first : Continues m m') (second : Continues m' m'') :
    Continues m m'' :=
  ⟨first.toLater.trans second.toLater, second.attributes.trans first.attributes⟩

theorem Shows.later {env : Nat → Option Value} {frame : Nat} (h : σ.Shows c env frame m)
    (more : σ.Extends τ) (later : Later m m') : τ.Shows c env frame m' := by
  refine ⟨Nat.lt_of_lt_of_le h.inside later.frames, fun uid v known => ?_⟩
  obtain ⟨box, found, denotes⟩ := h.shown uid v known
  exact ⟨box, by rw [later.lookup frame h.inside]; exact found, denotes.extend more⟩

theorem Places.later {id : Nat} {p : Application o} (h : σ.Places id p m) (more : σ.Extends τ)
    (later : Later m m') : τ.Places id p m' := by
  obtain ⟨frame, there, shows⟩ := h
  exact ⟨frame, later.functions _ _ there, shows.later more later⟩

/-- The invariant of a later machine with the same caches. -/
theorem Holds.later (h : σ.Holds m) (later : Later m m') (caches : m'.caches = m.caches) :
    σ.Holds m' where
  places id p held := (h.places id p held).later (.refl σ) later
  cache on := by
    obtain ⟨c, named, inside, sound⟩ := h.cache on
    refine ⟨c, named, by rw [caches]; exact inside, ?_⟩
    unfold Machine.cache at sound ⊢
    rw [caches]
    exact sound

/-- The invariant after a step of the cache that leaves it sound. -/
theorem Holds.setCache (h : σ.Holds m) {c : CacheId} (inside : c < m.caches.size) {value : MemoCache}
    (grows : (m.cache c).Grows value) (sound : value.Sound σ.Answers) : σ.Holds (m.setCache c value) where
  places id p held := (h.places id p held).later (.refl σ) (.setCache inside grows)
  cache on := by
    obtain ⟨d, named, inside', sound'⟩ := h.cache on
    refine ⟨d, named, by simpa [Machine.setCache] using inside', ?_⟩
    rw [Machine.cache_setCache inside]
    split
    · exact sound
    · exact sound'

/-- A closure that is not there yet is no application. -/
theorem Holds.free (h : σ.Holds m) : σ m.functions.size = none := by
  cases held : σ m.functions.size with
  | none => rfl
  | some p =>
    obtain ⟨frame, there, -⟩ := h.places _ p held
    exact absurd (Array.getElem?_eq_some_iff.1 there).1 (Nat.lt_irrefl _)

/-- The invariant after an application has been added to a later machine. -/
theorem Holds.add (h : σ.Holds m) (later : Later m m') (caches : m'.caches = m.caches)
    {p : Application o} (placed : (σ.add m.functions.size p).Places m.functions.size p m') :
    σ.Extends (σ.add m.functions.size p) ∧ (σ.add m.functions.size p).Holds m' := by
  have more := extends_add h.free p
  refine ⟨more, fun id q held => ?_, fun on => ?_⟩
  · unfold Store.add at held
    split at held
    next here =>
      cases held
      exact here ▸ placed
    next => exact (h.places id q held).later more later
  · obtain ⟨c, named, inside, sound⟩ := (h.later later caches).cache on
    exact ⟨c, named, inside, sound.mono fun i a r answer => answer.extend more⟩

/-! ## The judgement -/

/-- A run from a machine on which a store holds. -/
def Runs {α : Type} (σ : Store o) (expected : Store o → Machine → Outcome α → Prop) (x : Run α)
    (m : Machine) : Prop :=
  ∃ τ : Store o, σ.Extends τ ∧ τ.Holds (x m).2 ∧ Continues m (x m).2 ∧ expected τ (x m).2 (x m).1

namespace Runs

variable {α β : Type} {expected expected' : Store o → Machine → Outcome α → Prop}
  {wanted : Store o → Machine → Outcome β → Prop}

/-- A run that ends at once. -/
theorem of_eq {x : Run α} {out : Outcome α} (h : σ.Holds m) (same : x m = (out, m))
    (fits : expected σ m out) : σ.Runs expected x m := by
  refine ⟨σ, .refl σ, ?_⟩
  rw [same]
  exact ⟨h, .refl m, fits⟩

/-- Less may be expected of the outcome. -/
theorem weaken {x : Run α} (h : σ.Runs expected x m)
    (implied : ∀ τ m' out, expected τ m' out → expected' τ m' out) : σ.Runs expected' x m := by
  obtain ⟨τ, more, holds, continues, outcome⟩ := h
  exact ⟨τ, more, holds, continues, implied _ _ _ outcome⟩

/-- A run that goes on as another one from a later machine. -/
theorem of_continues {x y : Run α} (h : τ.Runs expected y m') (more : σ.Extends τ)
    (continues : Continues m m') (same : x m = y m') : σ.Runs expected x m := by
  obtain ⟨υ, more', holds, continues', outcome⟩ := h
  refine ⟨υ, more.trans more', ?_⟩
  rw [same]
  exact ⟨holds, continues.trans continues', outcome⟩

/-- One run after another. -/
theorem bind {x : Run α} {f : α → Run β} (first : σ.Runs expected x m)
    (second : ∀ a τ m', expected τ m' (.value a) → σ.Extends τ → τ.Holds m' → Continues m m' →
      τ.Runs wanted (f a) m')
    (fault : ∀ τ m' e, expected τ m' (.fault e) → wanted τ m' (.fault e))
    (jump : ∀ τ m' t v, expected τ m' (.jump t v) → wanted τ m' (.jump t v))
    (exhausted : ∀ τ m', expected τ m' .exhausted → wanted τ m' .exhausted) :
    σ.Runs wanted (x >>= f) m := by
  have shape : (x >>= f) m = Run.bind x f m := rfl
  obtain ⟨τ, more, holds, continues, outcome⟩ := first
  rcases ended : x m with ⟨out, m'⟩
  rw [ended] at holds continues outcome
  cases out with
  | value a =>
    refine (second a τ m' outcome more holds continues).of_continues more continues ?_
    rw [shape, Run.bind, ended]
  | fault e =>
    have same : (x >>= f) m = (.fault e, m') := by rw [shape, Run.bind, ended]
    refine ⟨τ, more, ?_⟩
    rw [same]
    exact ⟨holds, continues, fault _ _ e outcome⟩
  | jump t v =>
    have same : (x >>= f) m = (.jump t v, m') := by rw [shape, Run.bind, ended]
    refine ⟨τ, more, ?_⟩
    rw [same]
    exact ⟨holds, continues, jump _ _ t v outcome⟩
  | exhausted =>
    have same : (x >>= f) m = (.exhausted, m') := by rw [shape, Run.bind, ended]
    refine ⟨τ, more, ?_⟩
    rw [same]
    exact ⟨holds, continues, exhausted _ _ outcome⟩

end Runs

/-! ## Following a denotation -/

/-- How values of a machine stand for what is denoted. -/
abbrev Reading (o : CompileOptions) := Store o → Machine → Value → Value → Prop

/-- Values as the parts of the body of a function have them. -/
def within (c : CompiledCurried o) : Reading o := fun τ _ => τ.Denotes c

/-- What is expected of the outcome of a run that denotes `limit`, and that answers at least what `approx`
answers. -/
def Follows (reading : Reading o) (limit approx : Partial) (τ : Store o) (m : Machine) :
    Outcome Boxed → Prop
  | .value v => ∃ d, limit = some (.ok d) ∧ reading τ m v.value d
  | .fault e => limit = some (.error e)
  | .jump _ _ => False
  | .exhausted => approx = none

variable {reading reading' : Reading o} {limit approx : Partial}

/-- Nothing more is expected where less is answered. -/
theorem Follows.lower {less : Partial} {out : Outcome Boxed} (h : Follows reading limit approx τ m out)
    (below : less.Below approx) : Follows reading limit less τ m out := by
  cases out with
  | exhausted =>
    rcases below with none_yet | same
    · exact none_yet
    · exact same.trans h
  | _ => exact h

/-- Values may be read in another way. -/
theorem Follows.read {out : Outcome Boxed} (h : Follows reading limit approx τ m out)
    (reads : ∀ v d, reading τ m v d → reading' τ m v d) : Follows reading' limit approx τ m out := by
  cases out with
  | value v =>
    obtain ⟨d, known, stands⟩ := h
    exact ⟨d, known, reads _ _ stands⟩
  | _ => exact h

/-- One run after another, each following what it denotes. -/
theorem Runs.andThen {x : Run Boxed} {f : Boxed → Run Boxed} {limit' approx' : Value → Partial}
    (below : approx.Below limit) (first : σ.Runs (Follows reading limit approx) x m)
    (second : ∀ v d τ m', limit = some (.ok d) → reading τ m' v.value d → σ.Extends τ → τ.Holds m' →
      Continues m m' → τ.Runs (Follows reading' (limit' d) (approx' d)) (f v) m') :
    σ.Runs (Follows reading' (limit.andThen limit') (approx.andThen approx')) (x >>= f) m := by
  refine first.bind (fun v τ m' value more holds continues => ?_) ?_ ?_ ?_
  · obtain ⟨d, known, stands⟩ := value
    rw [known] at below ⊢
    refine (second v d τ m' known stands more holds continues).weaken fun υ m'' out expected =>
      expected.lower ?_
    -- where the first approximation does not answer, nothing is asked of the fuel
    rcases below with rfl | rfl
    · exact .of_none _
    · exact .refl _
  · intro τ m' e known
    have fault : limit = some (.error e) := known
    show limit.andThen limit' = some (.error e)
    rw [fault, Partial.andThen_error]
  · intro τ m' t v impossible
    exact impossible
  · intro τ m' silent
    have none_yet : approx = none := silent
    show approx.andThen approx' = none
    rw [none_yet, Partial.andThen_none]

theorem runs_pure (h : σ.Holds m) {v : Boxed} {d : Value} (stands : reading σ m v.value d) :
    σ.Runs (Follows reading (.value d) (.value d)) (pure v) m :=
  .of_eq h rfl ⟨d, rfl, stands⟩

/-- A result of a value type in a new box. -/
theorem runs_boxResult (h : σ.Holds m) {r : Except Fault Value} {t : ValueType}
    (typed : ∀ v, r = .ok v → v.hasType t = true) :
    σ.Runs (Follows (within c) (some r) (some r)) (Run.boxResult r) m := by
  cases r with
  | ok v =>
    exact ⟨σ, .refl σ, h.later (.box m _) rfl, ⟨.box m _, rfl⟩, v, rfl, .of_hasType (typed v rfl)⟩
  | error e => exact .of_eq h rfl rfl

/-- A run that lets no jump out is not changed by sealing it. -/
theorem Runs.sealed {x : Run Boxed} (h : σ.Runs (Follows reading limit approx) x m) :
    σ.Runs (Follows reading limit approx) (Run.sealed x) m := by
  have same : Run.sealed x m = x m := by
    obtain ⟨τ, -, -, -, outcome⟩ := h
    unfold Run.sealed
    rcases ended : x m with ⟨out, m'⟩
    cases out with
    | jump t v =>
      rw [ended] at outcome
      exact outcome.elim
    | _ => rfl
  exact h.of_continues (.refl σ) (.refl m) same

/-! ## Cached calls -/

/-- The question that a call of an application on a typed argument asks of the cache. -/
theorem question {id : Nat} {p : Application o} (held : σ id = some p) {function argument : Boxed}
    (closure : function.value = .closure id) (typed : argument.value.hasType p.next.domain = true) :
    MemoCache.Question σ.Answers function argument id p.next.domain where
  closure := closure
  typed := typed
  whole := p.next.whole
  comparable a r answer := by
    obtain ⟨q, held', fits, -⟩ := answer
    cases held.symm.trans held'
    exact fits

/-- A cached call of an application answers as the application does. -/
theorem runs_lookupOrCompute (h : σ.Holds m) {id : Nat} {p : Application o} (held : σ id = some p)
    {c : CacheId} (named : o.cache = some c) (caching : o.caching = true) {function argument : Boxed}
    (closure : function.value = .closure id) (typed : argument.value.hasType p.next.domain = true)
    {compute : Run Boxed} (below : approx.Below (p.answer argument.value))
    (computed : ∀ τ m', σ.Extends τ → τ.Holds m' → Continues m m' →
      τ.Runs (Follows (within p.function) (p.answer argument.value) approx) compute m') :
    σ.Runs (Follows (within p.function) (p.answer argument.value) approx)
      (Run.lookupOrCompute c function argument compute) m := by
  have answer : ∀ {τ : Store o} {r : Boxed}, τ id = some p → τ.Answers id argument.value r.value →
      ∃ d, p.answer argument.value = some (.ok d) ∧ τ.Denotes p.function r.value d := by
    rintro τ r held' ⟨q, held'', -, right⟩
    cases held'.symm.trans held''
    exact right
  obtain ⟨d, named', inside, sound⟩ := h.cache caching
  cases named.symm.trans named'
  obtain ⟨begun, cache', started, sound', grows, found⟩ :=
    MemoCache.start_sound sound (question held closure typed)
  have holds' := h.setCache inside grows sound'
  have continues : Continues m (m.setCache c cache') := ⟨.setCache inside grows, rfl⟩
  rcases found with ⟨r, rfl, right⟩ | ⟨ticket, rfl, mine, admitted⟩
  · obtain ⟨d, known, denotes⟩ := answer held right
    have hit : σ.Runs (Follows (within p.function) (.value d) (.value d)) (pure r) (m.setCache c cache') :=
      runs_pure holds' denotes
    have run := hit.of_continues (.refl σ) continues (Run.lookupOrCompute_of_hit started compute)
    refine run.weaken fun τ m' out expected => ?_
    rw [known] at below ⊢
    exact expected.lower below
  · have rest : σ.Runs (Follows (within p.function) (p.answer argument.value) approx) (do
        let result ← compute
        Run.onCache c fun cache => cache.finish ticket result) (m.setCache c cache') := by
      refine (computed σ _ (.refl σ) holds' continues).bind
        (fun r τ m' value more holds continues' => ?_) (fun _ _ _ same => same)
        (fun _ _ _ _ same => same) fun _ _ same => same
      obtain ⟨d, known, denotes⟩ := value
      have held' := more _ _ held
      -- the ticket is still good, however the tables have grown while the result was computed
      have still : (m'.cache c).Admits ticket id := by
        refine MemoCache.Admits.grow ?_ (continues'.caches c)
        rw [Machine.cache_setCache_self inside]
        exact admitted
      obtain ⟨_, named', inside', sound''⟩ := holds.cache caching
      cases named.symm.trans named'
      obtain ⟨kept, cache'', finished, sound''', grows', right⟩ :=
        MemoCache.finish_sound sound'' (question held' closure typed) mine still
          ⟨p, held', typed, d, known, denotes⟩
      have last := Run.onCache_eq (m := m') (c := c) (f := fun cache => cache.finish ticket r) finished
      refine ⟨τ, .refl τ, ?_⟩
      rw [last]
      exact ⟨holds.setCache inside' grows' sound''', ⟨.setCache inside' grows', rfl⟩,
        answer held' right⟩
    exact rest.of_continues (.refl σ) continues (Run.lookupOrCompute_of_pending started compute)

end Store

end Knot
