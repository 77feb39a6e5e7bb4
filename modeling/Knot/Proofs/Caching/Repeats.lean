import Knot.Proofs.Binding.Calls
import Knot.Proofs.Caching.Runs
import Knot.Proofs.FirstOrder.Functions

/-!
# Repeated applications

A function that is built with a cache is a pure function around an entry, a closure that asks the cache for
the function that is defined (`Serving`). So an application to an integer or a truth value that has returned
is answered from the cache from then on: the kept result comes back, and nothing but the entry is evaluated
(`Serving.In.repeats`). Calls and resets of caches leave all of this in place (`Serving.In.onward`), and
without a reset what is kept stays kept.

Only the function that is defined is looked up. What it returns for the first of several arguments is kept,
but that function is called on the next argument without a cache, so its body is evaluated again
(`report_again`).
-/

namespace Knot

/-! ## Lookups that return -/

namespace MemoCache

variable {c c' : MemoCache} {function argument r : Boxed} {begun : Begun}

/-- What is held is found at once, and only a hit is counted. -/
theorem start_of_held (some_function : isAbsent function = false) (some_argument : isAbsent argument = false)
    (held : c.heldIn c.current function argument = .ok (some r)) :
    c.start function argument = .ok (.hit r, c.counting fun s => { s with hits := s.hits + 1 }) := by
  obtain ⟨f, place, a, key, placed, argumentKey, found⟩ := Generation.held_eq_some.1 held
  have placed : c.latest.place? f = .ok (some place) := placed
  have found : c.latest.get? place a = .ok (some r) := found
  unfold start
  simp only [some_function, some_argument, Bool.or_self, Bool.false_eq_true, if_false, key, bind,
    Except.bind, placed, argumentKey, found]
  rfl

/-- Only what is absent is bypassed. -/
theorem start_ne_bypassed (some_function : isAbsent function = false)
    (some_argument : isAbsent argument = false)
    (done : c.start function argument = .ok (begun, c')) : begun ≠ .bypassed := by
  rintro rfl
  unfold start at done
  simp only [some_function, some_argument, Bool.or_self, Bool.false_eq_true, if_false] at done
  obtain ⟨f, -, done⟩ := Except.bind_eq_ok.1 done
  obtain ⟨place, -, done⟩ := Except.bind_eq_ok.1 done
  cases place with
  | none => cases done
  | some place =>
    obtain ⟨a, -, done⟩ := Except.bind_eq_ok.1 done
    obtain ⟨kept, -, done⟩ := Except.bind_eq_ok.1 done
    cases kept <;> cases done

end MemoCache

namespace Run

variable {c : CacheId} {function argument r : Boxed} {compute : Run Boxed} {m m' : Machine}

/-- A lookup of what is held computes nothing. -/
theorem lookupOrCompute_of_held (some_function : MemoCache.isAbsent function = false)
    (some_argument : MemoCache.isAbsent argument = false)
    (held : (m.cache c).heldIn (m.cache c).current function argument = .ok (some r)) :
    lookupOrCompute c function argument compute m =
      (.value r, m.setCache c ((m.cache c).counting fun s => { s with hits := s.hits + 1 })) :=
  lookupOrCompute_of_hit (MemoCache.start_of_held some_function some_argument held) compute

/-- What a lookup returns is held from then on. -/
theorem held_of_lookupOrCompute (inside : c < m.caches.size) (sane : (m.cache c).Sane)
    (some_function : MemoCache.isAbsent function = false)
    (some_argument : MemoCache.isAbsent argument = false) (computes : Advancing compute)
    (ended : lookupOrCompute c function argument compute m = (.value r, m')) :
    (m'.cache c).heldIn (m.cache c).current function argument = .ok (some r) := by
  obtain ⟨begun, m₁, started, rest⟩ := value_of_bind ended
  obtain ⟨cache, start, rfl⟩ := value_of_onCache started
  have placed : (m.setCache c cache).cache c = cache := by
    rw [Machine.cache_setCache_self inside]
  cases begun with
  | bypassed => exact absurd rfl (MemoCache.start_ne_bypassed some_function some_argument start)
  | hit found =>
    cases rest
    rw [placed]
    exact MemoCache.start_returns start
  | pending ticket =>
    obtain ⟨result, m₂, computed, finishing⟩ := value_of_bind rest
    obtain ⟨cache', finish, rfl⟩ := value_of_onCache finishing
    obtain ⟨generation, argument, leads⟩ := MemoCache.start_leads sane.current start
    have advances : (m.setCache c cache).Advances m₂ := by
      have moved := computes (m.setCache c cache)
      rwa [computed] at moved
    have inside' : c < m₂.caches.size := by
      rw [advances.size]
      simpa [Machine.setCache] using inside
    -- the computation may use the cache as well, but only adds to it
    have grown : cache.Extends (m₂.cache c) := by
      have growth := (advances.cache c).grows
      rwa [placed] at growth
    rw [Machine.cache_setCache_self inside', ← generation, ← argument]
    exact MemoCache.finish_returns (leads.later grown) finish

end Run

/-! ## Later machines -/

namespace Machine

variable [Host] {m m' : Machine}

/-- A machine calls its way to another if calls alone lead there. -/
def Calls (m m' : Machine) : Prop := m.LeadsTo (fun _ _ => False) m'

/-- What happens between calls that keeps a function in its place: a cache is reset, or functions, frames, and
caches are left alone. -/
inductive StepsAside (m : Machine) : Machine → Prop
  | reset (c : CacheId) : StepsAside m (Run.resetCache c m).2
  | other {m' : Machine} (functions : m'.functions = m.functions) (frames : m'.frames = m.frames)
      (caches : m'.caches = m.caches) : StepsAside m m'

/-- A machine goes on to another if calls and such steps lead there. -/
def Onward (m m' : Machine) : Prop := m.LeadsTo StepsAside m'

theorem Calls.advances [Host.IsUncached] (h : m.Calls m') : m.Advances m' :=
  LeadsTo.keeps h (.refl m) (fun m₁ fuel f args so => so.trans (Run.Advancing.call fuel f args m₁))
    fun _ _ step => step.elim

theorem Calls.onward (h : m.Calls m') : m.Onward m' := LeadsTo.mono h fun _ _ step => step.elim

theorem Onward.evolves (h : m.Onward m') : m.Evolves m' := by
  refine LeadsTo.mono h fun m₁ m₂ step => ?_
  cases step with
  | reset c => exact ⟨rfl, rfl⟩
  | other functions frames _ => exact ⟨functions, frames⟩

/-- There are as many caches as before, and a cache in which all keys are the keys of their boxes stays
one. -/
theorem Onward.sane [Host.IsUncached] (h : m.Onward m') {c : CacheId} (inside : c < m.caches.size)
    (sane : (m.cache c).Sane) : c < m'.caches.size ∧ (m'.cache c).Sane := by
  refine LeadsTo.keeps (I := fun m' => c < m'.caches.size ∧ (m'.cache c).Sane) h ⟨inside, sane⟩
    (fun m₁ fuel f args so => ?_) fun m₁ m₂ step so => ?_
  · obtain ⟨there, kept⟩ := so
    have advances : m₁.Advances _ := Run.Advancing.call fuel f args m₁
    exact ⟨by rw [advances.size]; exact there, kept.advances (advances.cache c)⟩
  · obtain ⟨there, kept⟩ := so
    cases step with
    | reset d =>
      have caches : (Run.resetCache d m₁).2.caches = (m₁.setCache d (m₁.cache d).reset).caches := rfl
      refine ⟨by rw [caches]; simpa [setCache] using there, ?_⟩
      rw [cache_congr caches]
      by_cases same : c = d
      · subst same
        rw [cache_setCache_self there]
        exact kept.reset
      · rw [cache_setCache_of_ne same]
        exact kept
    | other _ _ caches =>
      rw [caches, cache_congr caches]
      exact ⟨there, kept⟩

end Machine

/-! ## Results of pure functions -/

/-- What a pure function makes of the result of the function behind it: the result itself, or a new pure
function around it. -/
def Machine.Presents (m : Machine) (v r : Boxed) : Prop :=
  r = v ∨ v.value.isCallable = true ∧ ∃ g, r = ⟨.compiled g, 0⟩ ∧ m.functions[g.id]? = some (.wrapper v)

/-- It always makes something of it, and adds at most a function. -/
theorem Run.wrapResult_eq (f : PureFunction) (v : Boxed) (m : Machine) :
    ∃ r functions, wrapResult f v m = (.value r, { m with functions := functions }) ∧
      ({ m with functions := functions } : Machine).Presents v r := by
  have plain : ∃ r functions, (pure v : Run Boxed) m = (.value r, { m with functions := functions }) ∧
      ({ m with functions := functions } : Machine).Presents v r := ⟨v, m.functions, rfl, .inl rfl⟩
  unfold wrapResult
  cases f.result with
  | func params result =>
    simp only
    split
    next callable => exact ⟨_, _, rfl, .inr ⟨callable, _, rfl, Array.getElem?_push_size⟩⟩
    next => exact plain
  | _ => exact plain

/-- A pure function that returns was granted the nesting of calls that it asks for. -/
theorem Run.nesting_of_call [Host] {f argument r : Boxed} {g : PureFunction} {t : ValueType} {m m' : Machine}
    {fuel : Nat} (compiled : f.value = .compiled g) (params : g.params = [.value t])
    (ended : call fuel f [argument] m = (.value r, m')) :
    m.settings.askNesting = .ok () ∧ ∃ n, fuel = n + 1 := by
  cases fuel with
  | zero => cases ended
  | succ n =>
    refine ⟨?_, n, rfl⟩
    unfold call callBy at ended
    rw [compiled] at ended
    change applyPure _ g [argument] m = _ at ended
    unfold applyPure at ended
    rw [if_pos (by rw [params]; rfl), params] at ended
    obtain ⟨values, m₁, coerced, ended⟩ := value_of_bind ended
    obtain ⟨⟨⟩, m₂, asked, -⟩ := value_of_bind ended
    obtain ⟨b, m₀, first, rest⟩ := value_of_bind coerced
    cases rest
    have same : m₁.settings = m.settings := by
      have kept := (Uncached.coerce (.value t) argument m).2.settings
      rwa [first] at kept
    rw [← same]
    exact (value_of_lift asked).1

/-- Whether a machine has only looked a result up: no event is recorded, one frame is new, which is that of an
entry, and the cache has one hit more. -/
structure Machine.LooksUp (m : Machine) (c : CacheId) (m' : Machine) : Prop where
  journal : m'.journal = m.journal
  frames : m'.frames.frames.size = m.frames.frames.size + 1
  cache : m'.cache c = (m.cache c).counting fun s => { s with hits := s.hits + 1 }

/-! ## Functions that ask a cache -/

/-- A pure function of one integer or truth value around an entry that asks a cache for the function that a
variable is bound to. -/
structure Serving where
  shown : PureFunction
  domain : ValueType
  params : shown.params = [.value domain]
  whole : domain.isFloat = false
  inner : Boxed
  /-- The closure of the entry, its variable, and the frame that it is made in. -/
  entry : Nat
  closure : inner.value = .closure entry
  argument : Parameter
  frame : FrameId
  context : Context
  /-- The variable that is bound to the function that is defined. -/
  bound : Parameter
  apart : argument.uid ≠ bound.uid
  own : Nat
  result : StaticType
  cache : CacheId

namespace Serving

variable {s : Serving} {m m' : Machine}

/-- The function that is defined. -/
def function (s : Serving) : Boxed := ⟨.closure s.own, 0⟩

/-- The body of the entry. -/
def call (s : Serving) : Expr :=
  .cached (.parameter s.bound) (.parameter s.argument) s.result (some s.cache)

/-- All of it is there, and no function can bind the variable to something else. -/
structure In (s : Serving) (m : Machine) : Prop where
  wrapped : m.functions[s.shown.id]? = some (.wrapper s.inner)
  entered : m.functions[s.entry]? = some (.closure [s.argument.uid] s.call s.frame s.context)
  binding : (Binding.mk s.frame s.bound.uid s.function).Holds m
  inside : s.cache < m.caches.size
  sane : (m.cache s.cache).Sane

namespace In

/-- Calls and resets leave it there. -/
theorem onward [Host] [Host.IsApart] [Host.IsUncached] (h : s.In m) (later : m.Onward m') : s.In m' := by
  obtain ⟨grown, binding⟩ := h.binding.evolves later.evolves
  obtain ⟨inside, sane⟩ := later.sane h.inside h.sane
  exact ⟨grown.functions _ _ h.wrapped, grown.functions _ _ h.entered, binding, inside, sane⟩

/-- A call of the entry opens a frame and asks the cache. -/
theorem call_entry [Host] (h : s.In m) (fuel : Nat) (a : Boxed) :
    Run.call (fuel + 1) s.inner [a] m =
      (Run.lookupOrCompute s.cache s.function a (Run.call fuel s.function [a])).sealed
        { m with frames := (m.frames.push (some s.frame) [(s.argument.uid, a)]).2 } := by
  let opened : Machine := { m with frames := (m.frames.push (some s.frame) [(s.argument.uid, a)]).2 }
  have shown := Frames.lookup_push_new h.binding.inside [(s.argument.uid, a)]
  have callee : Run.lookup m.frames.frames.size s.bound opened = (.value s.function, opened) := by
    have found := shown s.bound.uid
    rw [h.binding.lookup h.binding.seen] at found
    simp only [Frame.ofBindings, List.foldl_cons, List.foldl_nil, Frame.get?_set,
      if_neg s.apart.symm] at found
    exact Run.lookup_of_some found
  have argument : Run.lookup m.frames.frames.size s.argument opened = (.value a, opened) := by
    have found := shown s.argument.uid
    simp only [Frame.ofBindings, List.foldl_cons, List.foldl_nil, Frame.get?_set, if_true,
      Option.some_or] at found
    exact Run.lookup_of_some found
  have body : s.call.eval ⟨Run.call fuel, Run.applyUnary⟩ fuel s.context m.frames.frames.size opened =
      Run.lookupOrCompute s.cache s.function a (Run.call fuel s.function [a]) opened :=
    (Run.bind_of_value callee).trans (Run.bind_of_value argument)
  rw [Run.call_closure s.closure h.entered]
  exact Run.sealed_congr body

end In

/-- What the cache holds for the value of an argument. -/
def Keeps (s : Serving) (m : Machine) (a : Value) (stored : Boxed) : Prop :=
  ∀ identity, (m.cache s.cache).heldIn (m.cache s.cache).current s.function ⟨a, identity⟩ = .ok (some stored)

/-- Calls do not change that. -/
theorem Keeps.calls [Host] [Host.IsUncached] {a : Value} {stored : Boxed} (h : s.Keeps m a stored)
    (later : m.Calls m') :
    s.Keeps m' a stored := by
  intro identity
  have advances := later.advances.cache s.cache
  rw [advances.current]
  exact advances.heldIn (h identity)

/-- The function and the arguments are not absent. -/
theorem present (s : Serving) {a : Boxed} (typed : a.value.hasType s.domain = true) :
    MemoCache.isAbsent s.function = false ∧ MemoCache.isAbsent a = false := by
  obtain ⟨number, shape, -⟩ := Value.hasType_iff.1 typed
  unfold MemoCache.isAbsent
  rw [shape]
  exact ⟨rfl, rfl⟩

namespace In

variable {f argument r : Boxed}

/-- A call of the entry that returns has its result kept. -/
theorem keeps_of_entry [Host] [Host.IsUncached] (h : s.In m)
    (typed : argument.value.hasType s.domain = true) {fuel : Nat}
    (ended : Run.call fuel s.inner [argument] m = (.value r, m')) : s.Keeps m' argument.value r := by
  cases fuel with
  | zero => cases ended
  | succ n =>
    let opened : Machine :=
      { m with frames := (m.frames.push (some s.frame) [(s.argument.uid, argument)]).2 }
    let compute := Run.call n s.function [argument]
    obtain ⟨some_function, some_argument⟩ := s.present typed
    have computes : Run.Advancing compute := Run.Advancing.call n _ _
    rw [h.call_entry n argument] at ended
    have looked : Run.lookupOrCompute s.cache s.function argument compute opened = (.value r, m') :=
      Run.value_of_sealed ended
    have held := Run.held_of_lookupOrCompute (m := opened) h.inside h.sane some_function some_argument
      computes looked
    have advances : opened.Advances m' := by
      have moved : opened.Advances (Run.lookupOrCompute s.cache s.function argument compute opened).2 :=
        Run.Advancing.lookupOrCompute computes opened
      rwa [looked] at moved
    have sane : (m'.cache s.cache).Sane := h.sane.advances (advances.cache s.cache)
    -- the argument is kept for every box of it
    obtain ⟨number, shape, ofType⟩ := Value.hasType_iff.1 typed
    have whole : number.type.isFloat = false := by
      rw [ofType]
      exact s.whole
    intro identity
    rw [(advances.cache s.cache).current,
      sane.heldIn_congr whole _ ⟨argument.value, identity⟩ argument shape shape]
    exact held

/-- An application that returns has its result kept. -/
theorem keeps [Host] [Host.IsApart] [Host.IsUncached] (h : s.In m) (compiled : f.value = .compiled s.shown)
    {fuel : Nat} (ended : Run.call fuel f [argument] m = (.value r, m')) :
    ∃ a stored, s.domain.coerce argument.value = .ok a ∧ s.Keeps m' a stored ∧ m'.Presents stored r := by
  obtain ⟨nesting, n, rfl⟩ := Run.nesting_of_call compiled s.params ended
  rcases Run.call_wrapper compiled s.params h.wrapped nesting n argument with
    ⟨e, -, failed⟩ | ⟨b, identity, coerced, inside⟩
  · rw [failed] at ended
    cases ended
  · rw [inside] at ended
    obtain ⟨stored, m₁, called, ended⟩ := Run.value_of_bind ended
    obtain ⟨shown, m₂, read, wrapped⟩ := Run.value_of_bind ended
    cases read
    have boxed : s.In { m with nextIdentity := identity } := h.onward (.other .start (.other rfl rfl rfl))
    have kept := boxed.keeps_of_entry (ValueType.coerce_hasType coerced) called
    obtain ⟨r', functions, wraps, presents⟩ := Run.wrapResult_eq (m₁.current s.shown) stored m₁
    cases wraps.symm.trans wrapped
    exact ⟨b.value, stored, coerced, kept, presents⟩

/-- An application to an argument for which a result is kept returns it, and does nothing else. -/
theorem repeats [Host] [Host.IsApart] [Host.IsUncached] (h : s.In m) (compiled : f.value = .compiled s.shown)
    (nesting : m.settings.askNesting = .ok ()) {a : Value} {stored : Boxed} (kept : s.Keeps m a stored)
    (coerced : s.domain.coerce argument.value = .ok a) (fuel : Nat) :
    ∃ r m', Run.call (fuel + 2) f [argument] m = (.value r, m') ∧ m'.Presents stored r ∧
      m.LooksUp s.cache m' := by
  -- coercion may box the argument anew, which is all that happens before the entry is called
  rcases Run.call_wrapper compiled s.params h.wrapped nesting (fuel + 1) argument with
    ⟨e, refused, -⟩ | ⟨b, identity, coerced', inside⟩
  · rw [coerced] at refused
    cases refused
  obtain rfl : a = b.value := Except.ok.inj (coerced.symm.trans coerced')
  obtain ⟨some_function, some_argument⟩ := s.present (ValueType.coerce_hasType coerced)
  let opened : Machine :=
    { m with nextIdentity := identity, frames := (m.frames.push (some s.frame) [(s.argument.uid, b)]).2 }
  let looked := opened.setCache s.cache
    ((m.cache s.cache).counting fun n => { n with hits := n.hits + 1 })
  have boxed : s.In { m with nextIdentity := identity } := h.onward (.other .start (.other rfl rfl rfl))
  have called : Run.call (fuel + 1) s.inner [b] { m with nextIdentity := identity } =
      (.value stored, looked) := by
    rw [boxed.call_entry fuel b]
    exact Run.sealed_of_value (Run.lookupOrCompute_of_held (m := opened) some_function some_argument
      (kept b.identity))
  obtain ⟨r, functions, wraps, presents⟩ := Run.wrapResult_eq (looked.current s.shown) stored looked
  refine ⟨r, _, inside.trans ((Run.bind_of_value called).trans wraps), presents, rfl, ?_, ?_⟩
  · exact Array.size_push _
  · show looked.cache s.cache = _
    rw [Machine.cache_setCache_self (show s.cache < opened.caches.size from h.inside)]

end In

end Serving

/-! ## Built functions -/

/-- The variable of a definition is one of its variables. -/
theorem Definition.Has.mem_vars {d : Definition} {x : Parameter} {body : Expr} (h : d.Has x body) :
    x ∈ d.function.vars := by
  rw [h.function]
  exact Expr.mem_vars_iff.2 (.inl (Expr.mem_nodes_of_part List.mem_cons_self (Expr.mem_nodes_self _)))

/-- What is built with a cache of a definition of a function of an integer or a truth value that does not
assign to its own name asks the cache. -/
theorem Built.serving [Host] {e : Expr} (built : Built e) {d : Definition}
    (accepted : Definition.ofExpr e = .ok d) (spared : d.function.Spares (· = d.self)) {t : ValueType}
    (params : d.params = [.value t]) (whole : t.isFloat = false) {m m' : Machine} (placed : m.Placed)
    (fresh : ∀ y ∈ e.vars, y.uid ≠ m.nextUid) {cache : Option CacheId}
    (inside : cache.getD Machine.defaultCache < m.caches.size)
    (sane : (m.cache (cache.getD Machine.defaultCache)).Sane) {fuel : Nat} {threading : Bool}
    {pool : Option PoolId} {c : Compilation}
    (ended : Run.build fuel e true threading cache pool m = (.value c, m')) :
    ∃ s : Serving, s.domain = t ∧ s.cache = cache.getD Machine.defaultCache ∧
      c.function.value = .compiled s.shown ∧ s.In m' := by
  obtain ⟨shape, x, body, h⟩ := Definition.has_of_ofExpr built accepted
  have within := Definition.nodes_function shape
  have occurs := Expr.mem_vars_of_nodes within
  obtain ⟨compilation, before, compiled, rfl, rfl⟩ := Run.compile_of_build accepted ended
  obtain ⟨holds, b, context, -, entry, same⟩ :=
    h.compile_holds spared (fun y inside => built.wellTyped y (within y inside)) placed
      (fun y inside => fresh y (occurs y inside)) compiled
  obtain ⟨k, log, -, machine, -⟩ := h.compile_value compiled
  have caches : before.caches = m.caches := by rw [machine]; rfl
  have wrapped := holds.addFunction (c := .wrapper compilation.function) trivial
  have added := Machine.Extends.addFunction before (.wrapper compilation.function)
  -- the function is made first, the entry after it, and the pure function around the entry last
  let s : Serving := {
    shown := ⟨before.functions.size, d.self.name, d.params, d.result, true, threading⟩
    domain := t, params := params, whole := whole
    inner := compilation.function, entry := m.functions.size + 1
    closure := by rw [same]
    argument := x, frame := m.frames.frames.size + 1, context := context, bound := d.bound m
    apart := fresh x (occurs x h.mem_vars)
    own := m.functions.size, result := d.result, cache := cache.getD Machine.defaultCache }
  have call : d.entry ⟨true, threading, true, some (cache.getD Machine.defaultCache), pool⟩ (d.bound m) =
      s.call := by
    unfold Definition.entry Serving.call
    rw [h.argument]
    rfl
  refine ⟨s, rfl, rfl, rfl, Array.getElem?_push_size, ?_, wrapped, ?_, ?_⟩
  · rw [← call]
    exact added.functions _ _ entry
  · show _ < before.caches.size
    rw [caches]
    exact inside
  · have same : ({ before with functions := before.functions.push (.wrapper compilation.function) } :
        Machine).cache s.cache = m.cache s.cache := Machine.cache_congr caches _
    rw [same]
    exact sane

/-- The method of a function that applies it to one argument after another. -/
def Boxed.fi (f : Boxed) : Boxed := ⟨.method f.value f.identity .bound "fi", 0⟩

theorem Run.call_fi [Host] {f : Boxed} {g : PureFunction} (compiled : f.value = .compiled g) (fuel : Nat)
    (args : List Boxed) : call (fuel + 1) f.fi args = applyCurried fuel f args := by
  show applyMethod (call fuel) f "fi" args = _
  unfold applyMethod
  rw [compiled]
  rfl

/-- A repeated application is answered from the cache. If a function that is built with a cache, of one or
more integers and truth values and with a body of any kind, has returned for some arguments, then after any
calls its application to the same first argument returns what is kept for it, and only looks that up. So
with one argument the repeated application returns the kept result, and with more it goes on with the
function that is kept. -/
theorem Built.application_repeats [Host] [Host.IsApart] [Host.IsUncached] {e : Expr} (built : Built e)
    {d : Definition} (accepted : Definition.ofExpr e = .ok d) (spared : d.function.Spares (· = d.self))
    {t : ValueType} (params : d.params = [.value t]) (whole : t.isFloat = false) {m m' : Machine}
    (placed : m.Placed) (fresh : ∀ y ∈ e.vars, y.uid ≠ m.nextUid) {cache : Option CacheId}
    (inside : cache.getD Machine.defaultCache < m.caches.size)
    (sane : (m.cache (cache.getD Machine.defaultCache)).Sane) {fuel : Nat} {threading : Bool}
    {pool : Option PoolId} {c : Compilation}
    (ended : Run.build fuel e true threading cache pool m = (.value c, m')) {before after : Machine}
    (reached : m'.Onward before) {n : Nat} {a r : Boxed} {rest : List Boxed}
    (applied : Run.call n c.function.fi (a :: rest) before = (.value r, after)) :
    ∃ stored, (rest = [] → after.Presents stored r) ∧
      ∀ later, after.Calls later → ∀ again : Boxed, t.coerce again.value = t.coerce a.value →
        ∀ k, ∃ v last, last.Presents stored v ∧
          later.LooksUp (cache.getD Machine.defaultCache) last ∧
          ∀ more, Run.call (k + 3) c.function.fi (again :: more) later =
            Run.applyCurried (k + 2) v more last := by
  obtain ⟨s, rfl, cached, compiled, start⟩ :=
    built.serving accepted spared params whole placed fresh inside sane ended
  rw [← cached]
  have ready := start.onward reached
  cases n with
  | zero => cases applied
  | succ n =>
    rw [Run.call_fi compiled] at applied
    obtain ⟨first, m₁, called, others⟩ := Run.value_of_bind applied
    obtain ⟨nesting, -⟩ := Run.nesting_of_call compiled s.params called
    -- only the first call passes through the cache; the others may call whatever it gives
    obtain ⟨b, stored, coerced, kept, presents⟩ := ready.keeps compiled called
    have step : before.Calls m₁ := by
      have called' : before.Calls _ := .call .start n c.function [a]
      rwa [called] at called'
    have further : m₁.Calls after := by
      have chain : m₁.Calls _ := Machine.LeadsTo.callChain .start n first (rest.map fun b => [b])
      have ended : Run.callChain n first (rest.map fun b => [b]) m₁ = (.value r, after) := others
      rwa [ended] at chain
    refine ⟨stored, ?_, fun later calls again same k => ?_⟩
    · rintro rfl
      cases others
      exact presents
    -- nothing between the two applications changes the entry or drops what is kept
    · have reachedLater := step.onward.trans (further.onward.trans calls.onward)
      have nesting' : later.settings.askNesting = .ok () := by
        rw [calls.advances.settings, further.advances.settings, step.advances.settings]
        exact nesting
      obtain ⟨v, last, repeated, presents', looks⟩ := (ready.onward reachedLater).repeats compiled nesting'
        ((kept.calls further).calls calls) (same.trans coerced) k
      refine ⟨v, last, presents', looks, fun more => ?_⟩
      rw [Run.call_fi compiled]
      exact Run.bind_of_value repeated

/-- A body that reports some variables, and then ends in an expression. -/
def reporting (shown : List Parameter) (last : Expr) : Expr :=
  .block [] [.hostCall ⟨some "trace", .report⟩ (shown.map Expr.parameter) .void, last] (.value .int32)

theorem built_reporting (shown : List Parameter) {last : Expr} (built : Built last) :
    Built (reporting shown last) := by
  have report : Built (.hostCall ⟨some "trace", .report⟩ (shown.map Expr.parameter) .void) := by
    refine .hostCall _ (fun a inside => ?_) _
    obtain ⟨x, -, rfl⟩ := List.mem_map.1 inside
    exact .parameter x
  exact .block [] (List.forall_mem_cons.2 ⟨report, List.forall_mem_singleton.2 built⟩) (some (.value .int32))

/-- A number in a box. -/
def boxedWord (n : Int) : Boxed := ⟨.scalar (.wrapped ⟨true, .w32⟩ n), 0⟩

/-- The function that reports its argument and returns it reports it once. -/
theorem Built.application_repeats_reporting :
    ∃ c m r after stored,
      Run.build 1 (defining (reporting [Recursive.argument] (.parameter Recursive.argument))) true false
        none none Recursive.machine = (.value c, m) ∧
      Run.call 5 c.function.fi [boxedWord 7] m = (.value r, after) ∧ after.Presents stored r ∧
      ∀ later, after.Calls later → ∃ v last,
        Run.call 3 c.function.fi [boxedWord 7] later = (.value v, last) ∧ last.Presents stored v ∧
          later.LooksUp 0 last := by
  let body := reporting [Recursive.argument] (.parameter Recursive.argument)
  have built : Built (defining body) := built_defining (built_reporting _ (.parameter _)) rfl
  obtain ⟨r, after, both⟩ := Run.value_of_isValue (m := Recursive.machine) (x := do
    let c ← Run.build 1 (defining body) true false none none
    Run.call 5 c.function.fi [boxedWord 7]) (by decide +kernel)
  obtain ⟨c, m, ended, applied⟩ := Run.value_of_bind both
  have spared : (Expr.lambda [.parameter Recursive.argument] body Recursive.self.type).Spares
      (· = Recursive.self) := by
    have leaf : (Expr.parameter Recursive.argument).Spares (· = Recursive.self) :=
      .node (by rintro z ⟨⟩) (List.forall_mem_nil _)
    have report : (Expr.hostCall ⟨some "trace", .report⟩ [.parameter Recursive.argument] .void).Spares
        (· = Recursive.self) := .node (by rintro z ⟨⟩) (List.forall_mem_singleton.2 leaf)
    have block : body.Spares (· = Recursive.self) := .node (by rintro z ⟨⟩)
      (List.forall_mem_cons.2 ⟨report, List.forall_mem_singleton.2 leaf⟩)
    exact .node (by rintro z ⟨⟩) (List.forall_mem_singleton.2 block)
  have inside : (none : Option CacheId).getD Machine.defaultCache < Recursive.machine.caches.size :=
    Nat.one_pos
  obtain ⟨stored, presents, again⟩ := built.application_repeats rfl spared (t := .int32) rfl rfl
    (m := Recursive.machine) (fun ps b frame context inside => absurd inside (Array.not_mem_empty _))
    (by simp [Expr.vars, defining, body, reporting, Recursive.self, Recursive.argument,
      Recursive.machine, Expr.nodes_eq, Expr.parts, Expr.children])
    inside .empty ended .start applied
  refine ⟨c, m, r, after, stored, ended, applied, presents rfl, fun later calls => ?_⟩
  obtain ⟨v, last, presents', looks, repeated⟩ := again later calls (boxedWord 7) rfl 0
  exact ⟨v, last, repeated [], presents', looks⟩

/-! ## Functions of several arguments -/

/-- A function of two numbers that reports them and adds them. -/
def reportingSum : Expr :=
  let y : Parameter := ⟨"y", .value .int32, 3⟩
  let sum : Expr := .binary .add (.parameter Recursive.argument) (.parameter y) (.value .int32)
  let curried : StaticType := .func [.value .int32] (.func [.value .int32] (.value .int32))
  .lambda [.parameter ⟨"f", curried, 1⟩]
    (.lambda [.parameter Recursive.argument]
      (.lambda [.parameter y] (reporting [Recursive.argument, y] sum) Recursive.self.type) curried)
    (.func [curried] curried)

theorem built_reportingSum : Built reportingSum := by
  let y : Parameter := ⟨"y", .value .int32, 3⟩
  have sum : Built (.binary .add (.parameter Recursive.argument) (.parameter y) (.value .int32)) :=
    @Built.binary .add _ _ _ (.parameter Recursive.argument) (.parameter y) rfl
  have inner : Built (.lambda [.parameter y] (reporting [Recursive.argument, y]
      (.binary .add (.parameter Recursive.argument) (.parameter y) (.value .int32))) Recursive.self.type) :=
    .lambda (built_reporting _ sum) (Build.lambda_eq_ok.2 ⟨rfl, by simp⟩)
  have outer : Build.lambda [.parameter Recursive.argument] (.lambda [.parameter y]
      (reporting [Recursive.argument, y]
        (.binary .add (.parameter Recursive.argument) (.parameter y) (.value .int32)))
      Recursive.self.type) = .ok _ :=
    Build.lambda_eq_ok.2 ⟨rfl, by simp⟩
  exact .lambda (.lambda inner outer) (Build.lambda_eq_ok.2 ⟨rfl, by simp⟩)

/-- The lengths of the journal after each of two applications to the same arguments, if both return. -/
def journalsOfTwo (e : Expr) (args : List Boxed) : Option (Nat × Nat) :=
  match Run.build 1 e true false none none Recursive.machine with
  | (.value c, m) =>
    match Run.call 5 c.function.fi args m with
    | (.value _, after) =>
      match Run.call 5 c.function.fi args after with
      | (.value _, last) => some (after.journal.size, last.journal.size)
      | _ => none
    | _ => none
  | _ => none

/-- A repeated application to two arguments evaluates the innermost body again, which reports once more. -/
theorem report_again : Built reportingSum ∧ ∃ c m r after r' last,
    Run.build 1 reportingSum true false none none Recursive.machine = (.value c, m) ∧
      Run.call 5 c.function.fi [boxedWord 1, boxedWord 2] m = (.value r, after) ∧
      Run.call 5 c.function.fi [boxedWord 1, boxedWord 2] after = (.value r', last) ∧
      after.journal.size = 1 ∧ last.journal.size = 2 := by
  refine ⟨built_reportingSum, ?_⟩
  have checked : journalsOfTwo reportingSum [boxedWord 1, boxedWord 2] = some (1, 2) := by decide +kernel
  unfold journalsOfTwo at checked
  split at checked
  next c m ended =>
    split at checked
    next r after applied =>
      split at checked
      next r' last again =>
        obtain ⟨first, second⟩ := Prod.mk.inj (Option.some.inj checked)
        exact ⟨c, m, r, after, r', last, ended, applied, again, first, second⟩
      next => cases checked
    next => cases checked
  next => cases checked

end Knot
