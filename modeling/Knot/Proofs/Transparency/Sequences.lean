import Knot.Proofs.Binding.Calls
import Knot.Proofs.Transparency.Builds
import Knot.Proofs.Transparency.Requests

/-!
# Sequences of calls with and without caching

What is built of a self-contained definition with a cache answers a sequence of requests as it does without
one, as long as no two arguments are confused (`Built.cached_answers_alike`). Both follow the same courses.
Without caching the requests end, and what they have given to functions is found in the frames of the machine;
so the courses are known to end with arguments that a cache can tell apart, and with caching they are followed
as well.
-/

namespace Knot

/-- Integers and truth values of one type are told apart by a cache. -/
theorem Value.discerned_of_hasType {v w : Value} {t : ValueType} (whole : t.isFloat = false)
    (left : v.hasType t = true) (right : w.hasType t = true) : v.Discerned w := by
  obtain ⟨a, rfl, -⟩ := Value.hasType_iff.1 left
  obtain ⟨b, rfl, -⟩ := Value.hasType_iff.1 right
  exact ⟨_, _, rfl, rfl, fun i j => Key.agrees_of_hasType whole left right⟩

/-! ## Pools -/

/-- Whether the pool that is named, or the default pool once there is one, counts slots. -/
structure Machine.CountsSlots (m : Machine) (pool : Option PoolId) : Prop where
  made : ∀ p, pool.or m.defaultPool = some p → p < m.pools.size ∧ (m.pool p).Whole
  unmade : pool.or m.defaultPool = none → ∃ n : Int, m.poolSize .none = .int n

namespace Regime

variable {r : Regime} {slots : Int} {m : Machine}

/-- The slots that such a pool offers. -/
theorem exists_offers {pool : Option PoolId} (counts : m.CountsSlots pool) :
    ∃ slots workers : Int, ∀ r : Regime, r.workers = workers → r.context.pool = pool → r.Offers slots m := by
  cases named : pool.or m.defaultPool with
  | none =>
    obtain ⟨n, size⟩ := counts.unmade named
    refine ⟨n, n, fun r workers own => ⟨fun p impossible => ?_, fun _ => ?_⟩⟩
    · rw [own, named] at impossible
      cases impossible
    · rw [workers]
      exact ⟨size, rfl⟩
  | some p =>
    obtain ⟨inside, slots, k, free, size, fits⟩ := counts.made p named
    refine ⟨slots, k, fun r workers own => ⟨fun q other => ?_, fun impossible => ?_⟩⟩
    · rw [own, named] at other
      cases other
      exact ⟨inside, free, by rw [workers]; exact size, by rw [workers]; exact fits⟩
    · rw [own, named] at impossible
      cases impossible

/-! ## Builds -/

/-- Where a definition has been built, courses can be followed, and its entry is seen from outside. -/
theorem Holds.of_build [Host] {e : Expr} {d : Definition} (accepted : Definition.ofExpr e = .ok d)
    {x : Parameter} {body : Expr} (h : d.Has x body) (ordinary : body.Ordinary)
    (contained : body.SelfContained) {caching threading : Bool} {cache : Option CacheId}
    {pool : Option PoolId} {fuel : Nat} {m' : Machine} {c : Compilation}
    (ended : Run.build fuel e caching threading cache pool m = (.value c, m')) {o : CompileOptions}
    (options : o = ⟨caching, threading, true,
      if caching then some (cache.getD Machine.defaultCache) else cache, pool⟩) (own : r.Of o)
    {b : Expr} (recursion : r.recursion = ⟨m.nextUid, x.uid, b⟩)
    (same : ∀ b', c.tree = d.program (d.bound m) b' (d.entry o (d.bound m)) → b'.uncached = b)
    {entry : Expr} (plain : (d.entry o (d.bound m)).uncached = entry)
    (since : r.since ≤ m.frames.frames.size + 2) (owned : r.caching = true → m.OwnsCache r.cache)
    (offers : r.threading = true → r.Offers slots m) :
    r.Holds (r.compiled m.functions.size entry) slots m' ∧
      Outside (r.compiled m.functions.size entry) m' c.function
        (.wrapped d.params d.result (.function [r.recursion.argument] entry r.recursion.scope)) := by
  obtain ⟨compilation, before, compiled, rfl, rfl⟩ := Run.compile_of_build accepted ended
  subst options plain
  obtain ⟨holds, function⟩ :=
    Holds.of_compile h ordinary contained own compiled recursion same since owned offers
  have retains := Machine.Retains.addFunction before (.wrapper compilation.function)
  refine ⟨holds.later retains rfl rfl rfl, ?_⟩
  refine .wrapped (g := ⟨before.functions.size, d.self.name, d.params, d.result, caching, threading⟩) rfl
    Array.getElem?_push_size ?_
  rw [function]
  refine .closure ?_ rfl
  unfold Regime.compiled
  rw [if_neg (Nat.succ_ne_self _), if_pos rfl]

end Regime

/-- Machines after a build have two more frames, and the settings as they were. -/
theorem Run.machine_of_build [Host] {e : Expr} {d : Definition} (accepted : Definition.ofExpr e = .ok d)
    {x : Parameter} {body : Expr} (h : d.Has x body) {caching threading : Bool} {cache : Option CacheId}
    {pool : Option PoolId} {fuel : Nat} {m m' : Machine} {c : Compilation}
    (ended : Run.build fuel e caching threading cache pool m = (.value c, m')) :
    m'.settings = m.settings ∧ m'.frames.frames.size = m.frames.frames.size + 2 := by
  obtain ⟨compilation, before, compiled, -, rfl⟩ := Run.compile_of_build accepted ended
  obtain ⟨k, log, -, machine, -⟩ := h.compile_value compiled
  rw [machine]
  exact ⟨rfl, by simp [Machine.compiled, Frames.set, Frames.push]⟩

/-- Caching does not change an answer, as long as no two arguments are confused. Let a self-contained
definition be built with and without a cache, and let all of a sequence of requests end without one. If then
no variable that is alone in its frame has been given two values that are one key, or one that is none, the
requests end alike with the cache, which may be in use already: in the same values, in functions or in
faults. -/
theorem Built.cached_answers_alike [Host] [Host.IsQuiet] {e : Expr} (built : Built e)
    (contained : e.SelfContained) {d : Definition}
    (accepted : Definition.ofExpr e = .ok d) {m : Machine} {cache cache' : Option CacheId}
    (owned : m.OwnsCache (cache.getD Machine.defaultCache)) {threading : Bool} {pool : Option PoolId}
    (counts : threading = true → m.CountsSlots pool) {fuel fuel' : Nat} {c c' : Compilation}
    {cached plain : Machine} (left : Run.build fuel e true threading cache pool m = (.value c, cached))
    (right : Run.build fuel' e false threading cache' pool m = (.value c', plain)) {qs : List Request}
    (inert : ∀ q ∈ qs, q.Inert)
    (ended : ∀ out ∈ (Run.serve c'.function qs plain).1, out ≠ .exhausted)
    (discerned : ∀ p v w, (Run.serve c'.function qs plain).2.Gave plain.frames.frames.size (p, v) →
      (Run.serve c'.function qs plain).2.Gave plain.frames.frames.size (p, w) → v.Discerned w) :
    List.Forall₂ Outcome.Resembles (Run.serve c.function qs cached).1 (Run.serve c'.function qs plain).1 := by
  obtain ⟨shape, x, body, h⟩ := Definition.has_of_ofExpr built accepted
  have within : ∀ y ∈ body.nodes, y ∈ e.nodes := fun y inside => by
    refine Definition.nodes_function shape y ?_
    rw [h.function]
    exact Expr.mem_nodes_of_part (List.mem_append_right _ List.mem_cons_self) inside
  have ordinary : body.Ordinary := fun y inside => built.ordinary y (within y inside)
  have contained' : body.SelfContained := fun y inside => contained y (within y inside)
  -- the two bodies are the same but for the marks of cached calls
  let o : CompileOptions := ⟨true, threading, true, some (cache.getD Machine.defaultCache), pool⟩
  let o' : CompileOptions := ⟨false, threading, true, cache', pool⟩
  obtain ⟨compilation, before, compiled, rfl, -⟩ := Run.compile_of_build accepted left
  obtain ⟨compilation', before', compiled', rfl, -⟩ := Run.compile_of_build accepted right
  have plainly : Definition.PlainOptions o o' := ⟨rfl, rfl, rfl⟩
  obtain ⟨b, same, same'⟩ := h.exists_body plainly ordinary compiled compiled'
  have entry : (d.entry o (d.bound m)).uncached = d.entry o' (d.bound m) := h.uncached_entry plainly _
  have entry' : (d.entry o' (d.bound m)).uncached = d.entry o' (d.bound m) :=
    h.uncached_entry ⟨rfl, rfl, rfl⟩ _
  obtain ⟨settings, -⟩ := Run.machine_of_build accepted h left
  obtain ⟨settings', size⟩ := Run.machine_of_build accepted h right
  have offered : ∃ slots workers : Int, ∀ r : Regime, r.threading = threading → r.workers = workers →
      r.context.pool = pool → r.threading = true → r.Offers slots m := by
    cases threading with
    | false => exact ⟨0, 0, fun r off _ _ on => by rw [off] at on; cases on⟩
    | true =>
      obtain ⟨slots, workers, offers⟩ := Regime.exists_offers (counts rfl)
      exact ⟨slots, workers, fun r _ size own _ => offers r size own⟩
  obtain ⟨slots, workers, offers⟩ := offered
  let recursion : Recursion := ⟨m.nextUid, x.uid, b⟩
  let without := Regime.ofOptions o' workers recursion plain.frames.frames.size Set.univ nofun
  let caching := Regime.ofOptions o workers recursion plain.frames.frames.size
    { b | (Run.serve _ qs plain).2.Gave plain.frames.frames.size b } fun _ => discerned
  obtain ⟨holds', outside'⟩ := Regime.Holds.of_build (r := without) accepted h ordinary contained' right
    rfl ⟨id, id, rfl, rfl⟩ rfl same' entry'
    (Nat.le_of_eq size) nofun (offers without rfl rfl rfl)
  obtain ⟨holds, outside⟩ := Regime.Holds.of_build (r := caching) accepted h ordinary contained' left
    rfl ⟨id, id, rfl, rfl⟩ rfl same entry
    (Nat.le_of_eq size) (fun _ => owned) (offers caching rfl rfl rfl)
  obtain ⟨-, settled'⟩ := Regime.settles_serve inert (congrArg Settings.askNesting settings') holds' outside'
    (.inr ⟨rfl, ended⟩)
  -- The run without a cache says what is given to functions, and so which keys the cache can meet.
  have known := Regime.Settles.given settled' rfl
  obtain ⟨-, settled⟩ := Regime.settles_serve inert (congrArg Settings.askNesting settings) holds outside
    (.inl known)
  have one : without.recursion = caching.recursion := rfl
  exact Regime.Settles.resemble one settled settled'

/-! ## A function that calls a closure -/

/-- `n ≤ 0 ? n : (k => k + f(n - 1))(n)`, the sum of the numbers up to `n`. -/
def sumByClosure : Expr :=
  let n := Expr.parameter Recursive.argument
  let k := Expr.parameter ⟨"k", .value .int32, 3⟩
  let rest : Expr :=
    .invoke (.parameter Recursive.self) [.binary .subtract n (Fibonacci.number 1) (.value .int32)]
      (.value .int32)
  .conditional (.binary .lessThanOrEqual n (Fibonacci.number 0) .bool) n
    (.invoke (.lambda [k] (.binary .add k rest (.value .int32)) Recursive.self.type) [n] (.value .int32))
    (.value .int32)

theorem built_sumByClosure : Built sumByClosure := by
  have number (n : Int) : Built (Fibonacci.number n) := @Built.constant ⟨Fibonacci.word n, 0⟩ none _ rfl
  have n : Built (.parameter Recursive.argument) := .parameter _
  have less := @Built.binary .subtract _ _ _ n (number 1) rfl
  have rest := @Built.invoke (.parameter Recursive.self) _ _ (.parameter _)
    (List.forall_mem_singleton.2 less) rfl
  have sum := @Built.binary .add (.parameter ⟨"k", .value .int32, 3⟩) _ _ (.parameter _) rest rfl
  have closure := @Built.lambda [.parameter ⟨"k", .value .int32, 3⟩] _ _ sum
    (Build.lambda_eq_ok.2 ⟨rfl, by simp⟩)
  have call := @Built.invoke _ _ _ closure (List.forall_mem_singleton.2 n) rfl
  exact @Built.condition _ _ _ none _ (@Built.binary .lessThanOrEqual _ _ _ n (number 0) rfl) n call rfl

/-- Whether a machine has given a variable that is alone in its frame only numbers of 32 bits, in the frames
from a number on. -/
def Machine.givesNumbers (m : Machine) (since : Nat) : Bool :=
  (List.range m.frames.frames.size).all fun f => f < since ||
    match (m.frames.get? f).map fun frame => frame.values with
    | some [(_, box)] => box.value.hasType .int32
    | _ => true

theorem Machine.hasType_of_gave {m : Machine} {since u : Nat} {v : Value} (numbers : m.givesNumbers since = true)
    (gave : m.Gave since (u, v)) : v.hasType .int32 = true := by
  obtain ⟨f, new, frame, box, found, values, rfl⟩ := gave
  have checked := List.all_eq_true.1 numbers f (List.mem_range.2 (Frames.lt_size_of_get? found))
  rw [found, Option.map_some, values] at checked
  simpa [Nat.not_lt.2 new] using checked

/-- Whether a definition is built without caching to a function that ends on all requests and meanwhile gives
only numbers of 32 bits to variables. -/
def endsOnNumbers (e : Expr) (qs : List Request) : Bool :=
  match Run.build 1 e false false none none Recursive.machine with
  | (.value c, m) =>
    let served := Run.serve c.function qs m
    served.1.all (fun out => out.isValue) && served.2.givesNumbers m.frames.frames.size
  | _ => false

/-- The sums up to three, to four, and again to three are the same with and without a cache. -/
theorem Built.cached_answers_alike_sums :
    let qs : List Request := [3, 4, 3].map fun n => ⟨20, [[⟨Fibonacci.word n, 0⟩]]⟩
    ∃ c cached c' plain,
      Run.build 1 (defining sumByClosure) true false none none Recursive.machine = (.value c, cached) ∧
      Run.build 1 (defining sumByClosure) false false none none Recursive.machine = (.value c', plain) ∧
      List.Forall₂ Outcome.Resembles (Run.serve c.function qs cached).1 (Run.serve c'.function qs plain).1 := by
  intro qs
  have checked : endsOnNumbers (defining sumByClosure) qs = true := by decide +kernel
  unfold endsOnNumbers at checked
  split at checked
  next c' plain right =>
    obtain ⟨c, cached, left⟩ := Run.value_of_isValue (m := Recursive.machine)
      (x := Run.build 1 (defining sumByClosure) true false none none) (by decide +kernel)
    obtain ⟨ended, numbers⟩ := Bool.and_eq_true_iff.1 checked
    have contained : (defining sumByClosure).SelfContained := by
      simp [Expr.SelfContained, defining, sumByClosure, Fibonacci.number, Fibonacci.word, Expr.nodes_eq,
        Expr.parts, Expr.children, Expr.isSelfContained, Value.isCallable]
    have owned : Recursive.machine.OwnsCache Machine.defaultCache := .empty Nat.one_pos rfl
    refine ⟨c, cached, c', plain, left, right, ?_⟩
    have sequential : false = true → Recursive.machine.CountsSlots none :=
      fun impossible => by cases impossible
    refine (built_defining built_sumByClosure rfl).cached_answers_alike contained rfl owned sequential left right
      ?_ ?_ ?_
    · intro q inside args chained v given
      obtain ⟨n, -, rfl⟩ := List.mem_map.1 inside
      obtain rfl := List.mem_singleton.1 chained
      obtain rfl := List.mem_singleton.1 given
      rfl
    · intro out inside exhausted
      have value := List.all_eq_true.1 ended out inside
      rw [exhausted] at value
      cases value
    · intro p v w first second
      exact Value.discerned_of_hasType rfl (Machine.hasType_of_gave numbers first)
        (Machine.hasType_of_gave numbers second)
  next => cases checked

/-! ## Arguments that are confused -/

/-- The reciprocal of a number. -/
def reciprocal : Expr :=
  let number : StaticType := .value .float64
  let x : Parameter := ⟨"x", number, 2⟩
  let one : Expr := .constant ⟨.scalar (.float .double (.ofInt 1)), 0⟩ number
  .lambda [.parameter ⟨"f", .func [number] number, 1⟩]
    (.lambda [.parameter x] (.binary .divide one (.parameter x) number) (.func [number] number))
    (.func [.func [number] number] (.func [number] number))

/-- A zero with a sign. -/
def signedZero (negative : Bool) : Boxed := ⟨.scalar (.float .double (.zero negative)), 0⟩

/-- The numbers that a sequence of requests to a built definition is answered with. -/
def answersOf (e : Expr) (caching : Bool) (qs : List Request) : List (Option Scalar) :=
  match Run.build 1 e caching false none none Recursive.machine with
  | (.value c, m) => (Run.serve c.function qs m).1.map fun
    | .value ⟨.scalar s, _⟩ => some s
    | _ => none
  | _ => []

/-- Zero and then negative zero, which differ in their sign. -/
def bothZeros : List Request := [⟨20, [[signedZero false]]⟩, ⟨20, [[signedZero true]]⟩]

theorem built_reciprocal : Built reciprocal := by
  have one := @Built.constant ⟨.scalar (.float .double (.ofInt 1)), 0⟩ none _ rfl
  have quotient := @Built.binary .divide _ _ _ one (.parameter ⟨"x", .value .float64, 2⟩) rfl
  have function := @Built.lambda [.parameter ⟨"x", .value .float64, 2⟩] _ _ quotient
    (Build.lambda_eq_ok.2 ⟨rfl, by simp⟩)
  exact .lambda function (Build.lambda_eq_ok.2 ⟨rfl, by simp⟩)

/-- With a cache the reciprocal of negative zero is answered by that of zero, since the two zeros are one key.
They differ, and so do their reciprocals. -/
theorem cached_answers_of_zeros : Built reciprocal ∧ reciprocal.SelfContained ∧
    (signedZero true).value ≠ (signedZero false).value ∧
    answersOf reciprocal true bothZeros =
      [some (.float .double (.infinite false)), some (.float .double (.infinite false))] ∧
    answersOf reciprocal false bothZeros =
      [some (.float .double (.infinite false)), some (.float .double (.infinite true))] := by
  refine ⟨built_reciprocal, ?_, ?_, ?_, ?_⟩
  · simp [Expr.SelfContained, reciprocal, Expr.nodes_eq, Expr.parts, Expr.children, Expr.isSelfContained,
      Value.isCallable]
  · exact fun same => absurd (Value.scalar.inj same) (by decide)
  · decide +kernel
  · decide +kernel

end Knot
