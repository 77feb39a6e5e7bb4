import Knot.Expr
import Knot.Frames
import Knot.Memo
import Knot.Pool
import Knot.Settings
import Knot.Value.Text

/-!
# The state of an evaluation

Everything that evaluating may read or change: the frames of variables, the functions and
objects made so far, the memo caches and worker pools, the settings, and two journals, one of
what host functions report and one of log messages. Functions, objects, caches and pools are
known by their places in the tables of the machine, and tables only grow.
-/

namespace Knot

/-- The cache and the pool for the marked nodes of a tree that name none themselves. -/
structure Context where
  cache : Option CacheId
  pool : Option PoolId
deriving DecidableEq, Repr

/-- Neither a cache nor a pool of its own. -/
def Context.empty : Context := ⟨none, none⟩

/-- What a function value does when it is called. -/
inductive Callable where
  /-- Evaluates a body in a new frame that binds the parameters. -/
  | closure (parameters : List Nat) (body : Expr) (frame : FrameId) (context : Context)
  /-- Collects one argument after another, until `missing` more have come. -/
  | collector (collected : List Boxed) (missing : Nat)
  /-- Returns a value that has been computed before. -/
  | thunk (result : Boxed)
  /-- Calls another function on coerced arguments. -/
  | wrapper (inner : Boxed)

/-- The answer to a request to a cache. -/
inductive CacheReply where
  | value (result : Boxed)
  | truth (b : Bool)
  | done

/-- What a journal records. -/
inductive Event where
  /-- A host function reported its arguments. -/
  | reported (arguments : List Boxed)
  /-- A request that was made while a result was being computed was answered. -/
  | replied (answer : Except Fault CacheReply)

/-- The state of an evaluation. -/
structure Machine where
  frames : Frames
  functions : Array Callable
  objects : Array (List (String × Boxed))
  /-- What functions were given by assignment. -/
  attributes : List ((Boxed × String) × Boxed)
  caches : Array MemoCache
  pools : Array WorkerPool
  settings : Settings
  /-- The number of processors. -/
  processors : Nat
  defaultPool : Option PoolId
  journal : Array Event
  log : Array String
  /-- The identity of the next box. -/
  nextIdentity : Nat
  /-- The number of the next variable or label. -/
  nextUid : Nat

namespace Machine

/-- The place of the cache that is used where none is named. -/
def defaultCache : CacheId := 0

/-- The machine on which nothing has happened. -/
def initial (processors : Nat) : Machine where
  frames := .empty
  functions := #[]
  objects := #[]
  attributes := []
  caches := #[.empty]
  pools := #[]
  settings := .default
  processors := processors
  defaultPool := none
  journal := #[]
  log := #[]
  nextIdentity := 1
  nextUid := 1

/-- Members with one set: replaced if it is there, and added otherwise. -/
def setMember (name : String) (v : Boxed) : List (String × Boxed) → List (String × Boxed)
  | [] => [(name, v)]
  | (n, w) :: rest => if n = name then (n, v) :: rest else (n, w) :: setMember name v rest

/-- After a member is set it has the new value, and the others keep theirs. -/
theorem lookup_setMember (name n : String) (v : Boxed) (members : List (String × Boxed)) :
    (setMember name v members).lookup n = if n = name then some v else members.lookup n := by
  induction members with
  | nil =>
    by_cases h : n = name
    · simp [setMember, h]
    · simp [setMember, List.lookup_cons, beq_eq_false_iff_ne.2 h, h]
  | cons head rest ih =>
    obtain ⟨m, w⟩ := head
    by_cases h : m = name
    · subst h
      by_cases k : n = m
      · simp [setMember, k]
      · simp [setMember, List.lookup_cons, beq_eq_false_iff_ne.2 k, k]
    · by_cases k : n = m
      · subst k
        simp [setMember, h]
      · simp [setMember, List.lookup_cons, h, beq_eq_false_iff_ne.2 k, ih]

/-- What an object or a function was given under a name. -/
def given? (m : Machine) (owner : Boxed) (name : String) : Option Boxed :=
  match owner.value with
  | .object id _ => ((m.objects[id]?).getD []).lookup name
  | _ => (m.attributes.find? fun a => a.1.1.same owner && a.1.2 = name).map fun a => a.2

/-- A pure function as it shows after it was given another name or other options. -/
def current (m : Machine) (f : PureFunction) : PureFunction :=
  let given (name : String) := (m.given? ⟨.compiled f, 0⟩ name).map fun v => v.value
  { f with
    name := ((given "name").bind fun v => v.shown.toOption).getD f.name
    caching := ((given "caching").map Value.truthy).getD f.caching
    threading := ((given "threading").map Value.truthy).getD f.threading }

mutual

/-- A value in which all pure functions are as they show. -/
def present (m : Machine) : Value → Value
  | .compiled f => .compiled (m.current f)
  | .list items => .list (presentAll m items)
  | v => v

/-- The same for several values. -/
def presentAll (m : Machine) : List Value → List Value
  | [] => []
  | v :: vs => present m v :: presentAll m vs

end

/-- The machine in which an object or a function is given a value under a name. Other values take
nothing. -/
def give? (m : Machine) (owner : Boxed) (name : String) (v : Boxed) : Option Machine :=
  match owner.value with
  | .object id _ => some { m with objects := m.objects.modify id (setMember name v) }
  | .host _ | .closure _ | .compiled _ =>
    some { m with attributes := ((owner, name), v) :: m.attributes }
  | _ => none

/-- The cache at a place. -/
def cache (m : Machine) (c : CacheId) : MemoCache := (m.caches[c]?).getD .empty

/-- The machine with a cache replaced. -/
def setCache (m : Machine) (c : CacheId) (value : MemoCache) : Machine :=
  { m with caches := m.caches.setIfInBounds c value }

theorem cache_setCache {m : Machine} {c : CacheId} (inside : c < m.caches.size) (value : MemoCache)
    (d : CacheId) : (m.setCache c value).cache d = if d = c then value else m.cache d := by
  unfold cache setCache
  simp only [Array.getElem?_setIfInBounds]
  by_cases same : d = c
  · subst same
    rw [if_pos rfl, if_pos rfl, if_pos inside, Option.getD_some]
  · rw [if_neg same, if_neg (fun h => same h.symm)]

theorem cache_setCache_self {m : Machine} {c : CacheId} (inside : c < m.caches.size)
    (value : MemoCache) : (m.setCache c value).cache c = value := by
  rw [cache_setCache inside, if_pos rfl]

/-- A cache stays what it is when another one is changed. -/
theorem cache_setCache_of_ne {m : Machine} {c d : CacheId} (other : d ≠ c) (value : MemoCache) :
    (m.setCache c value).cache d = m.cache d := by
  unfold cache setCache
  rw [Array.getElem?_setIfInBounds, if_neg fun same => other same.symm]

/-- The pool at a place. -/
def pool (m : Machine) (p : PoolId) : WorkerPool := (m.pools[p]?).getD (.new (.int 0))

/-- The machine with a pool replaced. -/
def setPool (m : Machine) (p : PoolId) (value : WorkerPool) : Machine :=
  { m with pools := m.pools.setIfInBounds p value }

theorem pool_setPool {m : Machine} {p : PoolId} (inside : p < m.pools.size) (value : WorkerPool)
    (q : PoolId) : (m.setPool p value).pool q = if q = p then value else m.pool q := by
  unfold pool setPool
  simp only [Array.getElem?_setIfInBounds]
  by_cases same : q = p
  · subst same
    rw [if_pos rfl, if_pos rfl, if_pos inside, Option.getD_some]
  · rw [if_neg same, if_neg (fun h => same h.symm)]

theorem setPool_setPool (m : Machine) (p : PoolId) (a b : WorkerPool) :
    (m.setPool p a).setPool p b = m.setPool p b := by
  unfold setPool
  simp only [Array.setIfInBounds_setIfInBounds]

/-- The machine with a new cache, and its place. -/
def newCache (m : Machine) : CacheId × Machine :=
  (m.caches.size, { m with caches := m.caches.push .empty })

/-- The size of a pool for which `workers` were asked; what counts as false stands for the
default. -/
def poolSize (m : Machine) (workers : Value) : Value :=
  if workers.truthy then workers else m.settings.resolvedWorkers m.processors

/-- The machine with a new pool, and its place. -/
def newPool (m : Machine) (workers : Value) : PoolId × Machine :=
  (m.pools.size, { m with pools := m.pools.push (.new (m.poolSize workers)) })

/-- The machine with a message logged. -/
def logged (m : Machine) (message : String) : Machine := { m with log := m.log.push message }

/-- The message about a new default pool. A size too long to be written is left out. -/
def poolMessage (size : Value) : String :=
  "Created default worker pool with " ++ (size.shown.toOption).getD "" ++ " workers"

/-- The default pool, made if there is none. -/
def ensureDefaultPool (m : Machine) : PoolId × Machine :=
  match m.defaultPool with
  | some p => (p, m)
  | none =>
    let (p, m) := m.newPool .none
    let m := m.logged (poolMessage (m.pool p).workers)
    (p, { m with defaultPool := some p })

/-- The machine without a default pool; the next use makes a new one. -/
def dropDefaultPool (m : Machine) : Machine := { m with defaultPool := none }

/-- The machine under other settings. The default pool is dropped if its size was changed, and kept
if the two sizes cannot be compared, which is a fault. -/
def withSettings (m : Machine) (s : Settings) : Except Fault Unit × Machine :=
  let changed := { m with settings := s }
  match s.maxWorkers.equal m.settings.maxWorkers with
  | .ok true => (.ok (), changed)
  | .ok false => (.ok (), changed.dropDefaultPool)
  | .error f => (.error f, changed)

/-- The machine with several settings changed by name, unless one of the names is unknown. -/
def configure (m : Machine) (changes : List (String × Value)) : Except Fault Unit × Machine :=
  match m.settings.configure changes with
  | .ok s => m.withSettings s
  | .error f => (.error f, m)

/-- The machine under the settings to begin with. -/
def resetSettings (m : Machine) : Except Fault Unit × Machine := m.withSettings .default

end Machine

end Knot
