import Knot.Proofs.FirstOrder.World
import Knot.Proofs.Generations
import Knot.Proofs.Transparency.Courses
import Knot.Proofs.Transparency.Trees

/-!
# Machines on which courses are taken

A `Glossary` says which closures of a machine stand for which functions. Whether calls are cached and
operations are split, and where, is a `Regime`. `Regime.Holds` is what is invariant while the bodies of a
compiled definition are evaluated:

* every closure in the glossary has the parameters and, but for the marks, the body of the function that it
  stands for, in a frame that shows the scope of the function;
* what the memo cache keeps for such a closure are results of it (`Regime.Answers`);
* the pool has as many free slots as the course is told.

`Regime.Follows` is the judgement on runs: if the course ends, with no arguments given that the regime does
not admit, then the run ends alike; and where nothing is cached the course ends if the run does.
-/

namespace Knot

/-! ## Machines that retain what they have -/

/-- What a run leaves as it is: the functions and the frames there are, the settings, and the default pool
once there is one; and caches have only grown. -/
structure Machine.Retains (m m' : Machine) : Prop where
  functions : ∀ (k : Nat) c, m.functions[k]? = some c → m'.functions[k]? = some c
  frames : ∀ f frame, m.frames.get? f = some frame → m'.frames.get? f = some frame
  caches : ∀ c, (m.cache c).Extends (m'.cache c)
  settings : m'.settings = m.settings
  processors : m'.processors = m.processors
  pool : ∀ p, m.defaultPool = some p → m'.defaultPool = some p

/-- Frames that are still there show what they have shown. -/
theorem Frames.lookup_of_kept {h h' : Frames}
    (kept : ∀ f frame, h.get? f = some frame → h'.get? f = some frame) {f : Nat}
    (inside : f < h.frames.size) (u : Nat) : h'.lookup f u = h.lookup f u := by
  have homes : ∀ (n g : Nat), g < h.frames.size → h'.homeFrom u n g = h.homeFrom u n g := by
    intro n
    induction n with
    | zero => exact fun _ _ => rfl
    | succ n ih =>
      intro g old
      have found : h.get? g = some h.frames[g] := Array.getElem?_eq_getElem old
      unfold homeFrom
      rw [found, kept g _ found]
      simp only
      split
      · rfl
      · cases up : h.frames[g].parent with
        | none => rfl
        | some p =>
          have older : @LT.lt Nat _ p g := h.older g p _ found up
          exact ih p (Nat.lt_trans older old)
  have home : h'.home? f u = h.home? f u := homes (f + 1) f inside
  cases place : h.home? f u with
  | none => simp only [lookup, home, place, bind, Option.bind]
  | some g =>
    obtain ⟨frame, found, -⟩ := homeFrom_declares place
    rw [place] at home
    rw [lookup_of_home home, lookup_of_home place, found, kept g frame found]

namespace Machine.Retains

variable {m m' m'' : Machine}

theorem of_eq (functions : m'.functions = m.functions) (frames : m'.frames = m.frames)
    (caches : m'.caches = m.caches) (settings : m'.settings = m.settings)
    (processors : m'.processors = m.processors) (pool : m'.defaultPool = m.defaultPool) :
    m.Retains m' where
  functions k c found := functions ▸ found
  frames f frame found := frames ▸ found
  caches c := by
    unfold Machine.cache
    rw [caches]
    exact .refl _
  settings := settings
  processors := processors
  pool p known := pool.trans known

theorem refl (m : Machine) : m.Retains m := of_eq rfl rfl rfl rfl rfl rfl

theorem trans (first : m.Retains m') (second : m'.Retains m'') : m.Retains m'' where
  functions k c found := second.functions k c (first.functions k c found)
  frames f frame found := second.frames f frame (first.frames f frame found)
  caches c := (first.caches c).trans (second.caches c)
  settings := second.settings.trans first.settings
  processors := second.processors.trans first.processors
  pool p known := second.pool p (first.pool p known)

theorem framesSize (h : m.Retains m') : m.frames.frames.size ≤ m'.frames.frames.size := by
  by_contra fewer
  have last : m'.frames.frames.size < m.frames.frames.size := by omega
  exact absurd (Frames.lt_size_of_get? (h.frames _ _ (Array.getElem?_eq_getElem last))) (Nat.lt_irrefl _)

theorem functionsSize (h : m.Retains m') : m.functions.size ≤ m'.functions.size := by
  by_contra fewer
  have last : m'.functions.size < m.functions.size := by omega
  have there := h.functions _ _ (Array.getElem?_eq_getElem last)
  exact absurd (Array.getElem?_eq_some_iff.1 there).1 (Nat.lt_irrefl _)

theorem lookup (h : m.Retains m') {f : Nat} (inside : f < m.frames.frames.size) (u : Nat) :
    m'.frames.lookup f u = m.frames.lookup f u := Frames.lookup_of_kept h.frames inside u

theorem push (m : Machine) (parent : Option FrameId) (bindings : List (Nat × Boxed)) :
    m.Retains { m with frames := (m.frames.push parent bindings).2 } where
  functions _ _ := id
  frames f frame found := by
    rw [Frames.get?_push, if_neg (Nat.ne_of_lt (Frames.lt_size_of_get? found)), found]
  caches _ := .refl _
  settings := rfl
  processors := rfl
  pool _ := id

theorem addFunction (m : Machine) (c : Callable) :
    m.Retains { m with functions := m.functions.push c } where
  functions k c found := by
    have inside := (Array.getElem?_eq_some_iff.1 found).1
    rw [Array.getElem?_push, if_neg (Nat.ne_of_lt inside), found]
  frames _ _ := id
  caches _ := .refl _
  settings := rfl
  processors := rfl
  pool _ := id

theorem box (m : Machine) (n : Nat) : m.Retains { m with nextIdentity := n } :=
  of_eq rfl rfl rfl rfl rfl rfl

theorem setPool (m : Machine) (p : PoolId) (value : WorkerPool) : m.Retains (m.setPool p value) :=
  of_eq rfl rfl rfl rfl rfl rfl

theorem setCache {c : CacheId} (inside : c < m.caches.size) {value : MemoCache}
    (grows : (m.cache c).Extends value) : m.Retains (m.setCache c value) where
  functions _ _ := id
  frames _ _ := id
  caches d := by
    rw [Machine.cache_setCache inside]
    split
    next same => exact same ▸ grows
    next => exact .refl _
  settings := rfl
  processors := rfl
  pool _ := id

end Machine.Retains

/-- Whether a variable, alone in its frame, has been given a value, in one of the frames from a number on. -/
def Machine.Gave (m : Machine) (since : Nat) (b : Nat × Value) : Prop :=
  ∃ f ≥ since, ∃ frame box, m.frames.get? f = some frame ∧ frame.values = [(b.1, box)] ∧ box.value = b.2

theorem Machine.Gave.later {m m' : Machine} {since : Nat} {b : Nat × Value} (h : m.Gave since b)
    (retains : m.Retains m') : m'.Gave since b := by
  obtain ⟨f, new, frame, box, found, rest⟩ := h
  exact ⟨f, new, frame, box, retains.frames f frame found, rest⟩

/-! ## Faithful tables -/

/-- Whether what a cache keeps for functions and arguments are answers. -/
structure MemoCache.Faithful (answers : Value → Key → Value → Prop) (c : MemoCache) : Prop where
  begun : 0 < c.generations.size
  entries : ∀ n, ∀ t ∈ (c.generation n).tables, ∀ e ∈ t.2, answers t.1.box.value e.1 e.2.value

theorem MemoCache.Faithful.mono {answers more : Value → Key → Value → Prop} {c : MemoCache}
    (h : c.Faithful answers) (implied : ∀ f a v, answers f a v → more f a v) : c.Faithful more :=
  ⟨h.begun, fun n t table e inside => implied _ _ _ (h.entries n t table e inside)⟩

/-- Whether two values are keys that can be compared, and are one key only if they are one value. -/
def Value.Discerned (v w : Value) : Prop :=
  ∃ d d', v.digest? = some d ∧ w.digest? = some d' ∧ ∀ i j, Key.Agrees ⟨d', ⟨w, j⟩⟩ ⟨d, ⟨v, i⟩⟩

/-! ## Glossaries -/

def Sense.isFunction : Sense → Bool
  | .plain _ => false
  | .function _ _ _ | .itself => true

/-- Which closures stand for which functions. -/
def Glossary := Nat → Option Sense

namespace Glossary

variable {σ τ υ : Glossary}

/-- What is in the one glossary is in the other. -/
def Extends (σ τ : Glossary) : Prop := ∀ i s, σ i = some s → τ i = some s

theorem Extends.refl (σ : Glossary) : σ.Extends σ := fun _ _ => id

theorem Extends.trans (first : σ.Extends τ) (second : τ.Extends υ) : σ.Extends υ :=
  fun i s held => second i s (first i s held)

/-- The glossary with one more function. -/
def add (σ : Glossary) (i : Nat) (s : Sense) : Glossary := fun k => if k = i then some s else σ k

theorem extends_add {i : Nat} (free : σ i = none) (s : Sense) : σ.Extends (σ.add i s) := by
  intro k s' held
  have other : k ≠ i := by
    rintro rfl
    rw [free] at held
    cases held
  exact (if_neg other).trans held

/-- What a value stands for. -/
inductive Denotes (σ : Glossary) : Value → Sense → Prop
  | plain {v} (inert : v.isCallable = false) : σ.Denotes v (.plain v)
  | closure {i s} (held : σ i = some s) (function : s.isFunction = true) : σ.Denotes (.closure i) s

theorem Denotes.extend {v : Value} {s : Sense} (h : σ.Denotes v s) (more : σ.Extends τ) :
    τ.Denotes v s := by
  cases h with
  | plain inert => exact .plain inert
  | closure held function => exact .closure (more _ _ held) function

/-- A value stands for one thing only. -/
theorem Denotes.unique {v : Value} {s s' : Sense} (h : σ.Denotes v s) (h' : σ.Denotes v s') : s' = s := by
  cases h with
  | plain inert =>
    cases h' with
    | plain => rfl
    | closure => cases inert
  | closure held =>
    cases h' with
    | plain inert => cases inert
    | closure held' => exact Option.some.inj (held'.symm.trans held)

theorem Denotes.isCallable {v : Value} {s : Sense} (h : σ.Denotes v s) : v.isCallable = s.isFunction := by
  cases h with
  | plain inert => exact inert
  | closure held function => exact function.symm

theorem Denotes.eq_of_plain {v w : Value} (h : σ.Denotes v (.plain w)) : v = w ∧ w.isCallable = false := by
  cases h with
  | plain inert => exact ⟨rfl, inert⟩
  | closure _ function => cases function

/-- Operators see the same of both. -/
theorem Denotes.anonymous {v : Value} {s : Sense} (h : σ.Denotes v s) : v.anonymous = s.shown := by
  cases h with
  | plain inert => cases v <;> first | rfl | cases inert
  | closure held function => cases s <;> first | rfl | cases function

/-- A frame shows a scope. -/
structure Shows (σ : Glossary) (scope : Scope) (frame : Nat) (m : Machine) : Prop where
  inside : frame < m.frames.frames.size
  shown : ∀ u, Option.Rel (fun b s => σ.Denotes b.value s) (m.frames.lookup frame u) (scope u)

theorem Shows.later {scope : Scope} {frame : Nat} {m m' : Machine} (h : σ.Shows scope frame m)
    (more : σ.Extends τ) (retains : m.Retains m') : τ.Shows scope frame m' := by
  refine ⟨Nat.lt_of_lt_of_le h.inside retains.framesSize, fun u => ?_⟩
  have shown := h.shown u
  rw [retains.lookup h.inside]
  generalize m.frames.lookup frame u = found, scope u = known at shown
  cases shown with
  | some denotes => exact .some (denotes.extend more)
  | none => exact .none

end Glossary

/-! ## Regimes -/

/-- How the bodies of a definition are evaluated: whether calls are cached and operations are split, in which
cache and which pool; and which arguments are expected, that a cache can tell apart. -/
structure Regime where
  caching : Bool
  threading : Bool
  cache : CacheId
  /-- The context of the closures. -/
  context : Context
  /-- The size of the pool. -/
  workers : Int
  recursion : Recursion
  /-- The number of the first frame that counts. -/
  since : Nat
  /-- The arguments that functions of one parameter may be given. -/
  admitted : Set (Nat × Value)
  discerned : caching = true → ∀ p v w, (p, v) ∈ admitted → (p, w) ∈ admitted → v.Discerned w

namespace Regime

variable (r : Regime)

/-- Whether a node is self-contained, or marked as the regime has it. -/
def AdmitsNode : Expr → Prop
  | .cached _ _ _ c => r.caching = true ∧ r.context.cacheFor c = r.cache
  | .parallel _ _ _ _ p => r.threading = true ∧ p.or r.context.pool = r.context.pool
  | e => e.isSelfContained = true

/-- Whether all nodes of a tree are. -/
def Admits (e : Expr) : Prop := ∀ x ∈ e.nodes, r.AdmitsNode x

theorem admits_iff {e : Expr} : r.Admits e ↔ r.AdmitsNode e ∧ ∀ c ∈ e.parts, r.Admits c :=
  Expr.forall_mem_nodes_iff

/-- A result of a function, for an argument that is a key. -/
def Answers (σ : Glossary) (s : Sense) (a : Key) (v : Value) : Prop :=
  a.box.value.digest? = some a.digest ∧
  ∃ p body scope, r.recursion.parts? s = some ([p], body, scope) ∧
  ∃ n slots s' given d, r.recursion.call n slots s [s'] = some (.value d, given) ∧
    σ.Denotes a.box.value s' ∧ σ.Denotes v d ∧ ∀ w, s' = .plain w → (p, w) ∈ r.admitted

/-- What the cache may keep: something for a function that there is, and for a closure of the glossary a
result of the function that it stands for. -/
def Kept (σ : Glossary) (m : Machine) (f : Value) (a : Key) (v : Value) : Prop :=
  f.isCallable = true ∧
    ∀ i, f = .closure i → i < m.functions.size ∧ ∀ s, σ i = some s → r.Answers σ s a v

/-- A closure with the parameters, the body and the scope of a function. -/
def Placed (σ : Glossary) (i : Nat) (s : Sense) (m : Machine) : Prop :=
  ∃ ps body scope tree frame, r.recursion.parts? s = some (ps, body, scope) ∧
    m.functions[i]? = some (.closure ps tree frame r.context) ∧ tree.uncached = body ∧ r.Admits tree ∧
    σ.Shows scope frame m

/-- A pool with so many free slots. -/
structure Serves (slots : Int) (m : Machine) (p : PoolId) : Prop where
  inside : p < m.pools.size
  free : (m.pool p).available = .int slots
  workers : (m.pool p).workers = .int r.workers
  fits : slots ≤ r.workers

/-- The pool of the context, or the default pool, has so many free slots; or it will have once it is made. -/
structure Offers (slots : Int) (m : Machine) : Prop where
  made : ∀ p, r.context.pool.or m.defaultPool = some p → r.Serves slots m p
  unmade : r.context.pool.or m.defaultPool = none →
    m.poolSize .none = .int r.workers ∧ slots = r.workers

/-- What is invariant. -/
structure Holds (σ : Glossary) (slots : Int) (m : Machine) : Prop where
  since : r.since ≤ m.frames.frames.size
  placed : ∀ i s, σ i = some s → r.Placed σ i s m
  cache : r.caching = true → r.cache < m.caches.size ∧ (m.cache r.cache).Faithful (r.Kept σ m)
  pool : r.threading = true → r.Offers slots m

variable {r} {σ τ : Glossary} {slots : Int} {m m' : Machine}

theorem Answers.extend {s : Sense} {a : Key} {v : Value} (h : r.Answers σ s a v) (more : σ.Extends τ) :
    r.Answers τ s a v := by
  obtain ⟨key, p, body, scope, parts, n, slots, s', given, d, ended, argument, result, admitted⟩ := h
  exact ⟨key, p, body, scope, parts, n, slots, s', given, d, ended, argument.extend more,
    result.extend more, admitted⟩

theorem Placed.later {i : Nat} {s : Sense} (h : r.Placed σ i s m) (more : σ.Extends τ)
    (retains : m.Retains m') : r.Placed τ i s m' := by
  obtain ⟨ps, body, scope, tree, frame, parts, there, same, admitted, shows⟩ := h
  exact ⟨ps, body, scope, tree, frame, parts, retains.functions _ _ there, same, admitted,
    shows.later more retains⟩

theorem Placed.inside {i : Nat} {s : Sense} (h : r.Placed σ i s m) : i < m.functions.size := by
  obtain ⟨ps, body, scope, tree, frame, -, there, -⟩ := h
  exact (Array.getElem?_eq_some_iff.1 there).1

theorem Placed.isFunction {i : Nat} {s : Sense} (h : r.Placed σ i s m) : s.isFunction = true := by
  obtain ⟨ps, body, scope, tree, frame, parts, -⟩ := h
  cases s <;> first | rfl | cases parts

theorem Kept.later {f v : Value} {a : Key} (h : r.Kept σ m f a v) (retains : m.Retains m') :
    r.Kept σ m' f a v :=
  ⟨h.1, fun i closure => ⟨Nat.lt_of_lt_of_le (h.2 i closure).1 retains.functionsSize,
    (h.2 i closure).2⟩⟩

theorem Offers.of_eq (h : r.Offers slots m) (pools : m'.pools = m.pools)
    (default : m'.defaultPool = m.defaultPool) (settings : m'.settings = m.settings)
    (processors : m'.processors = m.processors) : r.Offers slots m' where
  made p named := by
    obtain ⟨inside, free, workers, fits⟩ := h.made p (default ▸ named)
    have same : m'.pool p = m.pool p := by
      unfold Machine.pool
      rw [pools]
    exact ⟨by rw [pools]; exact inside, by rw [same]; exact free, by rw [same]; exact workers, fits⟩
  unmade none_yet := by
    unfold Machine.poolSize
    rw [settings, processors]
    exact h.unmade (default ▸ none_yet)

namespace Holds

/-- On a later machine with the same caches and pools. -/
theorem later (h : r.Holds σ slots m) (retains : m.Retains m') (caches : m'.caches = m.caches)
    (pools : m'.pools = m.pools) (default : m'.defaultPool = m.defaultPool) : r.Holds σ slots m' where
  since := Nat.le_trans h.since retains.framesSize
  placed i s held := (h.placed i s held).later (.refl σ) retains
  cache on := by
    obtain ⟨inside, faithful⟩ := h.cache on
    refine ⟨by rw [caches]; exact inside, ?_⟩
    unfold Machine.cache at faithful ⊢
    rw [caches]
    exact faithful.mono fun f a v kept => kept.later retains
  pool on := (h.pool on).of_eq pools default retains.settings retains.processors

/-- After a step of the cache. -/
theorem setCache (h : r.Holds σ slots m) (inside : r.cache < m.caches.size) {value : MemoCache}
    (grows : (m.cache r.cache).Extends value) (faithful : value.Faithful (r.Kept σ m)) :
    r.Holds σ slots (m.setCache r.cache value) where
  since := h.since
  placed i s held := (h.placed i s held).later (.refl σ) (.setCache inside grows)
  cache on := by
    refine ⟨by simpa [Machine.setCache] using inside, ?_⟩
    rw [Machine.cache_setCache_self inside]
    exact faithful
  pool on := (h.pool on).of_eq rfl rfl rfl rfl

/-- A closure that is not there yet stands for nothing. -/
theorem free (h : r.Holds σ slots m) : σ m.functions.size = none := by
  cases held : σ m.functions.size with
  | none => rfl
  | some s => exact absurd (h.placed _ s held).inside (Nat.lt_irrefl _)

/-- With one more closure. -/
theorem addFunction (h : r.Holds σ slots m) {c : Callable} {s : Sense}
    (placed : r.Placed (σ.add m.functions.size s) m.functions.size s
      { m with functions := m.functions.push c }) :
    r.Holds (σ.add m.functions.size s) slots { m with functions := m.functions.push c } := by
  have more := Glossary.extends_add h.free s
  have retains := Machine.Retains.addFunction m c
  refine ⟨h.since, fun i s' held => ?_, fun on => ?_, (h.later retains rfl rfl rfl).pool⟩
  · unfold Glossary.add at held
    split at held
    next here =>
      cases held
      exact here ▸ placed
    next => exact (h.placed i s' held).later more retains
  · obtain ⟨inside, faithful⟩ := h.cache on
    refine ⟨inside, faithful.mono fun f a v kept => ⟨kept.1, fun i closure => ?_⟩⟩
    obtain ⟨old, answers⟩ := kept.2 i closure
    refine ⟨Nat.lt_of_lt_of_le old retains.functionsSize, fun s' held => ?_⟩
    -- nothing is kept yet for the new closure
    unfold Glossary.add at held
    rw [if_neg (Nat.ne_of_lt old)] at held
    exact (answers s' held).extend more

end Holds

/-! ## The judgement -/

/-- An outcome as the course has it. -/
inductive Matches {α β : Type} (τ : Glossary) (R : α → β → Prop) : Ending β → Outcome α → Prop
  | value {a b} (h : R a b) : Matches τ R (.value b) (.value a)
  | fault (f : Fault) : Matches τ R .fault (.fault f)
  | jump {v s} (target : Nat) (h : τ.Denotes v.value s) : Matches τ R (.jump target s) (.jump target v)

theorem Matches.ended {α β : Type} {R : α → β → Prop} {e : Ending β} {o : Outcome α}
    (h : Matches τ R e o) : o ≠ .exhausted := by
  cases h <;> simp

/-- Whether the course is known to end with arguments that are admitted, or the run is known to end where
nothing is cached. -/
def Alive (r : Regime) {α β : Type} (c : Course β) (o : Outcome α) : Prop :=
  (∃ e given, c = some (e, given) ∧ given ⊆ r.admitted) ∨ (r.caching = false ∧ o ≠ .exhausted)

/-- How a run has come to the end of its course. -/
structure Arrives (r : Regime) {α β : Type} (R : Glossary → Machine → α → β → Prop) (σ τ : Glossary)
    (slots : Int) (m : Machine) (e : Ending β) (given : Set (Nat × Value)) (out : Outcome α × Machine) :
    Prop where
  more : σ.Extends τ
  holds : r.Holds τ slots out.2
  retains : m.Retains out.2
  outcome : Matches τ (R τ out.2) e out.1
  gave : r.caching = false → ∀ b ∈ given, out.2.Gave r.since b

/-- A run follows a course: if one of them is known to end, both do, and alike. -/
def Follows (r : Regime) {α β : Type} (R : Glossary → Machine → α → β → Prop) (σ : Glossary) (slots : Int)
    (c : Course β) (x : Run α) (m : Machine) : Prop :=
  r.Alive c (x m).1 → ∃ e given τ, c = some (e, given) ∧ r.Arrives R σ τ slots m e given (x m)

/-- Values that stand for what a course comes to. -/
def Values (τ : Glossary) (_ : Machine) (v : Boxed) (s : Sense) : Prop := τ.Denotes v.value s

/-- The same for several values. -/
def Lists (τ : Glossary) (_ : Machine) (vs : List Boxed) (ss : List Sense) : Prop :=
  List.Forall₂ (fun v s => τ.Denotes v.value s) vs ss

theorem Lists.extend {vs : List Boxed} {ss : List Sense} (h : Lists σ m vs ss) (more : σ.Extends τ) :
    Lists τ m' vs ss := List.Forall₂.imp (fun _ _ denotes => denotes.extend more) h

namespace Follows

variable {α β α' β' : Type} {R : Glossary → Machine → α → β → Prop}
  {R' : Glossary → Machine → α' → β' → Prop}

/-- A run that is at its end, perhaps after a step that changes nothing of note. -/
theorem of_eq {e : Ending β} {x : Run α} {o : Outcome α} (same : x m = (o, m'))
    (holds : r.Holds σ slots m') (retains : m.Retains m') (outcome : Matches σ (R σ m') e o) :
    r.Follows R σ slots (Course.done e) x m := by
  intro _
  refine ⟨e, ∅, σ, rfl, ?_⟩
  rw [same]
  exact ⟨.refl σ, holds, retains, outcome, fun _ b impossible => impossible.elim⟩

theorem of_pure (holds : r.Holds σ slots m) {a : α} {b : β} (related : R σ m a b) :
    r.Follows R σ slots (pure b) (pure a) m :=
  of_eq rfl holds (.refl m) (.value related)

theorem fault (holds : r.Holds σ slots m) (f : Fault) :
    r.Follows R σ slots (Course.done .fault) (Run.fail f) m :=
  of_eq rfl holds (.refl m) (.fault f)

/-- Nothing is known to end. -/
theorem endless {c : Course β} (never : c = Course.endless) : r.Follows R σ slots c Run.exhausted m := by
  rintro (⟨e, given, impossible, -⟩ | ⟨-, impossible⟩)
  · cases never.symm.trans impossible
  · exact absurd rfl impossible

/-- A run that goes on as another one from a later machine. -/
theorem of_later {c : Course β} {x y : Run α} (h : r.Follows R τ slots c y m') (more : σ.Extends τ)
    (retains : m.Retains m') (same : x m = y m') : r.Follows R σ slots c x m := by
  intro alive
  rw [same] at alive ⊢
  obtain ⟨e, given, υ, ended, arrives⟩ := h alive
  exact ⟨e, given, υ, ended, more.trans arrives.more, arrives.holds, retains.trans arrives.retains,
    arrives.outcome, arrives.gave⟩

/-- A run and after it another one. -/
theorem onward {c : Course β} {g : Ending β → Course β'} {x : Run α} {f : Outcome α → Run α'}
    (first : r.Follows R σ slots c x m)
    (second : ∀ τ m' e o, σ.Extends τ → r.Holds τ slots m' → m.Retains m' → Matches τ (R τ m') e o →
      r.Follows R' τ slots (g e) (f o) m') :
    r.Follows R' σ slots (c.onward g) (x.onward f) m := by
  intro alive
  have aliveFirst : r.Alive c (x m).1 := by
    rcases alive with ⟨e, given, ended, admitted⟩ | ⟨off, ended⟩
    · obtain ⟨e₁, given₁, rest, found, -, rfl⟩ := Course.eq_some_of_onward ended
      exact .inl ⟨e₁, given₁, found, fun b inside => admitted (.inl inside)⟩
    · refine .inr ⟨off, fun exhausted => ended ?_⟩
      rcases reached : x m with ⟨o, m'⟩
      rw [reached] at exhausted
      have stopped : o = .exhausted := exhausted
      subst stopped
      rw [Run.onward_of_exhausted reached]
  obtain ⟨e₁, given₁, τ, found, more, holds, retains, outcome, gave⟩ := first aliveFirst
  rcases reached : x m with ⟨o, m'⟩
  rw [reached] at holds retains outcome gave
  have continued : x.onward f m = f o m' := Run.onward_of_ended reached outcome.ended
  -- what the whole course gives to functions includes what its second part gives
  have aliveSecond : r.Alive (g e₁) (f o m').1 := by
    rcases alive with ⟨e, given, ended, admitted⟩ | ⟨off, ended⟩
    · obtain ⟨e₂, given₂, rest, found', follows, rfl⟩ := Course.eq_some_of_onward ended
      cases found.symm.trans found'
      exact .inl ⟨e, rest, follows, fun b inside => admitted (.inr inside)⟩
    · rw [continued] at ended
      exact .inr ⟨off, ended⟩
  obtain ⟨e, rest, υ, ended, more', holds', retains', outcome', gave'⟩ :=
    second τ m' e₁ o more holds retains outcome aliveSecond
  refine ⟨e, given₁ ∪ rest, υ, Course.onward_eq_some found ended, ?_⟩
  rw [continued]
  refine ⟨more.trans more', holds', retains.trans retains', outcome', fun off b inside => ?_⟩
  rcases inside with before | after
  · exact (gave off b before).later retains'
  · exact gave' off b after

/-- One run after another. -/
theorem bind {c : Course β} {g : β → Course β'} {x : Run α} {f : α → Run α'}
    (first : r.Follows R σ slots c x m)
    (second : ∀ τ m' a b, σ.Extends τ → r.Holds τ slots m' → m.Retains m' → R τ m' a b →
      r.Follows R' τ slots (g b) (f a) m') :
    r.Follows R' σ slots (c >>= g) (x >>= f) m := by
  rw [Run.bind_eq_onward]
  refine onward first fun τ m' e o more holds retains outcome => ?_
  cases outcome with
  | value related => exact second τ m' _ _ more holds retains related
  | fault f => exact fault holds f
  | jump target denotes => exact of_eq rfl holds (.refl m') (.jump target denotes)

theorem ite {p : Prop} [Decidable p] {c d : Course β} {x y : Run α}
    (left : p → r.Follows R σ slots c x m) (right : ¬p → r.Follows R σ slots d y m) :
    r.Follows R σ slots (if p then c else d) (if p then x else y) m := by
  by_cases h : p
  · rw [if_pos h, if_pos h]
    exact left h
  · rw [if_neg h, if_neg h]
    exact right h

theorem sealed {c : Course Sense} {x : Run Boxed} (h : r.Follows Values σ slots c x m) :
    r.Follows Values σ slots c.sealed x.sealed m := by
  rw [Run.sealed_eq_onward]
  refine onward h fun τ m' e o more holds retains outcome => ?_
  cases outcome with
  | value related => exact of_pure holds related
  | fault f => exact fault holds f
  | jump target denotes => exact fault holds _

/-- After an argument has been given. -/
theorem after {c : Course β} {x : Run α} {given : Set (Nat × Value)} (h : r.Follows R σ slots c x m)
    (gave : r.caching = false → ∀ b ∈ given, m.Gave r.since b) :
    r.Follows R σ slots (c.after given) x m := by
  intro alive
  have aliveAfter : r.Alive c (x m).1 := by
    rcases alive with ⟨e, all, ended, admitted⟩ | ended
    · obtain ⟨rest, found, rfl⟩ := Course.eq_some_of_after ended
      exact .inl ⟨e, rest, found, fun b inside => admitted (.inr inside)⟩
    · exact .inr ended
  obtain ⟨e, rest, τ, ended, arrives⟩ := h aliveAfter
  refine ⟨e, given ∪ rest, τ, by rw [ended]; rfl, arrives.more, arrives.holds, arrives.retains,
    arrives.outcome, fun off b inside => ?_⟩
  rcases inside with before | later
  · exact (gave off b before).later arrives.retains
  · exact arrives.gave off b later

/-! ## Blocks and loops -/

/-- A step of a block and the step of the course. -/
def Steps (r : Regime) (σ : Glossary) (slots : Int) (m : Machine) (step : Step) (leg : Course.Leg) : Prop :=
  step.label = leg.label ∧ ∀ τ m', σ.Extends τ → r.Holds τ slots m' → m.Retains m' →
    r.Follows Values τ slots leg.course step.run m'

theorem Steps.later {step : Step} {leg : Course.Leg} (h : Steps r σ slots m step leg) (more : σ.Extends τ)
    (retains : m.Retains m') : Steps r τ slots m' step leg :=
  ⟨h.1, fun υ m'' more' holds retains' =>
    h.2 υ m'' (more.trans more') holds (retains.trans retains')⟩

theorem runAll {steps : List Step} {legs : List Course.Leg}
    (each : List.Forall₂ (Steps r σ slots m) steps legs) (holds : r.Holds σ slots m) {v : Boxed}
    {s : Sense} (denotes : σ.Denotes v.value s) :
    r.Follows Values σ slots (Course.Leg.all legs s) (Step.runAll steps v) m := by
  induction steps generalizing legs σ m v s with
  | nil =>
    cases each
    exact of_pure holds denotes
  | cons step rest ih =>
    cases each with
    | cons first others =>
      refine bind (first.2 σ m (.refl σ) holds (.refl m)) fun τ m' w s' more holds' retains denotes' => ?_
      exact ih (others.imp fun _ _ step => step.later more retains) holds' denotes'

/-- Behind a label there are the same steps. -/
theorem after? {steps : List Step} {legs : List Course.Leg}
    (each : List.Forall₂ (Steps r σ slots m) steps legs) (target : Nat) :
    Option.Rel (List.Forall₂ (Steps r σ slots m)) (Step.after? target steps)
      (Course.Leg.after? target legs) := by
  induction each with
  | nil => exact .none
  | cons first rest ih =>
    unfold Step.after? Course.Leg.after?
    rw [first.1]
    revert ih
    generalize Step.after? target _ = found, Course.Leg.after? target _ = found'
    intro ih
    cases ih with
    | some behind => exact .some behind
    | none =>
      simp only
      split
      · exact .some rest
      · exact .none

theorem runFrom (fuel : Nat) : ∀ {σ m} {all : List Step} {legs : List Course.Leg} {rest : List Step}
    {rest' : List Course.Leg} {v : Boxed} {s : Sense},
    List.Forall₂ (Steps r σ slots m) all legs → List.Forall₂ (Steps r σ slots m) rest rest' →
    r.Holds σ slots m → σ.Denotes v.value s →
      r.Follows Values σ slots (Course.Leg.blockFrom legs fuel rest' s) (Step.runFrom all fuel rest v) m := by
  induction fuel with
  | zero => exact fun _ _ _ _ => endless rfl
  | succ fuel ih =>
    intro σ m all legs rest rest' v s whole each holds denotes
    rw [Step.runFrom_succ]
    refine onward (runAll each holds denotes) fun τ m' e o more holds' retains outcome => ?_
    cases outcome with
    | value related => exact of_pure holds' related
    | fault f => exact fault holds' f
    | @jump w s' target denotes' =>
      have behind := after? whole target
      simp only
      -- the label may be found on both sides or on neither
      revert behind
      generalize Step.after? target _ = found, Course.Leg.after? target _ = found'
      intro behind
      cases behind with
      | none => exact of_eq rfl holds' (.refl m') (.jump target denotes')
      | some behind =>
        exact ih (whole.imp fun _ _ step => step.later more retains)
          (behind.imp fun _ _ step => step.later more retains) holds' denotes'

theorem loop {turn : Course Sense} {x : Run Boxed} (breakLabel continueLabel : Option Nat) (fuel : Nat) :
    ∀ {σ m}, (∀ τ m', σ.Extends τ → r.Holds τ slots m' → m.Retains m' → r.Follows Values τ slots turn x m') →
      r.Holds σ slots m →
      r.Follows Values σ slots (Course.loop turn breakLabel continueLabel fuel)
        (Run.loop x breakLabel continueLabel fuel) m := by
  induction fuel with
  | zero => exact fun _ _ => endless rfl
  | succ fuel ih =>
    intro σ m turns holds
    rw [Run.loop_succ]
    refine onward (turns σ m (.refl σ) holds (.refl m)) fun τ m' e o more holds' retains outcome => ?_
    have again : r.Follows Values τ slots (Course.loop turn breakLabel continueLabel fuel)
        (Run.loop x breakLabel continueLabel fuel) m' :=
      ih (fun υ m'' more' holds'' retains' =>
        turns υ m'' (more.trans more') holds'' (retains.trans retains')) holds'
    cases outcome with
    | value => exact again
    | fault f => exact fault holds' f
    | jump target denotes =>
      refine ite (fun _ => of_pure holds' denotes) fun _ => ite (fun _ => again) fun _ => ?_
      exact of_eq rfl holds' (.refl m') (.jump target denotes)

end Follows

end Regime

end Knot
