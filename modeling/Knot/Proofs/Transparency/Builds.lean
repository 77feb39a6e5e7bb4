import Knot.Proofs.Compilation
import Knot.Proofs.Transparency.Regimes

/-!
# Builds with and without caching

What is built of a definition with a cache and what is built without one are the same two closures, but for
the marks of the cached calls (`Definition.Has.compile_uncached`), and both machines are such that courses are
followed on them (`Regime.Holds.compiled`).
-/

namespace Knot

open Knot.Expr (Uncaching)

/-! ## Trees of compilations -/

namespace Definition

variable {d : Definition} {x : Parameter} {body : Expr}

/-- The options of a compilation, and the same without caching. -/
structure PlainOptions (o o' : CompileOptions) : Prop where
  caching : o'.caching = false
  threading : o'.threading = o.threading
  pool : o'.pool = o.pool

section

variable {o o' : CompileOptions} (plain : PlainOptions o o')

theorem body_eq_of_program {bound : Parameter} {b b' e e' : Expr}
    (same : d.program bound b e = d.program bound b' e') : b = b' := by
  unfold program at same
  simp only [Expr.block.injEq, List.cons.injEq, Expr.binary.injEq, Expr.lambda.injEq] at same
  exact same.2.1.1.2.2.1.2.1

theorem Has.uncached_program (h : d.Has x body) (bound : Parameter) (b e : Expr) :
    (d.program bound b e).uncached = d.program bound b.uncached e.uncached := by
  unfold program
  rw [h.argument]
  rfl

include plain

/-- Without its mark the entry is a plain call. -/
theorem Has.uncached_entry (h : d.Has x body) (bound : Parameter) :
    (d.entry o bound).uncached = d.entry o' bound := by
  unfold entry
  rw [plain.caching, h.argument]
  split <;> rfl

/-- Without the marks of the cached calls the tree of a compilation is what is compiled without caching. -/
theorem Has.compile_uncached [Host] (h : d.Has x body) (ordinary : body.Ordinary) {fuel fuel' : Nat}
    {m m₁ m₂ : Machine} {c c' : Compilation} (compiled : Run.compile fuel d o m = (.value c, m₁))
    (compiled' : Run.compile fuel' d o' m = (.value c', m₂)) : c.tree.uncached = c'.tree := by
  obtain ⟨passes, allowed, tree⟩ := h.compile_tree compiled
  obtain ⟨passes', allowed', tree'⟩ := h.compile_tree compiled'
  cases allowed.symm.trans allowed'
  have same : Uncaching (d.substitution (d.bound m) o m.settings.allowImpure.truthy)
      (d.substitution (d.bound m) o' m.settings.allowImpure.truthy) :=
    ⟨rfl, rfl, plain.caching, plain.threading, plain.pool⟩
  have marked : (d.marked o m body).uncached = d.marked o' m body :=
    body.uncached_marked same rfl ordinary
  rw [tree, tree', ← Expr.reduce_uncached, h.uncached_program, marked, h.uncached_entry plain]

/-- So without those marks one body has been compiled, with caching and without. -/
theorem Has.exists_body [Host] (h : d.Has x body) (ordinary : body.Ordinary) {fuel fuel' : Nat}
    {m m₁ m₂ : Machine} {c c' : Compilation} (compiled : Run.compile fuel d o m = (.value c, m₁))
    (compiled' : Run.compile fuel' d o' m = (.value c', m₂)) :
    ∃ b, (∀ b₁, c.tree = d.program (d.bound m) b₁ (d.entry o (d.bound m)) → b₁.uncached = b) ∧
      ∀ b₂, c'.tree = d.program (d.bound m) b₂ (d.entry o' (d.bound m)) → b₂.uncached = b := by
  have same := h.compile_uncached plain ordinary compiled compiled'
  have itself : c'.tree.uncached = c'.tree := by rw [← same, Expr.uncached_uncached]
  obtain ⟨k, log, shape, -, -⟩ := h.compile_value compiled'
  have tree : c'.tree =
      d.program (d.bound m) (Expr.passed^[k] (d.marked o' m body)) (d.entry o' (d.bound m)) := by rw [shape]
  refine ⟨Expr.passed^[k] (d.marked o' m body), fun b₁ shape₁ => ?_, fun b₂ shape₂ => ?_⟩
  · rw [shape₁, h.uncached_program, tree] at same
    exact body_eq_of_program same
  · rw [shape₂, h.uncached_program, ← shape₂, tree] at itself
    exact body_eq_of_program itself

end

end Definition

/-! ## Admitted trees -/

namespace Regime

variable {r : Regime} {σ : Glossary} {slots : Int} {m : Machine}

/-- Marks on a node that is self-contained are such as the regime has them. -/
theorem AdmitsNode.marked {s : Substitution} {q : Parameter} (replacement : s.replacement = .parameter q)
    (caching : s.caching = true → r.caching = true ∧ r.context.cacheFor s.cache = r.cache)
    (threading : s.threading = true → r.threading = true ∧ s.pool.or r.context.pool = r.context.pool)
    {e : Expr} (ordinary : e.isOrdinary = true) (contained : e.isSelfContained = true) :
    r.AdmitsNode (e.marked s) := by
  cases e with
  | parameter p =>
    rw [Expr.marked, replacement]
    split <;> rfl
  | binary op a b t =>
    rw [Expr.marked]
    split
    next split =>
      rw [Bool.and_eq_true] at split
      exact threading split.1
    next => exact contained
  | invoke f args t =>
    by_cases single : args.length = 1
    · obtain ⟨a, rfl⟩ := List.length_eq_one_iff.1 single
      rw [Expr.marked]
      split
      next on => exact caching on
      next => rfl
    · rw [Expr.marked_invoke_other f single]
      rfl
  | cached | parallel => cases ordinary
  | _ => exact contained

/-- Passing through the children of a node leaves its marks. -/
theorem AdmitsNode.mapChildren {e : Expr} (h : r.AdmitsNode e) (f : Expr → Expr) :
    r.AdmitsNode (e.mapChildren f) := by
  cases e <;> exact h

/-- The options that a regime is for. -/
structure Of (r : Regime) (o : CompileOptions) : Prop where
  caching : o.caching = true → r.caching = true
  threading : o.threading = true → r.threading = true
  cache : r.cache = o.cache.getD Machine.defaultCache
  context : r.context = ⟨o.cache, o.pool⟩

/-- The regime for options. -/
def ofOptions (o : CompileOptions) (workers : Int) (recursion : Recursion) (since : Nat)
    (admitted : Set (Nat × Value)) (discerned : o.caching = true →
      ∀ p v w, (p, v) ∈ admitted → (p, w) ∈ admitted → v.Discerned w) : Regime where
  caching := o.caching
  threading := o.threading
  cache := o.cache.getD Machine.defaultCache
  context := ⟨o.cache, o.pool⟩
  workers := workers
  recursion := recursion
  since := since
  admitted := admitted
  discerned := discerned

theorem Of.cacheFor {o : CompileOptions} (h : r.Of o) : r.context.cacheFor o.cache = r.cache := by
  rw [h.cache, h.context]
  unfold Context.cacheFor
  rw [Option.or_self]

theorem Of.pool {o : CompileOptions} (h : r.Of o) : o.pool.or r.context.pool = r.context.pool := by
  rw [h.context]
  exact Option.or_self

variable {d : Definition} {x : Parameter} {body : Expr} {o : CompileOptions}

/-- The body of a self-contained definition is admitted as it is compiled. -/
theorem Of.admits_marked (h : r.Of o) (ordinary : body.Ordinary) (contained : body.SelfContained)
    (m : Machine) (k : Nat) : r.Admits (Expr.passed^[k] (d.marked o m body)) := by
  refine Expr.all_iterate_passed (fun _ _ _ => rfl) (fun _ admitted => admitted.mapChildren _) k ?_
  unfold Definition.marked
  rw [Expr.nodes_marked rfl, List.forall_mem_map]
  exact fun y inside => .marked rfl (fun on => ⟨h.caching on, h.cacheFor⟩)
    (fun on => ⟨h.threading on, h.pool⟩) (ordinary y inside) (contained y inside)

/-- So is the entry. -/
theorem Of.admits_entry (h : r.Of o) (has : d.Has x body) (bound : Parameter) :
    r.Admits (d.entry o bound) := by
  have leaf : ∀ p, r.Admits (.parameter p) := fun p => r.admits_iff.2 ⟨rfl, List.forall_mem_nil _⟩
  unfold Definition.entry
  rw [has.argument]
  split
  next on =>
    refine r.admits_iff.2 ⟨⟨h.caching on, h.cacheFor⟩, ?_⟩
    exact List.forall_mem_cons.2 ⟨leaf _, List.forall_mem_singleton.2 (leaf _)⟩
  next =>
    refine r.admits_iff.2 ⟨rfl, ?_⟩
    exact List.forall_mem_cons.2 ⟨leaf _, List.forall_mem_singleton.2 (leaf _)⟩

end Regime

/-! ## Machines after a compilation -/

/-- A new frame at the root without variables shows nothing. -/
theorem Frames.lookup_push_root (h : Frames) (u : Nat) :
    (h.push none []).2.lookup h.frames.size u = none := by
  have here : (h.push none []).2.get? h.frames.size = some ⟨[], none⟩ := by
    rw [get?_push, if_pos rfl]
    rfl
  have nowhere : (h.push none []).2.home? h.frames.size u = none := by
    unfold home? homeFrom
    rw [here]
    rfl
  simp only [lookup, nowhere, bind, Option.bind]

/-- The frame of the new variable shows it only. -/
theorem Machine.lookup_compiled_new (m : Machine) (x bound : Parameter) (body entry : Expr)
    (context : Context) (u : Nat) :
    (m.compiled x bound body entry context).frames.lookup (m.frames.frames.size + 1) u =
      if u = bound.uid then some ⟨.closure m.functions.size, 0⟩ else none := by
  let root := (m.frames.push none []).2
  let frames := (root.push (some m.frames.frames.size) [(bound.uid, Boxed.none)]).2
  have size : root.frames.size = m.frames.frames.size + 1 := Array.size_push _
  have existing : m.frames.frames.size < root.frames.size := by omega
  have declared : frames.get? root.frames.size =
      some (Frame.ofBindings (some m.frames.frames.size) [(bound.uid, Boxed.none)]) := by
    rw [Frames.get?_push, if_pos rfl]
    simp only [Frames.existing, Option.filter, existing, decide_true, if_true]
  have assigned := Frames.assign_of_declares bound.uid declared
    (by simp [Frame.ofBindings, Frame.declares]) ⟨.closure m.functions.size, 0⟩
  have before : frames.lookup root.frames.size u =
      ((Frame.ofBindings (some m.frames.frames.size) [(bound.uid, Boxed.none)]).get? u).or none := by
    rw [Frames.lookup_push_new existing, Frames.lookup_push_root]
  have after := Frames.lookup_assign assigned u
  -- the frame declares the bound parameter only, and the frame around it nothing
  rw [before, size] at after
  refine after.trans ?_
  by_cases same : u = bound.uid
  · rw [if_pos same, if_pos same]
  · rw [if_neg same, if_neg same]
    rw [Frame.ofBindings, List.foldl_cons, List.foldl_nil, Frame.get?_set, if_neg same]
    rfl

/-- Whether a cache that is there keeps results for functions only, and for closures only that there are. -/
structure Machine.OwnsCache (m : Machine) (c : CacheId) : Prop where
  inside : c < m.caches.size
  owns : (m.cache c).Faithful fun f _ _ =>
    f.isCallable = true ∧ ∀ i, f = .closure i → i < m.functions.size

/-- An empty cache is nobody's. -/
theorem Machine.OwnsCache.empty {m : Machine} {c : CacheId} (inside : c < m.caches.size)
    (unused : m.cache c = .empty) : m.OwnsCache c where
  inside := inside
  owns := by
    rw [unused]
    refine ⟨Nat.one_pos, fun n t table => ?_⟩
    cases n with
    | zero => exact absurd table List.not_mem_nil
    | succ n => exact absurd table List.not_mem_nil

namespace Regime

variable {r : Regime} {slots : Int} {m : Machine}

/-- The function and the entry of a compilation, the latter as it is without its mark. -/
def compiled (r : Regime) (k : Nat) (entry : Expr) : Glossary := fun i =>
  if i = k then some .itself
  else if i = k + 1 then some (.function [r.recursion.argument] entry r.recursion.scope)
  else none

/-- Where a definition has been compiled, courses can be followed. -/
theorem Holds.compiled {x bound : Parameter} {tree entry : Expr}
    (recursion : r.recursion = ⟨bound.uid, x.uid, tree.uncached⟩) (admitted : r.Admits tree)
    (admitted' : r.Admits entry) (since : r.since ≤ m.frames.frames.size + 2)
    (cache : r.caching = true → m.OwnsCache r.cache)
    (pool : r.threading = true → r.Offers slots m) :
    r.Holds (r.compiled m.functions.size entry.uncached) slots
      (m.compiled x bound tree entry r.context) := by
  let after := m.compiled x bound tree entry r.context
  let σ := r.compiled m.functions.size entry.uncached
  have shows : σ.Shows r.recursion.scope (m.frames.frames.size + 1) after := by
    refine ⟨by rw [Machine.frames_compiled_size]; omega, fun u => ?_⟩
    rw [Machine.lookup_compiled_new, recursion]
    unfold Recursion.scope
    by_cases same : u = bound.uid
    · rw [if_pos same, if_pos same]
      exact .some (.closure (if_pos rfl) rfl)
    · rw [if_neg same, if_neg same]
      exact .none
  refine ⟨by rw [Machine.frames_compiled_size]; exact since, fun i s held => ?_, fun on => ?_, fun on => ?_⟩
  · unfold Regime.compiled at held
    split at held
    next own =>
      subst own
      cases held
      exact ⟨_, _, _, tree, _, rfl, by rw [recursion]; exact m.function_compiled x bound tree entry _,
        by rw [recursion], admitted, shows⟩
    next =>
      split at held
      next own =>
        subst own
        cases held
        exact ⟨_, _, _, entry, _, rfl, by rw [recursion]; exact m.entry_compiled x bound tree entry _, rfl,
          admitted', shows⟩
      next => cases held
  · obtain ⟨inside, faithful⟩ := cache on
    refine ⟨inside, faithful.mono fun f a v known => ⟨known.1, fun i closure => ?_⟩⟩
    have old := known.2 i closure
    refine ⟨by rw [Machine.functions_compiled]; simp; omega, fun s held => ?_⟩
    -- nothing is kept yet for the new closures
    unfold Regime.compiled at held
    rw [if_neg (by omega), if_neg (by omega)] at held
    cases held
  · exact (pool on).of_eq rfl rfl rfl rfl

/-- The function of a compilation is its entry, and courses can be followed. -/
theorem Holds.of_compile [Host] {d : Definition} {x : Parameter} {body : Expr} (h : d.Has x body)
    (ordinary : body.Ordinary) (contained : body.SelfContained) {o : CompileOptions} (own : r.Of o)
    {fuel : Nat} {m' : Machine} {c : Compilation} (ended : Run.compile fuel d o m = (.value c, m'))
    {b : Expr} (recursion : r.recursion = ⟨m.nextUid, x.uid, b⟩)
    (same : ∀ b', c.tree = d.program (d.bound m) b' (d.entry o (d.bound m)) → b'.uncached = b)
    (since : r.since ≤ m.frames.frames.size + 2) (cache : r.caching = true → m.OwnsCache r.cache)
    (pool : r.threading = true → r.Offers slots m) :
    r.Holds (r.compiled m.functions.size (d.entry o (d.bound m)).uncached) slots m' ∧
      c.function = ⟨.closure (m.functions.size + 1), 0⟩ := by
  obtain ⟨k, log, rfl, rfl, -⟩ := h.compile_value ended
  have holds : r.Holds (r.compiled m.functions.size (d.entry o (d.bound m)).uncached) slots
      (({ m with nextUid := m.nextUid + 1 }).compiled x (d.bound m) (Expr.passed^[k] (d.marked o m body))
        (d.entry o (d.bound m)) r.context) :=
    .compiled (m := { m with nextUid := m.nextUid + 1 }) (by rw [recursion, same _ rfl]; rfl)
      (own.admits_marked ordinary contained m k) (own.admits_entry h _) since
      (fun on => ⟨(cache on).inside, (cache on).owns⟩) fun on => (pool on).of_eq rfl rfl rfl rfl
  rw [own.context] at holds
  exact ⟨holds.later (.of_eq rfl rfl rfl rfl rfl rfl) rfl rfl rfl, rfl⟩

end Regime

end Knot
