import Knot.Proofs.Compilation
import Knot.Proofs.FirstOrder.Bodies

/-!
# Compilations of first-order definitions

A compilation leaves two closures, the marked and reduced body, to which its variable is bound, and the
entry, which calls it (`Machine.compiled`). For a first-order definition the body is what it may be
(`FirstOrderDefinition.assembled_marked`). So a compilation adds a member to a world
(`World.Holds.compile`), and calls of what it gives follow the limit of the definition
(`World.entry_runs`).
-/

namespace Knot

namespace FirstOrderDefinition

variable (d : FirstOrderDefinition)

/-- The parts of the definition. -/
def parts : Definition :=
  ⟨d.self, .parameter d.argument, d.function, [.value d.domain], .value d.codomain⟩

theorem ofExpr_tree : Definition.ofExpr d.tree = .ok d.parts := by
  have same : d.self.type = .func [.value d.domain] (.value d.codomain) := d.self_type
  simp [Definition.ofExpr, tree, function, Definition.single?, Definition.only?, Expr.type,
    Expr.parameter?, same, parts]

theorem has : d.parts.Has d.argument d.body where
  argument := rfl
  function := rfl
  params := by rw [d.argument_type]; rfl
  result := d.body_type.symm
  self := d.self_type

/-- An entry is a body as well. -/
theorem kernel_entry (o : CompileOptions) (calm : Prop) (bound : Parameter) :
    Kernel o calm bound d.argument d.domain d.codomain (d.parts.entry o bound) d.codomain := by
  unfold Definition.entry
  split
  next caching => exact .cached .argument caching
  next uncached => exact .invoke .argument (Bool.eq_false_iff.2 uncached)

/-- What it answers is what the call answers. -/
theorem meaning_entry (o : CompileOptions) (bound : Parameter) (call : Value → Partial) (a : Value) :
    (d.parts.entry o bound).meaning call a = call a := by
  unfold Definition.entry
  split <;> rfl

/-- A body as a compilation with the variable `bound` makes it. -/
structure Assembled (o : CompileOptions) (bound : Parameter) (body : Expr) : Prop where
  kernel : Kernel o (d.body.connectsNoCalls = true) bound d.argument d.domain d.codomain body d.codomain
  meaning : SameMeaning d.domain d.codomain body d.body

variable {d}

/-- It stays so in any number of passes. -/
theorem Assembled.iterate_passed {o : CompileOptions} {bound : Parameter} {body : Expr}
    (h : d.Assembled o bound body) (k : Nat) : d.Assembled o bound (Expr.passed^[k] body) := by
  obtain ⟨kernel, same⟩ := h.kernel.iterate_passed d.argument_type k
  exact ⟨kernel, same.trans h.meaning⟩

/-- The marked body is one. -/
theorem assembled_marked (o : CompileOptions) (m : Machine) :
    d.Assembled o (d.parts.bound m) (d.parts.marked o m d.body) := by
  let r := d.parts.substitution (d.parts.bound m) o m.settings.allowImpure.truthy
  have replacement : r.replacement = .parameter (d.parts.bound m) := rfl
  have caching : r.caching = o.caching := rfl
  obtain ⟨kernel, same, -⟩ := d.kernel.marked rfl replacement caching rfl rfl rfl d.has.apart id
  exact ⟨kernel, fun call _ a _ => same call a⟩

end FirstOrderDefinition

/-! ## Worlds -/

/-- The machine after a compilation is a later one. -/
theorem Machine.later_compiled (m : Machine) (x bound : Parameter) (body entry : Expr)
    (context : Context) : Later m (m.compiled x bound body entry context) where
  functions k c found := by
    rw [m.getElem?_compiled x bound body entry context (Array.getElem?_eq_some_iff.1 found).1]
    exact found
  frames := by
    rw [frames_compiled_size]
    omega
  lookup f old u := m.lookup_compiled x bound body entry context old u
  caches _ := .refl _
  settings := rfl
  workers _ := rfl

/-- So it is when the variable has been counted, and messages have been logged. -/
theorem Machine.later_compilation (m : Machine) (x bound : Parameter) (body entry : Expr)
    (context : Context) (log : Array String) :
    Later m { ({ m with nextUid := m.nextUid + 1 } : Machine).compiled x bound body entry context with
      log := log } := by
  let started : Machine := { m with nextUid := m.nextUid + 1 }
  have counted : Later m started :=
    ⟨fun _ _ => id, Nat.le_refl _, fun _ _ _ => rfl, fun _ => .refl _, rfl, fun _ => rfl⟩
  have compiled := started.later_compiled x bound body entry context
  exact (counted.trans compiled).trans (.log (started.compiled x bound body entry context) log)

/-- A closure that calls the closure of a compiled definition, in the same frame. -/
def Installed.EntryAt {o : CompileOptions} (i : Installed o) (id : Nat) (m : Machine) : Prop :=
  m.functions[id]? = some (.closure [i.definition.argument.uid] (i.definition.parts.entry o i.bound)
    i.frame o.context)

theorem Installed.EntryAt.later {o : CompileOptions} {i : Installed o} {id : Nat} {m m' : Machine}
    (h : i.EntryAt id m) (later : Later m m') : i.EntryAt id m' := later.functions _ _ h

namespace World

variable {w : World}

/-- A world with one more member. -/
def add (w : World) (i : Installed w.options) : World := ⟨w.options, i :: w.members⟩

/-- A closure that is none of those of the members can become one. -/
theorem Holds.add {m : Machine} (h : w.Holds m) {i : Installed w.options} (new : i.In m)
    (other : ∀ j ∈ w.members, j.closure ≠ i.closure) : (w.add i).Holds m where
  installed := List.forall_mem_cons.2 ⟨new, h.installed⟩
  distinct := by
    rintro j (_ | ⟨_, member⟩) k (_ | ⟨_, member'⟩) same
    · rfl
    · exact absurd same.symm (other k member')
    · exact absurd same (other j member)
    · exact h.distinct j member k member' same
  cache caching := by
    obtain ⟨c, named, inside, sound⟩ := h.cache caching
    refine ⟨c, named, inside, sound.mono ?_⟩
    rintro k a r ⟨j, member, answer⟩
    exact ⟨j, List.mem_cons_of_mem _ member, answer⟩
  pool := h.pool

/-- A compilation adds a member to a world, and yields an entry to it. -/
theorem Holds.compile [Host] {d : FirstOrderDefinition} {fuel : Nat} {m m' : Machine} {c : Compilation}
    (h : w.Holds m) (fresh : d.argument.uid ≠ m.nextUid)
    (compiled : Run.compile fuel d.parts w.options m = (.value c, m')) :
    ∃ i : Installed w.options, i.definition = d ∧ (w.add i).Holds m' ∧ Later m m' ∧
      ∃ id, c.function.value = .closure id ∧ i.EntryAt id m' := by
  obtain ⟨passes, log, rfl, rfl, -⟩ := d.has.compile_value compiled
  let bound := d.parts.bound m
  let body := Expr.passed^[passes] (d.parts.marked w.options m d.body)
  let entry := d.parts.entry w.options bound
  let started : Machine := { m with nextUid := m.nextUid + 1 }
  obtain ⟨kernel, meaning⟩ := (d.assembled_marked w.options m).iterate_passed passes
  let i : Installed w.options :=
    ⟨d, bound, m.functions.size, m.frames.frames.size + 1, body, fresh, kernel, meaning⟩
  have later := m.later_compilation d.argument bound body entry w.options.context log
  have function := started.function_compiled d.argument bound body entry w.options.context
  have inside := started.frames_compiled_size d.argument bound body entry w.options.context
  have named := Frames.lookup_of_get? (started.bound_compiled d.argument bound body entry w.options.context)
  have placed : i.In { started.compiled d.argument bound body entry w.options.context with log := log } :=
    ⟨function, inside ▸ Nat.lt_succ_self _, _, named, rfl⟩
  -- the number of the new closure is not that of an old one
  have other : ∀ j ∈ w.members, j.closure ≠ m.functions.size := fun j member =>
    Nat.ne_of_lt (Array.getElem?_eq_some_iff.1 (h.installed j member).function).1
  exact ⟨i, rfl, (h.later later rfl rfl).add placed other, later, _, rfl,
    started.entry_compiled d.argument bound body entry w.options.context⟩

/-- A call of an entry follows the limit of the definition. -/
theorem entry_runs [Host] {i : Installed w.options} (member : i ∈ w.members) (fuel : Nat) {id : Nat}
    {function argument : Boxed} {m : Machine} (closure : function.value = .closure id)
    (entry : i.EntryAt id m) (typed : argument.value.hasType i.definition.domain = true)
    (h : w.Holds m) :
    w.Runs (Follows (w.options.threading = false)
        (w.options.threading = false ∨ i.definition.body.connectsNoCalls = true)
        (i.definition.limit argument.value) (i.definition.approx fuel argument.value))
      (Run.call (fuel + 1) function [argument]) m := by
  have interprets := Interprets.of_calls (w := w) (i := i)
    fun function argument m closure typed holds => call_runs member fuel closure typed holds
  have run := closure_runs member interprets (i.definition.kernel_entry _ _ _) closure entry typed h
  rw [i.definition.meaning_entry, i.definition.meaning_entry] at run
  exact run

end World

end Knot
