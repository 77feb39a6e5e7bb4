import Knot.Proofs.Binding.Evaluation
import Knot.Proofs.Compilation
import Knot.Proofs.Reachability
import Knot.Proofs.Renaming.Substitution

/-!
# The variable of a compiled function

The variable that a compilation binds to a function keeps the closure that it is bound to, whatever is
called afterwards, if the function does not assign to its own name (`Built.build_binds`). So all recursive
calls go to one function, and a memo cache knows the function by one key. The builders admit such an
assignment, and then a call can bind the variable anew (`rebound_by_call`).
-/

namespace Knot

/-- A machine evolves by calls, and by what leaves frames and functions alone, such as a reset of a cache. -/
def Machine.Evolves [Host] (m m' : Machine) : Prop :=
  m.LeadsTo (fun m m' => m'.functions = m.functions ∧ m'.frames = m.frames) m'

/-- A binding holds on. -/
theorem Binding.Holds.evolves [Host] [Host.IsApart] {b : Binding} {m m' : Machine} (h : b.Holds m)
    (evolves : m.Evolves m') : m.Extends m' ∧ b.Holds m' := by
  refine Machine.LeadsTo.keeps (I := fun m' => m.Extends m' ∧ b.Holds m') evolves ⟨.refl m, h⟩
    (fun m₁ fuel f args so => ?_) fun m₁ m₂ same so => ?_
  · obtain ⟨later, holds⟩ := so
    obtain ⟨grown, kept⟩ := Run.Keeps.call fuel m f args m₁ later holds
    exact ⟨later.trans grown, kept⟩
  · obtain ⟨later, holds⟩ := so
    obtain ⟨functions, frames⟩ := same
    exact ⟨later.trans (.of_eq functions frames), holds.of_eq functions frames⟩

/-! ## The machine after a compilation -/

namespace Machine

variable {m : Machine} {x bound : Parameter} {body entry : Expr} {context : Context}

/-- A binding that no function could change before holds after a compilation of a body that assigns to
other variables. -/
theorem Placed.holds_compiled (placed : m.Placed) (spared : body.Spares (·.uid = bound.uid))
    (calls : entry.Spares (·.uid = bound.uid)) :
    (Binding.mk (m.frames.frames.size + 1) bound.uid ⟨.closure m.functions.size, 0⟩).Holds
      (m.compiled x bound body entry context) := by
  refine ⟨bound_compiled _ _ _ _ _ _, fun c member => ?_⟩
  rw [functions_compiled] at member
  have inside : m.frames.frames.size + 1 <
      (m.compiled x bound body entry context).frames.frames.size := by
    rw [frames_compiled_size]
    exact Nat.lt_succ_self _
  rcases Array.mem_push.1 member with before | rfl
  · rcases Array.mem_push.1 before with old | rfl
    · cases c with
      | closure ps other frame around =>
        have older : frame < m.frames.frames.size := placed ps other frame around old
        refine ⟨Nat.lt_trans (Nat.lt_succ_of_lt older) inside, fun _ seen => ?_⟩
        -- from an older frame no newer one is seen
        have above : m.frames.frames.size + 1 ≤ frame := Frames.homeFrom_le seen
        exact absurd older (Nat.not_lt_of_le (Nat.le_of_succ_le above))
      | _ => trivial
    · exact ⟨inside, fun _ _ => spared⟩
  · exact ⟨inside, fun _ _ => calls⟩

end Machine

namespace Definition.Has

variable {d : Definition} {x : Parameter} {body : Expr} (h : d.Has x body)
include h

/-- The entry assigns to nothing. -/
theorem entry_spares (o : CompileOptions) (bound : Parameter) (T : Parameter → Prop) :
    (d.entry o bound).Spares T := by
  have leaf (y : Parameter) : (Expr.parameter y).Spares T :=
    .node (by rintro z ⟨⟩) (List.forall_mem_nil _)
  have both : ∀ c ∈ [Expr.parameter bound, .parameter x], c.Spares T :=
    List.forall_mem_cons.2 ⟨leaf bound, List.forall_mem_singleton.2 (leaf x)⟩
  unfold Definition.entry
  rw [h.argument]
  split
  · exact .node (by rintro z ⟨⟩) both
  · exact .node (by rintro z ⟨⟩) both

/-- What is compiled of a function that does not assign to its own name does not assign to the variable
that is bound to it. -/
theorem compiled_spares (spared : d.function.Spares (· = d.self)) (typed : d.function.WellTyped)
    {m : Machine} (fresh : ∀ y ∈ d.function.vars, y.uid ≠ m.nextUid) (o : CompileOptions) (k : Nat) :
    (Expr.passed^[k] (d.marked o m body)).Spares (·.uid = m.nextUid) := by
  rw [h.function] at spared typed fresh
  have part : body ∈ (Expr.lambda [.parameter x] body d.type).parts :=
    List.mem_append_right _ List.mem_cons_self
  have own : body.Spares (· = d.self) := by
    rcases spared.body with ⟨y, declared, same⟩ | free
    · cases List.mem_singleton.1 declared
      exact absurd same h.apart
    · exact free
  have new : ∀ y ∈ body.vars, y.uid ≠ m.nextUid := fun y occurs =>
    fresh y (Expr.mem_vars_of_nodes (fun z => Expr.mem_nodes_of_part part) y occurs)
  let r := d.substitution (d.bound m) o m.settings.allowImpure.truthy
  have marked : (body.marked r).Spares (·.uid = m.nextUid) := own.marked (q := d.bound m) rfl rfl new
  have checked : (body.marked r).WellTyped := Expr.WellTyped.marked (p := d.self) (q := d.bound m) rfl rfl
    rfl ((Expr.wellTyped_iff.1 typed).2 body part)
  exact marked.iterate_passed checked k

/-- After its compilation the variable is bound to the function, and no function can change that. -/
theorem compile_holds [Host] (spared : d.function.Spares (· = d.self)) (typed : d.function.WellTyped)
    {m m' : Machine} (placed : m.Placed) (fresh : ∀ y ∈ d.function.vars, y.uid ≠ m.nextUid)
    {o : CompileOptions} {fuel : Nat} {c : Compilation}
    (compiled : Run.compile fuel d o m = (.value c, m')) :
    (Binding.mk (m.frames.frames.size + 1) m.nextUid ⟨.closure m.functions.size, 0⟩).Holds m' ∧
      ∃ b context, m'.functions[m.functions.size]? =
          some (.closure [x.uid] b (m.frames.frames.size + 1) context) ∧
        m'.functions[m.functions.size + 1]? =
          some (.closure [x.uid] (d.entry o (d.bound m)) (m.frames.frames.size + 1) context) ∧
        c.function = ⟨.closure (m.functions.size + 1), 0⟩ := by
  obtain ⟨k, log, rfl, rfl, -⟩ := h.compile_value compiled
  let body' := Expr.passed^[k] (d.marked o m body)
  let started : Machine := { m with nextUid := m.nextUid + 1 }
  have begun : started.Placed := placed
  have free : body'.Spares (·.uid = (d.bound m).uid) := h.compiled_spares spared typed fresh o k
  have holds : (Binding.mk (m.frames.frames.size + 1) m.nextUid ⟨.closure m.functions.size, 0⟩).Holds
      (started.compiled x (d.bound m) body' (d.entry o (d.bound m)) ⟨o.cache, o.pool⟩) :=
    begun.holds_compiled free (h.entry_spares o _ _)
  exact ⟨holds.of_eq rfl rfl, body', ⟨o.cache, o.pool⟩,
    started.function_compiled x (d.bound m) body' (d.entry o (d.bound m)) ⟨o.cache, o.pool⟩,
    started.entry_compiled x (d.bound m) body' (d.entry o (d.bound m)) ⟨o.cache, o.pool⟩, rfl⟩

end Definition.Has

/-! ## Building -/

/-- A function that is built from a definition that does not assign to its own name keeps its identity: in
every machine that is reached after the build by calls of whatever functions, the variable of the
recursive calls has the closure that the build has bound it to, wherever it is seen. -/
theorem Built.build_binds [Host] [Host.IsApart] {e : Expr} (built : Built e) {d : Definition}
    (accepted : Definition.ofExpr e = .ok d) (spared : d.function.Spares (· = d.self))
    {m m' : Machine} (placed : m.Placed) (fresh : ∀ y ∈ e.vars, y.uid ≠ m.nextUid) {fuel : Nat}
    {caching threading : Bool} {cache : Option CacheId} {pool : Option PoolId} {c : Compilation}
    (ended : Run.build fuel e caching threading cache pool m = (.value c, m')) :
    ∃ params body frame context id, ∀ m'', m'.Evolves m'' →
      m''.functions[id]? = some (.closure params body frame context) ∧
      m''.recursive? c.function = some ⟨.closure id, 0⟩ ∧
      ∀ g, m''.frames.home? g m.nextUid = some frame →
        m''.frames.lookup g m.nextUid = some ⟨.closure id, 0⟩ := by
  obtain ⟨shape, x, body, h⟩ := Definition.has_of_ofExpr built accepted
  have within := Definition.nodes_function shape
  obtain ⟨compilation, before, compiled, rfl, rfl⟩ := Run.compile_of_build accepted ended
  obtain ⟨holds, b, context, function, entry, same⟩ :=
    h.compile_holds spared (fun y inside => built.wellTyped y (within y inside)) placed
      (fun y occurs => fresh y (Expr.mem_vars_of_nodes within y occurs)) compiled
  have added := Machine.Extends.addFunction before (.wrapper compilation.function)
  have wrapped := holds.addFunction (c := .wrapper compilation.function) trivial
  refine ⟨[x.uid], b, m.frames.frames.size + 1, context, m.functions.size, fun m'' evolves => ?_⟩
  obtain ⟨later, bound⟩ := wrapped.evolves evolves
  have grown := added.trans later
  have around := later.functions before.functions.size _ Array.getElem?_push_size
  refine ⟨grown.functions _ _ function, ?_, fun g seen => bound.lookup seen⟩
  rw [Machine.recursive?_eq rfl around (congrArg Boxed.value same) (grown.functions _ _ entry)
    (d.callee?_entry _ _)]
  exact bound.lookup bound.seen

/-! ## Names that are assigned to -/

/-- The function whose value is its argument. -/
def identityFunction : Expr :=
  let y : Parameter := ⟨"y", .value .int32, 3⟩
  .lambda [.parameter y] (.parameter y) Recursive.self.type

theorem built_identityFunction : Built identityFunction :=
  .lambda (.parameter _) (Build.lambda_eq_ok.2 ⟨rfl, by simp⟩)

/-- A function that gives its own name another value, and then ends in an expression. -/
def renouncing (last : Expr) : Expr :=
  .block [] [.binary .assign (.parameter Recursive.self) identityFunction Recursive.self.type, last]
    (.value .int32)

theorem built_renouncing {last : Expr} (built : Built last) : Built (renouncing last) := by
  have assignment :
      Built (.binary .assign (.parameter Recursive.self) identityFunction Recursive.self.type) :=
    @Built.binary .assign _ _ _ (.parameter Recursive.self) built_identityFunction rfl
  exact .block [] (List.forall_mem_cons.2 ⟨assignment, List.forall_mem_singleton.2 built⟩)
    (some (.value .int32))

/-- A call of a function that has a parameter of the name of the function that is defined, and assigns to
that parameter before it calls it. -/
def shadowingCall : Expr :=
  let call : Expr := .invoke (.parameter Recursive.self) [.parameter Recursive.argument] (.value .int32)
  .invoke (.lambda [.parameter Recursive.self] (renouncing call)
    (.func [Recursive.self.type] (.value .int32))) [.parameter Recursive.self] (.value .int32)

theorem built_shadowingCall : Built shadowingCall := by
  have call : Built (.invoke (.parameter Recursive.self) [.parameter Recursive.argument] (.value .int32)) :=
    .invoke (.parameter Recursive.self) (List.forall_mem_singleton.2 (.parameter Recursive.argument)) rfl
  have function : Built (.lambda [.parameter Recursive.self] (renouncing
      (.invoke (.parameter Recursive.self) [.parameter Recursive.argument] (.value .int32)))
      (.func [Recursive.self.type] (.value .int32))) :=
    .lambda (built_renouncing call) (Build.lambda_eq_ok.2 ⟨rfl, by simp⟩)
  exact .invoke function (List.forall_mem_singleton.2 (.parameter Recursive.self)) rfl

theorem spares_shadowingCall : shadowingCall.Spares (· = Recursive.self) := by
  have name : (Expr.parameter Recursive.self).Spares (· = Recursive.self) :=
    .node (by rintro z ⟨⟩) (List.forall_mem_nil _)
  refine .node (by rintro z ⟨⟩) (List.forall_mem_cons.2 ⟨?_, List.forall_mem_singleton.2 name⟩)
  exact .bound List.mem_cons_self rfl

/-- A machine on which nothing has happened but that the variables of a definition have numbers. -/
def Recursive.machine : Machine := { Machine.initial 1 with nextUid := 4 }

/-- The function that assigns only to a parameter of its own name's name keeps its identity. -/
theorem Built.build_binds_shadowing : ∃ c m',
    Run.build 1 (defining shadowingCall) true true none none Recursive.machine = (.value c, m') ∧
      ∃ params body frame context id, ∀ m'', m'.Evolves m'' →
        m''.functions[id]? = some (.closure params body frame context) ∧
        m''.recursive? c.function = some ⟨.closure id, 0⟩ ∧
        ∀ g, m''.frames.home? g 4 = some frame → m''.frames.lookup g 4 = some ⟨.closure id, 0⟩ := by
  have built : Built (defining shadowingCall) := built_defining built_shadowingCall rfl
  obtain ⟨c, m', ended⟩ := Run.value_of_isValue (m := Recursive.machine)
    (x := Run.build 1 (defining shadowingCall) true true none none) (by decide +kernel)
  refine ⟨c, m', ended, built.build_binds rfl ?_ ?_ ?_ ended⟩
  · exact .node (by rintro z ⟨⟩) (List.forall_mem_singleton.2 spares_shadowingCall)
  · intro ps body frame context inside
    exact absurd inside (Array.not_mem_empty _)
  · simp [Expr.vars, defining, shadowingCall, renouncing, identityFunction, Recursive.self,
      Recursive.argument, Recursive.machine, Expr.nodes_eq, Expr.parts, Expr.children]

/-- The function whose value is one more than its argument, and that gives its own name another value. -/
def renouncingSuccessor : Expr :=
  let one : Expr := .constant ⟨.scalar (.wrapped ⟨true, .w32⟩ 1), 0⟩ (.value .int32)
  renouncing (.binary .add (.parameter Recursive.argument) one (.value .int32))

theorem built_renouncingSuccessor : Built renouncingSuccessor := by
  have one : Built (.constant ⟨.scalar (.wrapped ⟨true, .w32⟩ 1), 0⟩ (.value .int32)) :=
    @Built.constant ⟨.scalar (.wrapped ⟨true, .w32⟩ 1), 0⟩ none _ rfl
  exact built_renouncing (@Built.binary .add _ _ _ (.parameter Recursive.argument) one rfl)

/-- The closure that a value is. -/
def Boxed.closure? : Boxed → Option Nat
  | ⟨.closure id, 0⟩ => some id
  | _ => Option.none

theorem Boxed.closure?_eq_some {b : Boxed} {id : Nat} (h : b.closure? = some id) :
    b = ⟨.closure id, 0⟩ := by
  unfold closure? at h
  split at h
  next => cases h; rfl
  next => cases h

/-- Whether the build of a definition succeeds, its recursive calls go to the first closure, and after a call
of what was built to the fourth. -/
def rebinds (e : Expr) (argument : Boxed) : Bool :=
  match Run.build 1 e false false none none Recursive.machine with
  | (.value c, m) => decide (((m.recursive? c.function).bind Boxed.closure? = some 0) ∧
      ((Run.call 4 c.function [argument] m).2.recursive? c.function).bind Boxed.closure? = some 3)
  | _ => false

/-- A call of a function that assigns to its own name binds the name anew. -/
theorem rebound_by_call : Built (defining renouncingSuccessor) ∧ ∃ c m,
    Run.build 1 (defining renouncingSuccessor) false false none none Recursive.machine = (.value c, m) ∧
      m.recursive? c.function = some ⟨.closure 0, 0⟩ ∧
      (Run.call 4 c.function [⟨.scalar (.wrapped ⟨true, .w32⟩ 5), 0⟩] m).2.recursive? c.function =
        some ⟨.closure 3, 0⟩ := by
  refine ⟨built_defining built_renouncingSuccessor rfl, ?_⟩
  have checked : rebinds (defining renouncingSuccessor) ⟨.scalar (.wrapped ⟨true, .w32⟩ 5), 0⟩ = true := by
    decide +kernel
  unfold rebinds at checked
  split at checked
  next c m ended =>
    obtain ⟨before, after⟩ := of_decide_eq_true checked
    obtain ⟨b, found, first⟩ := Option.bind_eq_some_iff.1 before
    obtain ⟨b', found', last⟩ := Option.bind_eq_some_iff.1 after
    rw [Boxed.closure?_eq_some first] at found
    rw [Boxed.closure?_eq_some last] at found'
    exact ⟨c, m, ended, found, found'⟩
  next => cases checked

end Knot
