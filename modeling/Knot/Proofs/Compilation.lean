import Knot.Definition
import Knot.Proofs.Scopes
import Knot.Proofs.Typing

/-!
# Compilations

What `Run.compile` makes of a definition that is built by the builders. The tree that it evaluates binds a
variable to the function and yields an entry, a function that calls the variable
(`Definition.program`); substitution and reduction change only the two bodies in it. Its evaluation
leaves two closures in a new frame that binds the variable to the first of them (`Machine.compiled`),
so it never fails. What can fail is the substitution, where purity is asked for, and the messages
(`Definition.Has.compile_value`).
-/

namespace Knot

namespace Definition

/-! ## Definitions taken apart -/

/-- The type of the function that is defined. -/
def type (d : Definition) : StaticType := .func d.params d.result

/-- Whether a definition is that of `(x) => body`, and its own parameter has the type of the function. -/
structure Has (d : Definition) (x : Parameter) (body : Expr) : Prop where
  argument : d.argument = .parameter x
  function : d.function = .lambda [.parameter x] body d.type
  params : d.params = [x.type]
  result : d.result = body.type
  self : d.self.type = d.type

theorem single?_eq_some {e a b : Expr} (h : single? e = some (a, b)) :
    ∃ t, e = .lambda [a] b t := by
  unfold single? at h
  split at h
  next ps body t =>
    match ps, h with
    | [p], h =>
      cases h
      exact ⟨t, rfl⟩
  next => cases h

/-- An accepted definition that is built is that of a function of a variable. -/
theorem has_of_ofExpr {e : Expr} (built : Built e) {d : Definition} (accepted : ofExpr e = .ok d) :
    e = .lambda [.parameter d.self] d.function e.type ∧ ∃ x body, d.Has x body := by
  unfold ofExpr at accepted
  split at accepted
  next => exact absurd accepted Build.refuse_ne_ok
  next self function outer =>
    obtain ⟨t, rfl⟩ := single?_eq_some outer
    split at accepted
    next => exact absurd accepted Build.refuse_ne_ok
    next argument body inner =>
      obtain ⟨t', rfl⟩ := single?_eq_some inner
      have typed := (Expr.wellTyped_iff.1 built.wellTyped).2 _ (List.mem_append_right _ List.mem_cons_self)
      -- the builder has checked the argument; that the outer parameter is one is checked here
      obtain ⟨rfl, named⟩ := Build.lambda_eq_ok.1 (Expr.wellTyped_iff.1 typed).1
      obtain ⟨x, rfl⟩ := named argument List.mem_cons_self
      split at accepted
      next params result signature =>
        cases signature
        split at accepted
        next same =>
          cases self with
          | parameter q =>
            cases accepted
            exact ⟨rfl, x, body, rfl, rfl, rfl, rfl, same⟩
          | _ => cases accepted
        next => exact absurd accepted Build.refuse_ne_ok
      next other => exact absurd rfl (other _ _)

section

variable {d : Definition} {x : Parameter} {body : Expr}

/-- What is in the function that is defined is in the definition. -/
theorem nodes_function {e : Expr} {self : Expr} {t : StaticType} {d : Definition}
    (shape : e = .lambda [self] d.function t) : ∀ y ∈ d.function.nodes, y ∈ e.nodes := by
  subst shape
  exact fun y => Expr.mem_nodes_of_part (List.mem_append_right _ List.mem_cons_self)

/-- A function type is none of its own parameters. -/
theorem Has.apart (h : d.Has x body) : x ≠ d.self := by
  rintro rfl
  have typed := h.self
  rw [type, h.params] at typed
  have size := congrArg sizeOf typed
  simp only [StaticType.func.sizeOf_spec, List.cons.sizeOf_spec, List.nil.sizeOf_spec] at size
  omega

end

/-! ## The tree that is evaluated -/

section

variable (d : Definition)

/-- The tree that binds a variable to the function, over the given body, and yields an entry. -/
def program (bound : Parameter) (body entry : Expr) : Expr :=
  .block [bound]
    [.binary .assign (.parameter bound) (.lambda [d.argument] body d.type) d.type,
      .lambda [d.argument] entry d.type] d.type

/-- The body of an entry: the call of a variable on the argument, cached or not. -/
def entry (o : CompileOptions) (bound : Parameter) : Expr :=
  if o.caching then .cached (.parameter bound) d.argument d.result o.cache
  else .invoke (.parameter bound) [d.argument] d.result

/-- A pass over the tree is a pass over the body and one over the entry. -/
theorem passed_program (bound : Parameter) (body entry : Expr) :
    (d.program bound body entry).passed = d.program bound body.passed entry.passed := by
  have assignment : (Expr.binary .assign (.parameter bound)
      (.lambda [d.argument] body d.type) d.type).passed =
      .binary .assign (.parameter bound) (.lambda [d.argument] body.passed d.type) d.type := by
    simp only [Expr.passed_eq (.binary _ _ _ _), Expr.passed_eq (.parameter _),
      Expr.passed_eq (.lambda _ _ _), Expr.mapChildren]
    rfl
  have function : (Expr.lambda [d.argument] entry d.type).passed =
      .lambda [d.argument] entry.passed d.type := by
    simp only [Expr.passed_eq (.lambda _ _ _), Expr.mapChildren]
    rfl
  unfold program
  rw [Expr.passed_eq]
  simp only [Expr.mapChildren, List.map_cons, List.map_nil, assignment, function]
  rfl

theorem iterate_passed_program (k : Nat) : ∀ (bound : Parameter) (body entry : Expr),
    Expr.passed^[k] (d.program bound body entry) =
      d.program bound (Expr.passed^[k] body) (Expr.passed^[k] entry) := by
  induction k with
  | zero => intro bound body entry; rfl
  | succ k ih =>
    intro bound body entry
    simp only [Function.iterate_succ_apply, passed_program, ih]

theorem iterate_passed_entry {x : Parameter} {body : Expr} (h : d.Has x body) (o : CompileOptions)
    (bound : Parameter) (k : Nat) : Expr.passed^[k] (d.entry o bound) = d.entry o bound := by
  have kept : (d.entry o bound).passed = d.entry o bound := by
    unfold entry
    rw [h.argument]
    split <;> rfl
  induction k with
  | zero => rfl
  | succ k ih => rw [Function.iterate_succ_apply, kept, ih]

end

/-! ## Assembling -/

section

variable {d : Definition} {x : Parameter} {body : Expr}

/-- The substitution leaves the variable of the function, and gives its body marks. -/
theorem Has.marked_function (h : d.Has x body) (bound : Parameter) (o : CompileOptions)
    (allowImpure : Bool) :
    d.function.marked (d.substitution bound o allowImpure) =
      .lambda [d.argument] (body.marked (d.substitution bound o allowImpure)) d.type := by
  have other : ¬ (d.substitution bound o allowImpure).placeholder.parameter? = some x :=
    fun found => h.apart (Option.some.inj found).symm
  rw [h.function, h.argument]
  simp only [Expr.marked, Expr.markedAll]
  rw [if_neg other]

/-- It makes the entry of the call of the new variable. -/
theorem Has.marked_direct (h : d.Has x body) (bound : Parameter) (o : CompileOptions)
    (allowImpure : Bool) :
    (Expr.invoke (.parameter bound) [d.argument] d.result).marked (d.substitution bound o allowImpure) =
      d.entry o bound := by
  have other : ¬ (d.substitution bound o allowImpure).placeholder.parameter? = some x :=
    fun found => h.apart (Option.some.inj found).symm
  have callee : (Expr.parameter bound).marked (d.substitution bound o allowImpure) =
      .parameter bound := by
    rw [Expr.marked]
    split <;> rfl
  rw [h.argument, Expr.marked, callee, Expr.marked, if_neg other, entry, h.argument]
  rfl

/-- The call of a variable of the type of the function on the argument is checked. -/
theorem Has.direct_eq (h : d.Has x body) {bound : Parameter} (typed : bound.type = d.self.type) :
    Build.invoke (.parameter bound) [d.argument] =
      .ok (.invoke (.parameter bound) [d.argument] d.result) := by
  have callable : (Expr.parameter bound).type = .func [x.type] d.result := by
    rw [Expr.type, typed, h.self, type, h.params]
  refine Build.invoke_eq_ok.2 ⟨[x.type], .inl callable, rfl, ?_⟩
  simp [Build.misfit?, h.argument, Expr.type, StaticType.assignable_refl]

theorem Has.built_direct (h : d.Has x body) {bound : Parameter} (typed : bound.type = d.self.type) :
    Built (.invoke (.parameter bound) [d.argument] d.result) := by
  refine .invoke (.parameter bound) (List.forall_mem_singleton.2 ?_) (h.direct_eq typed)
  rw [h.argument]
  exact .parameter x

/-- The entry is a function of the type of the function. -/
theorem Has.entry_eq (h : d.Has x body) (o : CompileOptions) (bound : Parameter) :
    Build.lambda [d.argument] (d.entry o bound) = .ok (.lambda [d.argument] (d.entry o bound) d.type) := by
  have result : (d.entry o bound).type = d.result := by
    unfold entry
    split <;> rfl
  refine Build.lambda_eq_ok.2 ⟨?_, by simp [h.argument]⟩
  rw [result, type, h.params, h.argument]
  rfl

/-- A variable of the type of the function can be bound to it. -/
theorem Has.binding_eq (h : d.Has x body) {bound : Parameter} (typed : bound.type = d.self.type)
    (b : Expr) :
    Build.assign (.parameter bound) (.lambda [d.argument] b d.type) =
      .ok (.binary .assign (.parameter bound) (.lambda [d.argument] b d.type) d.type) := by
  have same : bound.type = d.type := typed.trans h.self
  have fits : bound.type.assignable (Expr.lambda [d.argument] b d.type).type = true := by
    rw [same]
    exact StaticType.assignable_refl _
  rw [Build.assign, if_pos fits, same]

/-- A compilation is assembled whenever the substitution in the function is not refused. -/
theorem Has.assemble_eq (h : d.Has x body) {bound : Parameter} (typed : bound.type = d.self.type)
    (o : CompileOptions) (allowImpure : Bool) {tally : Tally SubstitutionCount}
    (substituted : d.function.substitute (d.substitution bound o allowImpure) =
      .ok (d.function.marked (d.substitution bound o allowImpure), tally)) :
    ∃ tally', d.assemble bound o allowImpure =
      .ok (d.program bound (body.marked (d.substitution bound o allowImpure)) (d.entry o bound),
        tally') := by
  let r := d.substitution bound o allowImpure
  have admitted : ∀ y ∈ (Expr.invoke (.parameter bound) [d.argument] d.result).nodes, r.Admits y := by
    rw [h.argument]
    simp [Expr.nodes_eq, Expr.parts, Expr.children, Substitution.Admits]
  obtain ⟨tally', marked, -⟩ := @Substitution.does_visit_of_admits r d.self rfl _
    (h.built_direct typed).ordinary admitted tally
  rw [h.marked_direct] at marked
  rw [h.marked_function] at substituted
  exact ⟨tally', Except.bind_eq_ok.2 ⟨_, substituted, Except.bind_eq_ok.2 ⟨_, h.direct_eq typed,
    Except.bind_eq_ok.2 ⟨_, marked, Except.bind_eq_ok.2 ⟨_, h.binding_eq typed _,
      Except.bind_eq_ok.2 ⟨_, h.entry_eq o bound, rfl⟩⟩⟩⟩⟩⟩

/-- What is assembled is the expected tree. -/
theorem Has.assemble_only (h : d.Has x body) {bound : Parameter} (typed : bound.type = d.self.type)
    {o : CompileOptions} {allowImpure : Bool} {tree : Expr} {tally : Tally SubstitutionCount}
    (assembled : d.assemble bound o allowImpure = .ok (tree, tally)) :
    tree = d.program bound (body.marked (d.substitution bound o allowImpure)) (d.entry o bound) := by
  obtain ⟨⟨function, counted⟩, substituted, -⟩ := Except.bind_eq_ok.1 assembled
  obtain rfl : function = d.function.marked (d.substitution bound o allowImpure) :=
    Substitution.only_visit (r := d.substitution bound o allowImpure) (p := d.self) rfl substituted
  obtain ⟨tally', expected⟩ := h.assemble_eq typed o allowImpure substituted
  cases expected.symm.trans assembled
  rfl

end

end Definition

/-! ## Evaluating -/

/-- A machine after the tree of a compilation has been evaluated: a new frame binds a variable to the first
of two new closures, whose bodies are given. -/
def Machine.compiled (m : Machine) (x bound : Parameter) (body entry : Expr) (context : Context) :
    Machine :=
  let root := m.frames.frames.size
  let frames := ((m.frames.push none []).2.push (some root) [(bound.uid, Boxed.none)]).2
  { m with
    functions := (m.functions.push (.closure [x.uid] body (root + 1) context)).push
      (.closure [x.uid] entry (root + 1) context)
    frames := frames.set (root + 1) bound.uid ⟨.closure m.functions.size, 0⟩ }

namespace Machine

variable (m : Machine) (x bound : Parameter) (body entry : Expr) (context : Context)

theorem functions_compiled : (m.compiled x bound body entry context).functions =
    (m.functions.push (.closure [x.uid] body (m.frames.frames.size + 1) context)).push
      (.closure [x.uid] entry (m.frames.frames.size + 1) context) := rfl

/-- The function and the entry are the last two closures. -/
theorem function_compiled : (m.compiled x bound body entry context).functions[m.functions.size]? =
    some (.closure [x.uid] body (m.frames.frames.size + 1) context) := by
  rw [functions_compiled, Array.getElem?_push_lt (by simp)]
  simp

theorem entry_compiled : (m.compiled x bound body entry context).functions[m.functions.size + 1]? =
    some (.closure [x.uid] entry (m.frames.frames.size + 1) context) := by
  rw [functions_compiled, Array.getElem?_push, if_pos (by simp)]

/-- Two frames are new. -/
theorem frames_compiled_size :
    (m.compiled x bound body entry context).frames.frames.size = m.frames.frames.size + 2 := by
  simp [compiled, Frames.set, Frames.push]

/-- The variable has the first of the new closures for its value. -/
theorem bound_compiled : ((m.compiled x bound body entry context).frames.get? (m.frames.frames.size + 1)).bind
    (fun frame => frame.get? bound.uid) = some ⟨.closure m.functions.size, 0⟩ := by
  have size : (m.frames.push none []).2.frames.size = m.frames.frames.size + 1 := Array.size_push _
  show ((Frames.set _ _ _ _).get? _).bind _ = _
  rw [Frames.get?_set, if_pos rfl, Frames.get?_push, if_pos size.symm]
  simp

/-- An old frame shows what it has shown. -/
theorem lookup_compiled {f : Nat} (old : f < m.frames.frames.size) (uid : Nat) :
    (m.compiled x bound body entry context).frames.lookup f uid = m.frames.lookup f uid := by
  have size : (m.frames.push none []).2.frames.size = m.frames.frames.size + 1 := Array.size_push _
  show (Frames.set _ _ _ _).lookup f uid = _
  rw [Frames.lookup_set_newer (by omega), Frames.lookup_push_old _ _ (by omega),
    Frames.lookup_push_old _ _ old]

/-- So do old functions. -/
theorem getElem?_compiled {k : Nat} (old : k < m.functions.size) :
    (m.compiled x bound body entry context).functions[k]? = m.functions[k]? := by
  rw [functions_compiled, Array.getElem?_push_lt (by rw [Array.size_push]; omega),
    Array.getElem_push_lt old, Array.getElem?_eq_getElem old]

end Machine

namespace Definition

section

variable [Host] {d : Definition} {x : Parameter} {body : Expr}

/-- The evaluation of a function of the argument adds a closure. -/
theorem Has.eval_function (h : d.Has x body) (i : Interpreter) (fuel : Nat) (context : Context)
    (frame : FrameId) (b : Expr) (m : Machine) :
    (Expr.lambda [d.argument] b d.type).eval i fuel context frame m =
      (.value ⟨.closure m.functions.size, 0⟩,
        { m with functions := m.functions.push (.closure [x.uid] b frame context) }) := by
  rw [h.argument]
  rfl

/-- Where the variable can be given a value, the first step binds it to a new closure. -/
theorem Has.eval_binding (h : d.Has x body) {bound : Parameter} {m : Machine} {frame : FrameId}
    {frames : Frames}
    (assigned : m.frames.assign frame bound.uid ⟨.closure m.functions.size, 0⟩ = some frames)
    (i : Interpreter) (fuel : Nat) (context : Context) (b : Expr) :
    (Expr.binary .assign (.parameter bound) (.lambda [d.argument] b d.type) d.type).eval
        i fuel context frame m =
      (.value ⟨.closure m.functions.size, 0⟩,
        { m with
          functions := m.functions.push (.closure [x.uid] b frame context)
          frames := frames }) := by
  have set : Run.assign frame bound ⟨.closure m.functions.size, 0⟩
      { m with functions := m.functions.push (.closure [x.uid] b frame context) } =
      (.value (), { m with
        functions := m.functions.push (.closure [x.uid] b frame context)
        frames := frames }) := by
    unfold Run.assign
    simp only [assigned]
  rw [Expr.eval]
  exact (Run.bind_of_value (h.eval_function _ _ _ _ _ m)).trans (Run.bind_of_value (a := ()) set)

/-- The evaluation of the tree of a compilation yields the second of two new closures. -/
theorem Has.evaluate_program (h : d.Has x body) (fuel : Nat) (context : Context) (bound : Parameter)
    {b e : Expr} (clear : (d.program bound b e).obstacle? = none) (m : Machine) :
    Run.evaluate (fuel + 1) context (d.program bound b e) m =
      (.value ⟨.closure (m.functions.size + 1), 0⟩, m.compiled x bound b e context) := by
  let outer := (m.frames.push none []).2
  let frame : Nat := m.frames.frames.size + 1
  let frames := (outer.push (some m.frames.frames.size) [(bound.uid, Boxed.none)]).2
  have size : outer.frames.size = frame := Array.size_push _
  have declared : frames.get? frame =
      some (Frame.ofBindings (some m.frames.frames.size) [(bound.uid, Boxed.none)]) := by
    have existing : outer.existing (some m.frames.frames.size) = some m.frames.frames.size := by
      simp [Frames.existing, Option.filter, size, frame]
    show (outer.push _ _).2.get? frame = _
    rw [Frames.get?_push, if_pos size.symm, existing]
  have assigned := Frames.assign_of_declares bound.uid declared
    (by simp [Frame.ofBindings, Frame.declares]) ⟨.closure m.functions.size, 0⟩
  have root : Run.openFrame none [] m = (.value m.frames.frames.size, { m with frames := outer }) := rfl
  have opened : Run.blockFrame m.frames.frames.size [bound] { m with frames := outer } =
      (.value frame, { m with frames := frames }) := by
    show (Outcome.value outer.frames.size, _) = _
    rw [size]
    rfl
  have first := h.eval_binding (m := { m with frames := frames }) assigned
    ⟨Run.call (fuel + 1), Run.applyUnary⟩ (fuel + 1) context b
  have second := h.eval_function ⟨Run.call (fuel + 1), Run.applyUnary⟩ (fuel + 1) context frame e
    { m with
      functions := m.functions.push (.closure [x.uid] b frame context)
      frames := frames.set frame bound.uid ⟨.closure m.functions.size, 0⟩ }
  rw [Array.size_push] at second
  -- the block binds the variable to the first closure and yields the second
  have steps : Step.runAll (Expr.steps ⟨Run.call (fuel + 1), Run.applyUnary⟩ (fuel + 1) context frame
      [.binary .assign (.parameter bound) (.lambda [d.argument] b d.type) d.type,
        .lambda [d.argument] e d.type]) Boxed.none { m with frames := frames } =
      (.value ⟨.closure (m.functions.size + 1), 0⟩, m.compiled x bound b e context) :=
    (Run.bind_of_value first).trans (Run.bind_of_value second)
  unfold Run.evaluate
  rw [clear]
  exact (Run.bind_of_value root).trans
    ((Run.bind_of_value opened).trans (Step.runFrom_of_value steps fuel))

/-- If it ends in a value at all. -/
theorem Has.evaluate_program_value (h : d.Has x body) {fuel : Nat} {context : Context}
    {bound : Parameter} {b e : Expr} {m m' : Machine} {v : Boxed}
    (evaluated : Run.evaluate fuel context (d.program bound b e) m = (.value v, m')) :
    v = ⟨.closure (m.functions.size + 1), 0⟩ ∧ m' = m.compiled x bound b e context := by
  cases obstacle : (d.program bound b e).obstacle? with
  | some f =>
    unfold Run.evaluate at evaluated
    rw [obstacle] at evaluated
    cases evaluated
  | none =>
    cases fuel with
    | zero =>
      unfold Run.evaluate at evaluated
      rw [obstacle] at evaluated
      obtain ⟨root, m₁, -, exhausted⟩ := Run.value_of_bind evaluated
      obtain ⟨inner, m₂, -, impossible⟩ := Run.value_of_bind exhausted
      cases impossible
    | succ fuel =>
      cases (h.evaluate_program fuel context bound obstacle m).symm.trans evaluated
      exact ⟨rfl, rfl⟩

end

end Definition

/-! ## Compiling -/

/-- A reduction is that by as many passes as the settings allow, and leaves at most a message. -/
theorem Run.reduce_value {e : Expr} {m m' : Machine} {r : Expr.Reduction}
    (reduced : Run.reduce e m = (.value r, m')) :
    ∃ passes, Settings.repetitions m.settings.maxReductionPasses = .ok passes ∧ r = e.reduce passes ∧
      ∃ log, m' = { m with log := log } := by
  unfold Run.reduce at reduced
  obtain ⟨limit, m₁, read, counted⟩ := Run.value_of_bind reduced
  cases read
  obtain ⟨passes, m₂, lifted, chosen⟩ := Run.value_of_bind counted
  obtain ⟨allowed, rfl⟩ := Run.value_of_lift lifted
  refine ⟨passes, allowed, ?_⟩
  simp only at chosen
  split at chosen
  next =>
    cases chosen
    exact ⟨rfl, _, rfl⟩
  next =>
    obtain ⟨text, m₃, shown, reported⟩ := Run.value_of_bind chosen
    obtain ⟨-, rfl⟩ := Run.value_of_lift shown
    obtain ⟨⟨⟩, m₄, logged, ended⟩ := Run.value_of_bind reported
    cases logged
    cases ended
    exact ⟨rfl, _, rfl⟩

/-- The variable that a compilation on a machine binds to the function. -/
def Definition.bound (d : Definition) (m : Machine) : Parameter := ⟨d.self.name, d.self.type, m.nextUid⟩

theorem Definition.type_bound (d : Definition) (m : Machine) : (d.bound m).type = d.self.type := rfl

/-- What a compilation on a machine makes of a body. -/
def Definition.marked (d : Definition) (o : CompileOptions) (m : Machine) (body : Expr) : Expr :=
  body.marked (d.substitution (d.bound m) o m.settings.allowImpure.truthy)

/-- A compilation that succeeds assembles a tree, reduces it as often as the settings allow, evaluates and
writes what comes of it, and leaves messages besides. -/
theorem Run.compile_value [Host] {d : Definition} {o : CompileOptions} {fuel : Nat} {m m' : Machine}
    {c : Compilation} (compiled : Run.compile fuel d o m = (.value c, m')) :
    ∃ tree substitutions passes messages evaluated text log,
      d.assemble (d.bound m) o m.settings.allowImpure.truthy = .ok (tree, substitutions) ∧
      Settings.repetitions m.settings.maxReductionPasses = .ok passes ∧
      c.tree = (tree.reduce passes).result ∧
      Run.evaluate fuel ⟨o.cache, o.pool⟩ c.tree { m with nextUid := m.nextUid + 1, log := messages } =
        (.value c.function, evaluated) ∧
      c.tree.format = .ok text ∧ m' = { evaluated with log := log } := by
  unfold Run.compile at compiled
  obtain ⟨uid, m₁, fresh, named⟩ := Run.value_of_bind compiled
  cases fresh
  obtain ⟨allowImpure, m₂, read, ruled⟩ := Run.value_of_bind named
  cases read
  obtain ⟨⟨tree, substitutions⟩, m₃, lifted, substituted⟩ := Run.value_of_bind ruled
  obtain ⟨assembled, rfl⟩ := Run.value_of_lift lifted
  obtain ⟨reduction, m₄, reduced, evaluating⟩ := Run.value_of_bind substituted
  obtain ⟨passes, allowed, rfl, messages, rfl⟩ := Run.reduce_value reduced
  obtain ⟨function, m₅, evaluated, reporting⟩ := Run.value_of_bind evaluating
  obtain ⟨⟨⟩, m₆, logged, formatting⟩ := Run.value_of_bind reporting
  cases logged
  obtain ⟨text, m₇, formatted, showing⟩ := Run.value_of_bind formatting
  obtain ⟨shown, rfl⟩ := Run.value_of_lift formatted
  obtain ⟨⟨⟩, m₈, logged, ended⟩ := Run.value_of_bind showing
  cases logged
  cases ended
  exact ⟨tree, substitutions, passes, messages, m₅, text, _, assembled, allowed, rfl, evaluated, shown, rfl⟩

namespace Definition

variable [Host] {d : Definition} {x : Parameter} {body : Expr} {o : CompileOptions} {fuel : Nat}
  {m m' : Machine} {c : Compilation}

/-- The tree that is compiled is the program of the definition, reduced. -/
theorem Has.compile_tree (h : d.Has x body) (compiled : Run.compile fuel d o m = (.value c, m')) :
    ∃ passes, Settings.repetitions m.settings.maxReductionPasses = .ok passes ∧
      c.tree = ((d.program (d.bound m) (d.marked o m body) (d.entry o (d.bound m))).reduce passes).result := by
  obtain ⟨tree, counts, passes, -, -, -, -, assembled, allowed, reduced, -⟩ := Run.compile_value compiled
  obtain rfl := h.assemble_only (d.type_bound m) assembled
  exact ⟨passes, allowed, reduced⟩

/-- A compilation that succeeds yields the entry, and leaves two closures over the marked and reduced
body and over the entry. The tree that it was evaluated from can be written. -/
theorem Has.compile_value (h : d.Has x body) (compiled : Run.compile fuel d o m = (.value c, m')) :
    ∃ k log, c = ⟨⟨.closure (m.functions.size + 1), 0⟩,
        d.program (d.bound m) (Expr.passed^[k] (d.marked o m body)) (d.entry o (d.bound m))⟩ ∧
      m' = { ({ m with nextUid := m.nextUid + 1 }).compiled x (d.bound m)
        (Expr.passed^[k] (d.marked o m body)) (d.entry o (d.bound m)) ⟨o.cache, o.pool⟩ with
          log := log } ∧
      ∃ text, c.tree.format = .ok text := by
  obtain ⟨tree, counts, passes, messages, after, text, log, assembled, -, reduced, evaluated, shown, rfl⟩ :=
    Run.compile_value compiled
  obtain ⟨function, reduct⟩ := c
  -- the tree is the expected one, and the passes of the reduction keep its shape
  obtain rfl := h.assemble_only (d.type_bound m) assembled
  obtain ⟨k, passed⟩ := Expr.reduce_eq_iterate
    (d.program (d.bound m) (d.marked o m body) (d.entry o (d.bound m))) passes
  rw [iterate_passed_program, d.iterate_passed_entry h] at passed
  obtain rfl : reduct = _ := reduced.trans passed
  obtain ⟨rfl, rfl⟩ := h.evaluate_program_value evaluated
  exact ⟨k, log, rfl, rfl, text, shown⟩

end Definition

/-- A build that succeeds is a compilation that succeeds, and then adds a pure function around what was
compiled. -/
theorem Run.compile_of_build [Host] {e : Expr} {d : Definition} (accepted : Definition.ofExpr e = .ok d)
    {caching threading : Bool} {cache : Option CacheId} {pool : Option PoolId} {fuel : Nat}
    {m m' : Machine} {c : Compilation}
    (ended : Run.build fuel e caching threading cache pool m = (.value c, m')) :
    ∃ compilation before, Run.compile fuel d ⟨caching, threading, true,
        if caching then some (cache.getD Machine.defaultCache) else cache, pool⟩ m =
          (.value compilation, before) ∧
      c = ⟨⟨.compiled ⟨before.functions.size, d.self.name, d.params, d.result, caching, threading⟩, 0⟩,
        compilation.tree⟩ ∧
      m' = { before with functions := before.functions.push (.wrapper compilation.function) } := by
  obtain ⟨d', m₁, lifted, rest⟩ := Run.value_of_bind ended
  obtain ⟨known, rfl⟩ := Run.value_of_lift lifted
  cases accepted.symm.trans known
  obtain ⟨compilation, before, compiled, wrapping⟩ := Run.value_of_bind rest
  obtain ⟨function, m₃, wrapped, last⟩ := Run.value_of_bind wrapping
  cases last
  cases wrapped
  exact ⟨compilation, before, compiled, rfl, rfl⟩

/-- A plain closure is what a compilation with the plain options yields. -/
theorem Run.compile_of_recursiveClosure [Host] {e : Expr} {d : Definition}
    (accepted : Definition.ofExpr e = .ok d) {fuel : Nat} {m m' : Machine} {plain : Boxed}
    (ended : Run.recursiveClosure fuel e m = (.value plain, m')) :
    ∃ compilation, Run.compile fuel d .plain m = (.value compilation, m') ∧
      plain = compilation.function := by
  obtain ⟨d', m₁, lifted, rest⟩ := Run.value_of_bind ended
  obtain ⟨known, rfl⟩ := Run.value_of_lift lifted
  cases accepted.symm.trans known
  obtain ⟨compilation, m₂, compiled, last⟩ := Run.value_of_bind rest
  cases last
  exact ⟨compilation, compiled, rfl⟩

/-! ## Recursive calls -/

/-- The function that is called by a call node. -/
def Expr.callee? : Expr → Option Expr
  | invoke f _ _ | cached f _ _ _ => some f
  | _ => none

/-- What the recursive calls of a pure function go to: the value of the variable that is called in the
entry of the function. -/
def Machine.recursive? (m : Machine) (f : Boxed) : Option Boxed :=
  match f.value with
  | .compiled g =>
    match m.functions[g.id]? with
    | some (.wrapper inner) =>
      match inner.value with
      | .closure entry =>
        match m.functions[entry]? with
        | some (.closure _ body frame _) =>
          match body.callee? with
          | some (.parameter bound) => m.frames.lookup frame bound.uid
          | _ => none
        | _ => none
      | _ => none
    | _ => none
  | _ => none

theorem Machine.recursive?_eq {m : Machine} {f inner : Boxed} {g : PureFunction} {entry : Nat}
    {ps : List Nat} {body : Expr} {frame : FrameId} {context : Context} {bound : Parameter}
    (compiled : f.value = .compiled g) (wrapped : m.functions[g.id]? = some (.wrapper inner))
    (closure : inner.value = .closure entry)
    (found : m.functions[entry]? = some (.closure ps body frame context))
    (callee : body.callee? = some (.parameter bound)) :
    m.recursive? f = m.frames.lookup frame bound.uid := by
  unfold recursive?
  simp only [compiled, wrapped, closure, found, callee]

theorem Definition.callee?_entry (d : Definition) (o : CompileOptions) (bound : Parameter) :
    (d.entry o bound).callee? = some (.parameter bound) := by
  unfold entry
  split <;> rfl

/-! ## Definitions of functions of one number -/

/-- The definition of a function, given its body. -/
def defining (body : Expr) : Expr :=
  .lambda [.parameter Recursive.self] (.lambda [.parameter Recursive.argument] body Recursive.self.type)
    (.func [Recursive.self.type] Recursive.self.type)

theorem built_defining {body : Expr} (built : Built body) (typed : body.type = .value .int32) :
    Built (defining body) := by
  have function : Built (.lambda [.parameter Recursive.argument] body Recursive.self.type) :=
    .lambda built (Build.lambda_eq_ok.2 ⟨by rw [typed]; rfl, by simp⟩)
  exact .lambda function (Build.lambda_eq_ok.2 ⟨rfl, by simp⟩)

end Knot
