import Knot.Proofs.Compilation

/-!
# Builds that succeed

After its front checks a build can fail in one place only. The substitution lets a tree pass whose
member reads are admitted; it splits operations between calls of values, and the reduction keeps them so
(`Expr.SplitsCalls`), so nothing stands in the way of the tree that is evaluated; and the evaluation
itself cannot fail. What is left are the messages of the log, which write out the tree and the limit
of the reduction: with a number in them that is too long to be written there is no function
(`Built.build_value`, `build_of_unwritable`).
-/

namespace Knot

namespace Expr

/-! ## Splits between calls of values -/

/-- A call, cached or not, with arguments and a result of value types. -/
def callsValues : Expr → Bool
  | invoke _ args t => callThreadable args t
  | cached _ a t _ => callThreadable [a] t
  | _ => false

/-- Whether a node, if it is a split, is one of an operator that can be split, between calls of values. -/
def SplitsCalls : Expr → Prop
  | parallel op a b _ _ => op.splittable = true ∧ a.callsValues = true ∧ b.callsValues = true
  | _ => True

theorem isCall_of_callsValues {e : Expr} (h : e.callsValues = true) : e.isCall = true := by
  cases e <;> first | rfl | cases h

/-- Whether a call is one of values depends on the types of the arguments. -/
theorem callThreadable_map {f : Expr → Expr} (same : ∀ e, (f e).type = e.type) (args : List Expr)
    (t : StaticType) : callThreadable (args.map f) t = callThreadable args t := by
  simp [callThreadable, allValues, List.all_map, Function.comp_def, same]

/-- No rule applies to a call, so a pass goes through its parts only. -/
theorem callsValues_passed {e : Expr} (h : e.callsValues = true) : e.passed.callsValues = true := by
  rw [passed_eq]
  cases e with
  | invoke f args t => exact (callThreadable_map type_passed args t).trans h
  | cached f a t c => exact (callThreadable_map type_passed [a] t).trans h
  | _ => cases h

/-- A split stays one between calls of values when a pass goes through its children. -/
theorem SplitsCalls.passed {e : Expr} (h : e.SplitsCalls) : (e.mapChildren passed).SplitsCalls := by
  cases e with
  | parallel op a b t p => exact ⟨h.1, callsValues_passed h.2.1, callsValues_passed h.2.2⟩
  | _ => exact h

section

variable {r : Substitution} {p q : Parameter}

/-- A call of values stays one, with a mark or without. -/
theorem callsValues_marked (placeholder : r.placeholder = .parameter p)
    (replacement : r.replacement = .parameter q) (same : q.type = p.type) {e : Expr}
    (h : e.isValueCall = true) : (e.marked r).callsValues = true := by
  have kept (e : Expr) : (e.marked r).type = e.type := (stands_marked placeholder replacement same e).type
  cases e with
  | invoke f args t =>
    have values := (callThreadable_map kept args t).trans h
    rcases marked_cases replacement (invoke f args t) with plain | ⟨x, other, -⟩ |
      ⟨g, a, u, call, marked⟩ | ⟨op, a, b, u, other, -⟩
    · rw [plain]
      exact values
    · cases other
    · cases call
      rw [marked]
      exact values
    · cases other
  | _ => cases h

/-- The splits that a substitution makes are between calls of values. -/
theorem SplitsCalls.marked (placeholder : r.placeholder = .parameter p)
    (replacement : r.replacement = .parameter q) (same : q.type = p.type) {e : Expr}
    (ordinary : e.isOrdinary = true) : (e.marked r).SplitsCalls := by
  rcases marked_cases replacement e with plain | ⟨x, rfl, -, marked⟩ | ⟨f, a, t, rfl, marked⟩ |
    ⟨op, a, b, t, rfl, split, marked⟩
  · rw [plain]
    cases e with
    | parallel => cases ordinary
    | _ => trivial
  · rw [marked]
    trivial
  · rw [marked]
    trivial
  · rw [marked]
    simp only [isSplit, Bool.and_eq_true] at split
    obtain ⟨⟨splittable, left⟩, right⟩ := split
    exact ⟨splittable, callsValues_marked placeholder replacement same left,
      callsValues_marked placeholder replacement same right⟩

end

/-- Nothing stands in the way of a well-typed tree whose splits are between calls of values. -/
theorem WellTyped.obstacle?_eq_none {e : Expr} (typed : e.WellTyped)
    (splits : ∀ x ∈ e.nodes, x.SplitsCalls) : e.obstacle? = none := by
  induction e using of_children with
  | node e ih =>
    obtain ⟨checked, parts⟩ := wellTyped_iff.1 typed
    have splits := forall_mem_nodes_iff.1 splits
    refine obstacle?_eq_none_iff.2 ⟨?_, fun c child => ?_⟩
    · cases e with
      | binary op a b t =>
        rintro rfl
        obtain ⟨p, rfl, -⟩ := Build.assign_ok checked
        rfl
      | lambda ps a t =>
        intro p member
        obtain ⟨q, rfl⟩ := (Build.lambda_eq_ok.1 checked).2 p member
        rfl
      | parallel op a b t pool =>
        exact ⟨isCall_of_callsValues splits.1.2.1, isCall_of_callsValues splits.1.2.2⟩
      | strange | bare => cases checked
      | _ => trivial
    · have part := mem_parts_of_mem_children child
      exact ih c child (parts c part) (splits.2 c part)

/-! ## Trees that can be written -/

/-- Whether a constant can be written. -/
def Writes : Expr → Prop
  | constant v _ => ∃ text, v.value.plain = .ok text
  | _ => True

theorem Writes.passed {e : Expr} (h : e.Writes) : (e.mapChildren passed).Writes := by
  cases e with
  | constant => exact h
  | _ => trivial

theorem Writes.marked {r : Substitution} {q : Parameter} (replacement : r.replacement = .parameter q)
    {e : Expr} (h : e.Writes) : (e.marked r).Writes := by
  rcases marked_cases replacement e with plain | ⟨x, rfl, -, marked⟩ | ⟨f, a, t, rfl, marked⟩ |
    ⟨op, a, b, t, rfl, -, marked⟩
  · rw [plain]
    cases e with
    | constant => exact h
    | _ => trivial
  all_goals
    rw [marked]
    trivial

end Expr

/-- A computation in two parts gives a result if both parts do. -/
theorem Except.exists_bind {ε α β : Type} {x : Except ε α} {f : α → Except ε β}
    (first : ∃ a, x = .ok a) (second : ∀ a, ∃ b, f a = .ok b) : ∃ b, (x >>= f) = .ok b := by
  obtain ⟨a, rfl⟩ := first
  exact second a

namespace Expr

theorem exists_formatAll {es : List Expr} (each : ∀ e ∈ es, ∃ text, e.format = .ok text) :
    ∃ texts, formatAll es = .ok texts := by
  induction es with
  | nil => exact ⟨[], rfl⟩
  | cons e es ih =>
    obtain ⟨first, rest⟩ := List.forall_mem_cons.1 each
    exact Except.exists_bind first fun _ => Except.exists_bind (ih rest) fun _ => ⟨_, rfl⟩

theorem exists_formatOption {d : Option Expr} (each : ∀ e ∈ d.toList, ∃ text, e.format = .ok text) :
    ∃ text, formatOption d = .ok text := by
  cases d with
  | none => exact ⟨"", rfl⟩
  | some e => exact Except.exists_bind (each e List.mem_cons_self) fun _ => ⟨_, rfl⟩

theorem exists_parameterNames {ps : List Expr} (named : ∀ p ∈ ps, ∃ q, p = parameter q) :
    ∃ names, parameterNames ps = .ok names := by
  unfold parameterNames
  induction ps with
  | nil => exact ⟨[], rfl⟩
  | cons p ps ih =>
    obtain ⟨⟨q, rfl⟩, rest⟩ := List.forall_mem_cons.1 named
    rw [List.mapM_cons]
    exact Except.exists_bind ⟨q.name, rfl⟩ fun _ => Except.exists_bind (ih rest) fun _ => ⟨_, rfl⟩

/-- A well-typed tree can be written if its constants can. -/
theorem WellTyped.exists_format {e : Expr} (typed : e.WellTyped) (writes : ∀ x ∈ e.nodes, x.Writes) :
    ∃ text, e.format = .ok text := by
  induction e using of_children with
  | node e ih =>
    obtain ⟨checked, parts⟩ := wellTyped_iff.1 typed
    have writes := forall_mem_nodes_iff.1 writes
    have below : ∀ c ∈ e.children, ∃ text, c.format = .ok text := fun c child =>
      have part := mem_parts_of_mem_children child
      ih c child (parts c part) (writes.2 c part)
    clear ih typed parts
    cases e with
    | constant v t => exact writes.1
    | parameter p => exact ⟨_, rfl⟩
    | strange | bare => cases checked
    | unary op a t =>
      refine Except.exists_bind (below a List.mem_cons_self) fun _ => ?_
      split <;> exact ⟨_, rfl⟩
    | binary op a b t | parallel op a b t pool =>
      exact Except.exists_bind (below a List.mem_cons_self) fun _ =>
        Except.exists_bind (below b (List.mem_cons_of_mem _ List.mem_cons_self)) fun _ => ⟨_, rfl⟩
    | cached f a t c =>
      exact Except.exists_bind (below f List.mem_cons_self) fun _ =>
        Except.exists_bind (below a (List.mem_cons_of_mem _ List.mem_cons_self)) fun _ => ⟨_, rfl⟩
    | conditional a b c t =>
      exact Except.exists_bind (below a (by simp [children])) fun _ =>
        Except.exists_bind (below b (by simp [children])) fun _ =>
          Except.exists_bind (below c (by simp [children])) fun _ => ⟨_, rfl⟩
    | invoke f args t =>
      have arguments := exists_formatAll fun a member => below a (List.mem_cons_of_mem f member)
      exact Except.exists_bind arguments fun _ =>
        Except.exists_bind (below f List.mem_cons_self) fun _ => ⟨_, rfl⟩
    | member a n t => exact Except.exists_bind (below a List.mem_cons_self) fun _ => ⟨_, rfl⟩
    | hostCall f args t => exact Except.exists_bind (exists_formatAll below) fun _ => ⟨_, rfl⟩
    | block vs es t => exact Except.exists_bind (exists_formatAll below) fun _ => ⟨_, rfl⟩
    | loop a b c t => exact Except.exists_bind (below a List.mem_cons_self) fun _ => ⟨_, rfl⟩
    | label l d t => exact Except.exists_bind (exists_formatOption below) fun _ => ⟨_, rfl⟩
    | goto k l v t => exact Except.exists_bind (exists_formatOption below) fun _ => ⟨_, rfl⟩
    | lambda ps a t =>
      -- the builder of lambdas admits parameters only, which have names
      have names := exists_parameterNames (Build.lambda_eq_ok.1 checked).2
      exact Except.exists_bind names fun _ =>
        Except.exists_bind (below a List.mem_cons_self) fun _ => ⟨_, rfl⟩

end Expr

/-! ## The tree that is evaluated -/

namespace Definition

section

variable {d : Definition} {x : Parameter} {body : Expr}

/-- The nodes of the tree are those of the two bodies and a few more. -/
theorem Has.forall_nodes_program (h : d.Has x body) {P : Expr → Prop} {bound : Parameter} {b e : Expr}
    (program : P (d.program bound b e))
    (assignment : P (.binary .assign (.parameter bound) (.lambda [d.argument] b d.type) d.type))
    (function : P (.lambda [d.argument] b d.type)) (entry : P (.lambda [d.argument] e d.type))
    (named : ∀ p, P (.parameter p)) (inBody : ∀ y ∈ b.nodes, P y) (inEntry : ∀ y ∈ e.nodes, P y) :
    ∀ y ∈ (d.program bound b e).nodes, P y := by
  intro y inside
  rw [h.argument] at assignment function entry
  simp only [Definition.program, Expr.nodes_eq (.block _ _ _), Expr.nodes_eq (.binary _ _ _ _),
    Expr.nodes_eq (.lambda _ _ _), Expr.nodes_eq (.parameter _), h.argument, Expr.parts, Expr.children,
    List.flatMap_cons, List.flatMap_nil, List.mem_cons, List.mem_append, List.cons_append,
    List.nil_append, List.append_nil] at inside program
  rcases inside with rfl | rfl | rfl | rfl | rfl | inBody' | rfl | rfl | inEntry'
  · exact program
  · exact assignment
  · exact named bound
  · exact function
  · exact named x
  · exact inBody y inBody'
  · exact entry
  · exact named x
  · exact inEntry y inEntry'

/-- A tree that is ready to be evaluated and written: it is well typed, its splits are between calls of
values, and its constants can be written. -/
structure Ready (e : Expr) : Prop where
  typed : e.WellTyped
  splits : ∀ x ∈ e.nodes, x.SplitsCalls
  writes : ∀ x ∈ e.nodes, x.Writes

/-- A substitution of a variable for another of its type makes a tree without marks ready. -/
theorem ready_marked {r : Substitution} {p q : Parameter} (placeholder : r.placeholder = .parameter p)
    (replacement : r.replacement = .parameter q) (same : q.type = p.type) {e : Expr}
    (typed : e.WellTyped) (ordinary : e.Ordinary) (writes : ∀ x ∈ e.nodes, x.Writes) :
    Ready (e.marked r) := by
  refine ⟨typed.marked placeholder replacement same, ?_, ?_⟩ <;>
    rw [Expr.nodes_marked replacement, List.forall_mem_map]
  · exact fun y inside => Expr.SplitsCalls.marked placeholder replacement same (ordinary y inside)
  · exact fun y inside => (writes y inside).marked replacement

/-- It stays so in any number of passes. -/
theorem Ready.iterate_passed {e : Expr} (h : Ready e) (k : Nat) : Ready (Expr.passed^[k] e) where
  typed := (h.typed.iterate_passed k).1
  splits := Expr.all_iterate_passed (fun _ _ _ => trivial) (fun _ splits => splits.passed) k h.splits
  writes := Expr.all_iterate_passed (fun _ _ _ => trivial) (fun _ writes => writes.passed) k h.writes

/-- The tree that is evaluated is ready if the function is. -/
theorem Has.ready_program (h : d.Has x body) {bound : Parameter} (same : bound.type = d.self.type)
    (o : CompileOptions) {b : Expr} (function : Ready (.lambda [d.argument] b d.type)) :
    Ready (d.program bound b (d.entry o bound)) := by
  have inBody {P : Expr → Prop} (all : ∀ y ∈ (Expr.lambda [d.argument] b d.type).nodes, P y) :
      P (.lambda [d.argument] b d.type) ∧ ∀ y ∈ b.nodes, P y := by
    obtain ⟨here, parts⟩ := Expr.forall_mem_nodes_iff.1 all
    exact ⟨here, parts b (List.mem_append_right _ List.mem_cons_self)⟩
  have checked := inBody function.typed
  -- the entry is what a substitution makes of a call without constants
  have direct := h.built_direct same
  have writes : ∀ y ∈ (Expr.invoke (.parameter bound) [d.argument] d.result).nodes, y.Writes := by
    rw [h.argument]
    simp [Expr.nodes_eq, Expr.parts, Expr.children, Expr.Writes]
  have entry := ready_marked (r := d.substitution bound o false) (p := d.self) rfl rfl same
    direct.wellTyped direct.ordinary writes
  rw [h.marked_direct] at entry
  exact {
    typed := h.forall_nodes_program rfl (h.binding_eq same b) checked.1 (h.entry_eq o bound)
      (fun _ => trivial) checked.2 entry.typed
    splits := h.forall_nodes_program trivial trivial trivial trivial (fun _ => trivial)
      (inBody function.splits).2 entry.splits
    writes := h.forall_nodes_program trivial trivial trivial trivial (fun _ => trivial)
      (inBody function.writes).2 entry.writes }

end

end Definition

/-! ## Compiling -/

/-- A run in two parts ends in a value if the first part does and then the second does. -/
theorem Run.exists_bind {α β : Type} {x : Run α} {f : α → Run β} {m m' : Machine} {a : α} {b : β}
    (first : x m = (.value a, m')) (second : ∃ after, f a m' = (.value b, after)) :
    ∃ after, (x >>= f) m = (.value b, after) := by
  rwa [bind_of_value first]

theorem Run.lift_of_ok {α : Type} {x : Except Fault α} {a : α} (given : x = .ok a) (m : Machine) :
    Run.lift x m = (.value a, m) := by
  rw [given]
  rfl

/-- A reduction ends if the limit is a number that can be written. -/
theorem Run.exists_reduce {m : Machine} {passes : Int} {text : String}
    (limit : Settings.repetitions m.settings.maxReductionPasses = .ok passes)
    (shown : m.settings.maxReductionPasses.shown = .ok text) (e : Expr) :
    ∃ r m', Run.reduce e m = (.value r, m') := by
  have chosen : ∃ r m', (if (e.reduce passes).settled then pure (e.reduce passes) else do
      let text ← Run.lift m.settings.maxReductionPasses.shown
      Run.log ("Reduction stopped after " ++ text ++ " passes without a fixed point")
      pure (e.reduce passes)) m = (.value r, m') := by
    split
    next => exact ⟨_, _, rfl⟩
    next => exact ⟨_, Run.exists_bind (Run.lift_of_ok shown m) ⟨_, rfl⟩⟩
  obtain ⟨r, ended⟩ := chosen
  exact ⟨r, Run.exists_bind rfl (Run.exists_bind (Run.lift_of_ok limit m) ended)⟩

/-- A compilation to which the substitution lets all nodes pass, and whose constants and limit can be
written, yields a function, from a tree that is ready. -/
theorem Definition.Has.exists_compile [Host] {d : Definition} {x : Parameter} {body : Expr}
    (h : d.Has x body) (built : Built d.function) (o : CompileOptions) {m : Machine}
    (admitted : ∀ y ∈ d.function.nodes,
      (d.substitution (d.bound m) o m.settings.allowImpure.truthy).Admits y)
    (writes : ∀ y ∈ d.function.nodes, y.Writes) {passes : Int} {text : String}
    (limit : Settings.repetitions m.settings.maxReductionPasses = .ok passes)
    (shown : m.settings.maxReductionPasses.shown = .ok text) (fuel : Nat) :
    ∃ c m', Run.compile (fuel + 1) d o m = (.value c, m') ∧ Definition.Ready c.tree := by
  let bound := d.bound m
  let allowImpure := m.settings.allowImpure.truthy
  let r := d.substitution bound o allowImpure
  let m₁ : Machine := { m with nextUid := m.nextUid + 1 }
  -- the tree is assembled, and ready
  obtain ⟨tally, substituted, -⟩ :=
    @Substitution.does_visit_of_admits r d.self rfl d.function built.ordinary admitted .empty
  obtain ⟨tally', assembled⟩ := h.assemble_eq (d.type_bound m) o allowImpure substituted
  have function := ready_marked (r := r) (p := d.self) rfl rfl rfl built.wellTyped built.ordinary writes
  rw [h.marked_function] at function
  have tree := h.ready_program (d.type_bound m) o function
  -- it is reduced
  obtain ⟨reduction, m₂, reduced⟩ := Run.exists_reduce (m := m₁) limit shown
    (d.program bound (body.marked r) (d.entry o bound))
  obtain ⟨count, -, ended, log, rfl⟩ := Run.reduce_value reduced
  obtain ⟨k, passes⟩ := (d.program bound (body.marked r) (d.entry o bound)).reduce_eq_iterate count
  rw [← ended] at passes
  have ready : Ready reduction.result := by
    rw [passes]
    exact tree.iterate_passed k
  obtain ⟨text', formatted⟩ := ready.typed.exists_format ready.writes
  -- it is evaluated, and written to the log
  have clear := ready.typed.obstacle?_eq_none ready.splits
  rw [passes, iterate_passed_program] at clear
  have evaluated := h.evaluate_program fuel ⟨o.cache, o.pool⟩ bound clear { m₁ with log := log }
  rw [← iterate_passed_program, ← passes] at evaluated
  have fresh : Run.freshUid m = (.value m.nextUid, m₁) := rfl
  have logged (text : String) (m : Machine) : Run.log text m = (.value (), m.logged text) := rfl
  have compiled : ∃ m', Run.compile (fuel + 1) d o m =
      (.value ⟨⟨.closure (m.functions.size + 1), 0⟩, reduction.result⟩, m') := by
    unfold Run.compile
    refine Run.exists_bind fresh (Run.exists_bind (a := allowImpure) rfl ?_)
    refine Run.exists_bind (Run.lift_of_ok assembled m₁) (Run.exists_bind reduced ?_)
    refine Run.exists_bind evaluated (Run.exists_bind (logged _ _) ?_)
    exact Run.exists_bind (Run.lift_of_ok formatted _) ⟨_, rfl⟩
  obtain ⟨m', ended⟩ := compiled
  exact ⟨_, m', ended, ready⟩

/-! ## Building -/

/-- A definition that the builders give and that is accepted, whose member reads are all admitted, is built
to a pure function, with any options and under any limit of the reduction, as long as the limit and the
constants are no numbers too long to be written. Nothing stands in the way of the tree that it is
evaluated from, and the splits in it are between calls of values. -/
theorem Built.build_value [Host] {e : Expr} (built : Built e) {d : Definition}
    (accepted : Definition.ofExpr e = .ok d) (caching threading : Bool) (cache : Option CacheId)
    (pool : Option PoolId) {m : Machine}
    (admitted : ∀ a n t, Expr.member a n t ∈ e.nodes →
      (PurityRule.mk caching m.settings.allowImpure.truthy).admits a.type t = true)
    (writes : ∀ v t, Expr.constant v t ∈ e.nodes → ∃ text, v.value.plain = .ok text) {passes : Int}
    {text : String} (limit : Settings.repetitions m.settings.maxReductionPasses = .ok passes)
    (shown : m.settings.maxReductionPasses.shown = .ok text) (fuel : Nat) :
    ∃ id tree m', Run.build (fuel + 1) e caching threading cache pool m =
        (.value ⟨⟨.compiled ⟨id, d.self.name, d.params, d.result, caching, threading⟩, 0⟩, tree⟩, m') ∧
      tree.obstacle? = none ∧ ∀ x ∈ tree.nodes, x.SplitsCalls := by
  obtain ⟨shape, x, body, h⟩ := Definition.has_of_ofExpr built accepted
  have within := Definition.nodes_function shape
  have typed : d.function.WellTyped := fun y inside => built.wellTyped y (within y inside)
  have ordinary : d.function.Ordinary := fun y inside => built.ordinary y (within y inside)
  let o : CompileOptions :=
    ⟨caching, threading, true, if caching then some (cache.getD Machine.defaultCache) else cache, pool⟩
  -- only members are judged by the purity rule, and only constants may have no written form
  have passed : ∀ y ∈ d.function.nodes,
      (d.substitution (d.bound m) o m.settings.allowImpure.truthy).Admits y := by
    intro y inside
    cases y with
    | member a n t => exact fun _ => admitted a n t (within _ inside)
    | _ => trivial
  have written : ∀ y ∈ d.function.nodes, y.Writes := by
    intro y inside
    cases y with
    | constant v t => exact writes v t (within _ inside)
    | _ => trivial
  obtain ⟨c, m', compiled, ready⟩ :=
    h.exists_compile (typed.built ordinary) o passed written limit shown fuel
  obtain ⟨after, ended⟩ : ∃ after, Run.build (fuel + 1) e caching threading cache pool m =
      (.value ⟨⟨.compiled ⟨m'.functions.size, d.self.name, d.params, d.result, caching, threading⟩, 0⟩,
        c.tree⟩, after) :=
    Run.exists_bind (Run.lift_of_ok accepted m) (Run.exists_bind compiled ⟨_, rfl⟩)
  exact ⟨_, _, after, ended, ready.typed.obstacle?_eq_none ready.splits, ready.splits⟩

theorem built_twoCalls : Built twoCalls := by
  have call : Built (.invoke (.parameter Recursive.self) [.parameter Recursive.argument] (.value .int32)) :=
    .invoke (.parameter Recursive.self) (List.forall_mem_singleton.2 (.parameter Recursive.argument)) rfl
  exact @Built.binary .add _ _ _ call call rfl

/-- With caching and threading the definition of a sum of two calls is built to a function. -/
theorem Built.build_value_twoCalls :
    ∃ id tree m', Run.build 1 (defining twoCalls) true true none none (Machine.initial 1) =
        (.value ⟨⟨.compiled ⟨id, "f", [.value .int32], .value .int32, true, true⟩, 0⟩, tree⟩, m') ∧
      tree.obstacle? = none ∧ ∀ x ∈ tree.nodes, x.SplitsCalls := by
  have short : Numeral.Writable 32 := @Numeral.writable_of_lt 32 2 (by decide) (by decide)
  have limit : (Machine.initial 1).settings.maxReductionPasses = .int 32 := rfl
  have written : (Value.int 32).shown = .ok (toString (32 : Int)) := by
    simp only [Value.shown, Value.plain, Value.written]
    exact integerText_of_writable short
  refine (built_defining built_twoCalls rfl).build_value rfl true true none none ?_ ?_ rfl
    ((congrArg Value.shown limit).trans written) 0
  all_goals
    simp [defining, twoCalls, Expr.nodes_eq, Expr.parts, Expr.children]

/-! ## What cannot be written -/

/-- The body of the function whose value is its argument, after a constant that nothing uses. -/
def idleBody (n : Int) : Expr :=
  .block [] [.constant ⟨.int n, 0⟩ .object, .parameter Recursive.argument] (.value .int32)

theorem built_idleBody (n : Int) : Built (idleBody n) := by
  have constant : Built (.constant ⟨.int n, 0⟩ .object) :=
    @Built.constant ⟨.int n, 0⟩ (some .object) _ rfl
  exact .block [] (List.forall_mem_cons.2 ⟨constant, List.forall_mem_singleton.2 (.parameter _)⟩)
    (some (.value .int32))

/-- No rule applies to the body. -/
theorem iterate_passed_idleBody (n : Int) (k : Nat) : Expr.passed^[k] (idleBody n) = idleBody n := by
  induction k with
  | zero => rfl
  | succ k ih => exact ih

/-- A definition with it is built only if the constant can be written. -/
theorem writable_of_build [Host] {n : Int} {fuel : Nat} {m m' : Machine} {c : Compilation}
    (built : Run.build fuel (defining (idleBody n)) false false none none m = (.value c, m')) :
    Numeral.Writable n := by
  let d : Definition := ⟨Recursive.self, .parameter Recursive.argument,
    .lambda [.parameter Recursive.argument] (idleBody n) Recursive.self.type, [.value .int32],
    .value .int32⟩
  have accepted : Definition.ofExpr (defining (idleBody n)) = .ok d := rfl
  obtain ⟨compilation, before, compiled, -⟩ := Run.compile_of_build accepted built
  have h : d.Has Recursive.argument (idleBody n) := ⟨rfl, rfl, rfl, rfl, rfl⟩
  obtain ⟨k, log, rfl, -, text, formatted⟩ := h.compile_value compiled
  -- the constant is still in the tree, from the block over the binding and the function to the body
  have marked (o : CompileOptions) (m : Machine) : d.marked o m (idleBody n) = idleBody n := rfl
  rw [marked, iterate_passed_idleBody] at formatted
  obtain ⟨steps, first, -⟩ := Except.bind_eq_ok.1 formatted
  obtain ⟨binding, second, -⟩ := Except.bind_eq_ok.1 first
  obtain ⟨bound, -, third⟩ := Except.bind_eq_ok.1 second
  obtain ⟨function, fourth, -⟩ := Except.bind_eq_ok.1 third
  obtain ⟨names, -, fifth⟩ := Except.bind_eq_ok.1 fourth
  obtain ⟨body, sixth, -⟩ := Except.bind_eq_ok.1 fifth
  obtain ⟨parts, seventh, -⟩ := Except.bind_eq_ok.1 sixth
  obtain ⟨number, written, -⟩ := Except.bind_eq_ok.1 seventh
  simp only [Expr.format, Value.plain, Value.written, integerText] at written
  split at written
  next short => exact short
  next => cases written

/-- No member is read. -/
theorem member_not_mem_nodes (n : Int) (a : Expr) (name : String) (t : StaticType) :
    Expr.member a name t ∉ (defining (idleBody n)).nodes := by
  simp [defining, idleBody, Expr.nodes_eq, Expr.parts, Expr.children]

/-- A definition with a constant that is too long to be written is not built, though no member is read,
nothing uses the constant and nothing reads the log. -/
theorem build_of_unwritable :
    let e := defining (idleBody Numeral.writableBelow)
    Built e ∧ (∃ d, Definition.ofExpr e = .ok d) ∧ (∀ a n t, Expr.member a n t ∉ e.nodes) ∧
      ∀ fuel c m', Run.build fuel e false false none none (Machine.initial 1) ≠ (.value c, m') := by
  refine ⟨built_defining (built_idleBody _) rfl, ⟨_, rfl⟩, ?_, fun fuel c m' built => ?_⟩
  · exact member_not_mem_nodes _
  · have short := writable_of_build built
    rw [Numeral.Writable, Int.natAbs_natCast] at short
    exact Nat.lt_irrefl _ short

end Knot
