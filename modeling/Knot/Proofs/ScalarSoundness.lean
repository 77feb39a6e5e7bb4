import Knot.Proofs.Endings
import Knot.Proofs.Evaluation
import Knot.Proofs.Operators
import Knot.Proofs.Scopes

/-!
# Soundness of the scalar fragment

A scalar tree is built from constants and variables of value types by operators, conversions between
value types, conditionals, blocks that declare nothing, labels, jumps and loops. Its evaluation, in
a frame that binds each variable to a value of its type, ends

* in a value of the static type of the tree, if that is a value type,
* in a division by zero or in a number out of the range of a type,
* or in a jump whose value has the type of its label, if that is a value type,

and every variable still has a value of its type (`ScalarTree.eval_sound`). So what the builders
admit is what the operators implement.
-/

namespace Knot

/-! ## The fragment -/

/-- The trees of the scalar fragment. The variables are taken from `scope`, and a label has the type
that `labels` gives to its number. -/
inductive ScalarTree (scope : Parameter → Prop) (labels : Nat → StaticType) : Expr → Prop
  | constant {v type e} (built : Build.constant v type = .ok e) (value : e.type.isValue = true) :
      ScalarTree scope labels e
  | parameter {p} (declared : scope p) (value : p.type.isValue = true) :
      ScalarTree scope labels (.parameter p)
  | unary {op a type e} (operand : ScalarTree scope labels a)
      (built : Build.unary op a type = .ok e) (value : e.type.isValue = true) :
      ScalarTree scope labels e
  | binary {op a b e} (left : ScalarTree scope labels a) (right : ScalarTree scope labels b)
      (built : Build.binary op a b = .ok e) : ScalarTree scope labels e
  | conditional {test a b type e} (tested : ScalarTree scope labels test)
      (ifTrue : ScalarTree scope labels a) (ifFalse : ScalarTree scope labels b)
      (built : Build.condition test a b type = .ok e) : ScalarTree scope labels e
  | block {es} (steps : ∀ e ∈ es, ScalarTree scope labels e) :
      ScalarTree scope labels (Build.block [] es none)
  | label {l d e} (default : ∀ a, d = some a → ScalarTree scope labels a)
      (known : labels l.uid = l.type) (built : Build.label l d = .ok e) : ScalarTree scope labels e
  | goto {kind l v type e} (value : ∀ a, v = some a → ScalarTree scope labels a)
      (known : labels l.uid = l.type) (built : Build.goto kind l v type = .ok e) :
      ScalarTree scope labels e
  | loop {a b c} (body : ScalarTree scope labels a)
      (broken : ∀ l, b = some l → labels l.uid = l.type)
      (continued : ∀ l, c = some l → labels l.uid = l.type) :
      ScalarTree scope labels (Build.loop a b c)

/-- Every variable of the scope has a value of its type in a frame. -/
def ScopeTyped (scope : Parameter → Prop) (frame : FrameId) (m : Machine) : Prop :=
  ∀ p, scope p → ∃ v, m.frames.lookup frame p.uid = some v ∧ p.type.keeps v.value = true

/-- The runs that keep a scope typed, fail by arithmetic only, and jump with typed values. -/
abbrev Sound {α : Type} (scope : Parameter → Prop) (labels : Nat → StaticType) (frame : FrameId)
    (values : α → Prop) (x : Run α) : Prop :=
  Run.Ends (ScopeTyped scope frame) (fun f => f.isArithmetic = true)
    (fun target v => (labels target).keeps v.value = true) values x

/-! ## Types of values -/

/-- A value fits every type that its own type is assignable to. -/
theorem StaticType.keeps_of_assignable {target source : StaticType} {v : Value}
    (fits : target.assignable source = true) (typed : source.keeps v = true) :
    target.keeps v = true := by
  cases target with
  | value t =>
    rw [assignable_value_iff.1 fits] at typed
    exact typed
  | func ps r => rfl
  | pureFunc ps r => rfl
  | reference n => rfl
  | void => rfl

/-! ## Primitive runs -/

section

variable {scope : Parameter → Prop} {labels : Nat → StaticType} {frame : FrameId}

theorem sound_boxResult {t : ValueType} {x : Except Fault Value} (h : YieldsValue t x) :
    Sound scope labels frame (fun v => v.value.hasType t = true) (Run.boxResult x) := by
  intro m typed
  cases x with
  | ok v => exact ⟨h, typed⟩
  | error f => exact ⟨h, typed⟩

theorem sound_truth (b : Bool) :
    Sound scope labels frame (fun v => v.value.hasType .bool = true) (Run.truth b) :=
  sound_boxResult (x := .ok (.scalar (.bool b))) rfl

theorem sound_lookup {p : Parameter} (declared : scope p) :
    Sound scope labels frame (fun v => p.type.keeps v.value = true) (Run.lookup frame p) := by
  intro m typed
  obtain ⟨v, bound, fits⟩ := typed p declared
  unfold Run.lookup
  rw [bound]
  exact ⟨fits, typed⟩

/-- An assignment of a value of the type keeps all variables typed: those of the same number are of
the same type, since one value has it. -/
theorem sound_assign {p : Parameter} {v : Boxed} (declared : scope p) (value : p.type.isValue = true)
    (fits : p.type.keeps v.value = true) :
    Sound scope labels frame (fun _ => True) (Run.assign frame p v) := by
  intro m typed
  obtain ⟨old, bound, before⟩ := typed p declared
  obtain ⟨assigned, done⟩ := Frames.assign_of_lookup bound v
  unfold Run.assign
  rw [done]
  refine ⟨trivial, fun q inside => ?_⟩
  obtain ⟨w, found, fitting⟩ := typed q inside
  simp only [Frames.lookup_assign done]
  -- two parameters of one number may be of different types, and then the value that was there had both
  by_cases same : q.uid = p.uid
  · refine ⟨v, by rw [if_pos same], ?_⟩
    rw [same, bound] at found
    cases found
    obtain ⟨t, type⟩ := StaticType.isValue_iff.1 value
    rw [type] at before fits
    cases qtype : q.type with
    | value s =>
      rw [qtype] at fitting
      obtain ⟨a, shape, ofT⟩ := Value.hasType_iff.1 before
      obtain ⟨b, shape', ofS⟩ := Value.hasType_iff.1 fitting
      rw [shape] at shape'
      cases shape'
      rw [← ofS, ofT]
      exact fits
    | func ps r => rfl
    | pureFunc ps r => rfl
    | reference n => rfl
    | void => rfl
  · exact ⟨w, by rw [if_neg same]; exact found, fitting⟩

theorem sound_applyUnary {op : UnaryOp} {a e : Expr} {type : Option StaticType}
    (built : Build.unary op a type = .ok e) (value : e.type.isValue = true) :
    ∃ t, e = .unary op a t ∧ ∀ v, a.type.keeps v.value = true →
      Sound scope labels frame (fun w => t.keeps w.value = true)
        (Run.applyUnary op a.type t v) := by
  rcases Build.unary_ok built with ⟨t, conversion, -, rfl, valued⟩ |
    ⟨s, other, rfl, operand, whole, number⟩
  · refine ⟨t, rfl, fun v typed => ?_⟩
    obtain ⟨r, rfl⟩ := StaticType.isValue_iff.1 value
    obtain ⟨s, operand⟩ := valued rfl
    rw [operand] at typed
    unfold Run.applyUnary
    split
    next kept =>
      rw [Bool.and_eq_true] at kept
      exact .of_pure kept.2
    next => exact sound_boxResult (UnaryOp.apply_yields_of_conversion conversion typed r)
  · refine ⟨.value s, rfl, fun v typed => ?_⟩
    rw [operand] at typed
    unfold Run.applyUnary
    rw [other]
    exact sound_boxResult (UnaryOp.apply_yields other typed whole number)

end

namespace ScalarTree

variable {scope : Parameter → Prop} {labels : Nat → StaticType}

/-- The leaves and labels of the fragment are known: a scalar tree is a variable of the scope, a
label of the type that is known of it, or neither a variable nor a label. -/
theorem shape {e : Expr} (h : ScalarTree scope labels e) :
    (∃ p, e = .parameter p ∧ scope p ∧ p.type.isValue = true) ∨
    (∃ l d, e = .label l d l.type ∧ labels l.uid = l.type) ∨
    (e.parameter? = none ∧ e.labelUid? = none) := by
  cases h with
  | @parameter p declared value => exact .inl ⟨p, rfl, declared, value⟩
  | @label l d _ _ known built => exact .inr (.inl ⟨l, d, (Build.label_ok built).1, known⟩)
  | constant built =>
    obtain ⟨w, -, rfl⟩ := Build.constant_eq_ok.1 built
    exact .inr (.inr ⟨rfl, rfl⟩)
  | unary _ built =>
    rcases Build.unary_ok built with ⟨t, -, -, rfl, -⟩ | ⟨s, -, rfl, -⟩ <;>
      exact .inr (.inr ⟨rfl, rfl⟩)
  | @binary op a b _ _ _ built =>
    by_cases assignment : op = .assign
    · subst assignment
      obtain ⟨q, -, -, rfl⟩ := Build.assign_ok built
      exact .inr (.inr ⟨rfl, rfl⟩)
    · obtain ⟨_, _, _, -, -, -, rfl⟩ := Build.binary_ok assignment built
      exact .inr (.inr ⟨rfl, rfl⟩)
  | conditional _ _ _ built =>
    obtain ⟨-, t, rfl, -⟩ := Build.condition_ok built
    exact .inr (.inr ⟨rfl, rfl⟩)
  | block => exact .inr (.inr ⟨rfl, rfl⟩)
  | goto _ _ built =>
    rw [(Build.goto_ok built).1]
    exact .inr (.inr ⟨rfl, rfl⟩)
  | loop => exact .inr (.inr ⟨rfl, rfl⟩)

/-- A variable in a scalar tree is one of the scope, of a value type. -/
theorem of_parameter {p : Parameter} (h : ScalarTree scope labels (.parameter p)) :
    scope p ∧ p.type.isValue = true := by
  rcases h.shape with ⟨q, same, declared, value⟩ | ⟨l, d, impossible, -⟩ | ⟨impossible, -⟩
  · cases same
    exact ⟨declared, value⟩
  · cases impossible
  · cases impossible

/-- A label in a scalar tree has the type that is known of it. -/
theorem of_label {e : Expr} (h : ScalarTree scope labels e) {target : Nat}
    (labelled : e.labelUid? = some target) : labels target = e.type := by
  rcases h.shape with ⟨q, rfl, -⟩ | ⟨l, d, rfl, known⟩ | ⟨-, unlabelled⟩
  · cases labelled
  · cases labelled
    exact known
  · rw [unlabelled] at labelled
    cases labelled

/-- Nothing stands in the way of evaluating a scalar tree. -/
theorem obstacle?_eq_none {e : Expr} (h : ScalarTree scope labels e) : e.obstacle? = none := by
  induction h with
  | constant built =>
    obtain ⟨w, -, rfl⟩ := Build.constant_eq_ok.1 built
    rfl
  | parameter => rfl
  | unary _ built _ ih =>
    rcases Build.unary_ok built with ⟨t, -, -, rfl, -⟩ | ⟨s, -, rfl, -⟩ <;> exact ih
  | @binary op a b _ _ _ built left right =>
    by_cases assignment : op = .assign
    · subst assignment
      obtain ⟨q, rfl, -, rfl⟩ := Build.assign_ok built
      simp [Expr.obstacle?, right, Expr.parameter?]
    · obtain ⟨_, _, _, -, -, -, rfl⟩ := Build.binary_ok assignment built
      simp [Expr.obstacle?, left, right, assignment]
  | conditional _ _ _ built tested ifTrue ifFalse =>
    obtain ⟨-, t, rfl, -⟩ := Build.condition_ok built
    simp [Expr.obstacle?, tested, ifTrue, ifFalse]
  | block _ ih => exact Expr.obstacleAmong?_eq_none.2 ih
  | @label l d _ _ _ built ih =>
    rw [(Build.label_ok built).1]
    cases d with
    | none => rfl
    | some a => exact ih a rfl
  | @goto kind l v _ _ _ _ built ih =>
    rw [(Build.goto_ok built).1]
    cases v with
    | none => rfl
    | some a => exact ih a rfl
  | loop _ _ _ ih => exact ih

section

variable [Host] {frame : FrameId} (call : Caller) (fuel : Nat) (context : Context)

/-- An operator other than an assignment has a value of its type, if its operands have values of types that it
admits. -/
theorem sound_operator {op : BinaryOp} {a b : Expr} {s t r : ValueType} (other : op ≠ .assign)
    (admitted : Build.binaryType op s t = .ok r)
    (left : Sound scope labels frame (fun v => v.value.hasType s = true)
      (a.eval ⟨call, Run.applyUnary⟩ fuel context frame))
    (right : Sound scope labels frame (fun v => v.value.hasType t = true)
      (b.eval ⟨call, Run.applyUnary⟩ fuel context frame)) :
    Sound scope labels frame (fun v => v.value.hasType r = true)
      ((Expr.binary op a b (.value r)).eval ⟨call, Run.applyUnary⟩ fuel context frame) := by
  cases strict : op.isShortCircuit with
  | false =>
    rw [Expr.eval_binary_of_strict _ _ _ _ other strict]
    refine left.bind fun v first => right.bind fun w second => ?_
    exact sound_boxResult (BinaryOp.apply_yields other first second admitted)
  | true =>
    have truth := Build.binaryType_of_shortCircuit strict admitted
    subst truth
    cases op with
    | andAlso =>
      refine left.bind fun v _ => ?_
      split
      · exact right.bind fun w _ => sound_truth _
      · exact sound_truth _
    | orElse =>
      refine left.bind fun v _ => ?_
      split
      · exact sound_truth _
      · exact right.bind fun w _ => sound_truth _
    | _ => cases strict

/-- A block without variables has the type of its last step, and so has the label of that step. -/
theorem sound_block {es : List Expr} (steps : ∀ e ∈ es, ScalarTree scope labels e)
    (sound : ∀ e ∈ es, Sound scope labels frame (fun v => e.type.keeps v.value = true)
      (e.eval ⟨call, Run.applyUnary⟩ fuel context frame)) :
    Sound scope labels frame (fun v => (Build.block [] es none).type.keeps v.value = true)
      ((Build.block [] es none).eval ⟨call, Run.applyUnary⟩ fuel context frame) := by
  -- a block has the type of its last step, so the others may give anything
  have last : ∀ s, (Expr.steps ⟨call, Run.applyUnary⟩ fuel context frame es).getLast? = some s →
      ∃ e ∈ es, (Build.block [] es none).type = e.type ∧
        s = ⟨e.labelUid?, e.eval ⟨call, Run.applyUnary⟩ fuel context frame⟩ := by
    intro s ending
    rw [Expr.steps_eq_map, List.getLast?_map] at ending
    obtain ⟨e, final, rfl⟩ := Option.map_eq_some_iff.1 ending
    refine ⟨e, List.mem_of_getLast? final, ?_, rfl⟩
    simp only [Build.block, Expr.type, final, Option.getD_none]
  refine Run.Ends.runFrom ?_ ?_ ?_ fuel ⟨[], rfl⟩ ?_
  · intro s inside
    rw [Expr.steps_eq_map] at inside
    obtain ⟨e, member, rfl⟩ := List.mem_map.1 inside
    exact (sound e member).weaken fun _ _ => trivial
  · intro s ending
    obtain ⟨e, member, type, rfl⟩ := last s ending
    rw [type]
    exact sound e member
  · intro s target v ending labelled typed
    obtain ⟨e, member, type, rfl⟩ := last s ending
    rw [type, ← (steps e member).of_label labelled]
    exact typed
  · intro nothing
    rw [Expr.steps_eq_map, List.map_eq_nil_iff] at nothing
    subst nothing
    rfl

end

/-- The evaluation of a scalar tree, whatever functions do that are called. It calls none. -/
theorem sound [Host] {e : Expr} (h : ScalarTree scope labels e) (call : Caller) (fuel : Nat)
    (context : Context) (frame : FrameId) :
    Sound scope labels frame (fun v => e.type.keeps v.value = true)
      (e.eval ⟨call, Run.applyUnary⟩ fuel context frame) := by
  induction h with
  | @constant v type e built value =>
    obtain ⟨w, coerced, rfl⟩ := Build.constant_eq_ok.1 built
    generalize type.getD v.value.inferredType = given at coerced value ⊢
    obtain ⟨t, rfl⟩ := StaticType.isValue_iff.1 value
    exact .of_pure (ValueType.coerce_hasType coerced)
  | parameter declared value => exact sound_lookup declared
  | @unary op a type e _ built value operand =>
    obtain ⟨t, rfl, applied⟩ := sound_applyUnary built value
    exact operand.bind applied
  | @binary op a b e left right built ihLeft ihRight =>
    by_cases assignment : op = .assign
    · subst assignment
      obtain ⟨p, rfl, fits, rfl⟩ := Build.assign_ok built
      obtain ⟨declared, value⟩ := left.of_parameter
      -- an assigned value has the type that the variable declares, so the frame stays typed
      refine ihRight.bind fun v typed => ?_
      have kept := StaticType.keeps_of_assignable fits typed
      exact (sound_assign declared value kept).bind fun _ _ => .of_pure kept
    · obtain ⟨s, t, r, ofLeft, ofRight, admitted, rfl⟩ := Build.binary_ok assignment built
      rw [ofLeft] at ihLeft
      rw [ofRight] at ihRight
      exact sound_operator call fuel context assignment admitted ihLeft ihRight
  | @conditional test a b type e _ _ _ built tested ifTrue ifFalse =>
    obtain ⟨-, t, rfl, fits⟩ := Build.condition_ok built
    refine tested.bind fun v _ => ?_
    by_cases empty : t = .void
    · subst empty
      split
      · exact ifTrue.weaken fun _ _ => rfl
      · exact ifFalse.weaken fun _ _ => rfl
    · obtain ⟨left, right⟩ := fits empty
      split
      · exact ifTrue.weaken fun _ typed => StaticType.keeps_of_assignable left typed
      · exact ifFalse.weaken fun _ typed => StaticType.keeps_of_assignable right typed
  | block steps ih => exact sound_block call fuel context steps ih
  | @label l d _ _ known built ih =>
    obtain ⟨rfl, empty, fits⟩ := Build.label_ok built
    cases d with
    | none =>
      refine .of_pure ?_
      rw [Expr.type, empty rfl]
      rfl
    | some a => exact (ih a rfl).weaken fun _ => StaticType.keeps_of_assignable (fits a rfl)
  | @goto kind l v _ _ _ known built ih =>
    obtain ⟨rfl, empty, fits⟩ := Build.goto_ok built
    cases v with
    | none =>
      refine .jump ?_
      rw [known, empty rfl]
      rfl
    | some a =>
      refine (ih a rfl).bind fun v typed => .jump ?_
      rw [known]
      exact StaticType.keeps_of_assignable (fits a rfl) typed
  | @loop a b c _ broken continued ih =>
    refine Run.Ends.loop (ih.weaken fun _ _ => trivial) ?_ fuel
    -- a loop ends by a jump to its label, so with the type of what that label is given
    intro target v broke typed
    cases b with
    | none => cases broke
    | some l =>
      cases broke
      rw [broken l rfl] at typed
      exact typed

/-- **Soundness of the scalar fragment.** Nothing stands in the way of evaluating a scalar tree. In
a frame where the variables have values of their types it ends in a value of the static type of the
tree, a fault of arithmetic, or a jump with a value of the type of its label, unless it is out of
fuel, and the variables have values of their types still. -/
theorem eval_sound [Host] {e : Expr} (h : ScalarTree scope labels e) {frame : FrameId} {m : Machine}
    (typed : ScopeTyped scope frame m) (fuel : Nat) (context : Context) :
    e.obstacle? = none ∧
    (Run.eval fuel context frame e m).1.Among
      (fun f => f.isArithmetic = true)
      (fun target v => ∀ t, labels target = .value t → v.value.hasType t = true)
      (fun v => ∀ t, e.type = .value t → v.value.hasType t = true) ∧
    ScopeTyped scope frame (Run.eval fuel context frame e m).2 := by
  obtain ⟨among, kept⟩ := h.sound (Run.call fuel) fuel context frame m typed
  refine ⟨h.obstacle?_eq_none, among.imp (fun _ => id) ?_ ?_, kept⟩
  · intro target v fits t type
    rw [type] at fits
    exact fits
  · intro v fits t type
    rw [type] at fits
    exact fits

/-- The sum of a variable and one, assigned to the variable: `x = x +! 1` at a small type. -/
def increment (x : Parameter) : Expr :=
  .binary .assign (.parameter x)
    (.binary .addChecked (.parameter x) (.constant ⟨.scalar (.wrapped ⟨true, .w8⟩ 1), 0⟩ (.value .int8))
      (.value .int8)) (.value .int8)

/-- A variable of a small type. -/
def counter : Parameter := ⟨"x", .value .int8, 1⟩

/-- A machine with one frame, in which the variable has a value. -/
def counting (v : Int) : Machine :=
  (Run.openFrame none [(1, ⟨.scalar (.wrapped ⟨true, .w8⟩ v), 0⟩)] (.initial 1)).2

/-- At the end of the range the increment fails by a fault of arithmetic, and the variable keeps a
value of its type. -/
theorem eval_sound_increment :
    ScalarTree (fun p => p = counter) (fun _ => .void) (increment counter) ∧
    ScopeTyped (fun p => p = counter) 0 (counting 127) ∧
    ScopeTyped (fun p => p = counter) 0
      (Run.eval 1 .empty 0 (increment counter) (counting 127)).2 := by
  have tree : ScalarTree (fun p => p = counter) (fun _ => .void) (increment counter) := by
    have x : ScalarTree (fun p => p = counter) (fun _ => .void) (.parameter counter) :=
      .parameter rfl rfl
    have one : ScalarTree (fun p => p = counter) (fun _ => .void)
        (.constant ⟨.scalar (.wrapped ⟨true, .w8⟩ 1), 0⟩ (.value .int8)) :=
      @ScalarTree.constant _ _ ⟨.int 1, 0⟩ (some (.value .int8)) _ rfl rfl
    have sum : ScalarTree (fun p => p = counter) (fun _ => .void)
        (.binary .addChecked (.parameter counter)
          (.constant ⟨.scalar (.wrapped ⟨true, .w8⟩ 1), 0⟩ (.value .int8)) (.value .int8)) :=
      .binary x one (show Build.binary .addChecked _ _ = _ from rfl)
    have built : Build.binary .assign (.parameter counter)
        (.binary .addChecked (.parameter counter)
          (.constant ⟨.scalar (.wrapped ⟨true, .w8⟩ 1), 0⟩ (.value .int8)) (.value .int8)) =
        .ok (increment counter) := rfl
    exact .binary x sum built
  have typed : ScopeTyped (fun p => p = counter) 0 (counting 127) := by
    rintro p rfl
    exact ⟨⟨.scalar (.wrapped ⟨true, .w8⟩ 127), 0⟩, rfl, rfl⟩
  exact ⟨tree, typed, (tree.eval_sound typed 1 .empty).2.2⟩

end ScalarTree

end Knot
