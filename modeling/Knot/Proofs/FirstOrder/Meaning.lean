import Knot.Definition
import Knot.Proofs.Operators

/-!
# First-order definitions and their meaning

A first-order definition is a function of one integer or truth value, `(self) => (x) => body`, whose
body is made of constants, `x`, operators, conditionals and calls of `self`
(`FirstOrderDefinition`).

Its meaning needs no machine. `Expr.meaning` is the answer of a body, given the answers of the calls
in it; `FirstOrderDefinition.approx n` answers with calls nested less than `n` deep, and
`FirstOrderDefinition.limit` with calls of any depth. The limit solves the equation of the
definition (`limit_eq_meaning`), and it answers what some approximation answers
(`limit_eq_some_iff`).

`Kernel` describes the bodies together with the marks that a compilation puts into them: cached
calls and split operations. Marks do not change the meaning, since `Expr.meaning` does not look at
them.
-/

namespace Knot

/-! ## Answers -/

/-- What a computation answers, if it comes to an end. -/
abbrev Partial := Option (Except Fault Value)

namespace Partial

/-- A value, for certain. -/
def value (v : Value) : Partial := some (.ok v)

/-- One computation after another; the second takes place only if the first answers by a value. -/
def andThen (x : Partial) (f : Value → Partial) : Partial :=
  match x with
  | some (.ok v) => f v
  | some (.error e) => some (.error e)
  | none => none

@[simp] theorem andThen_ok (v : Value) (f : Value → Partial) : andThen (some (.ok v)) f = f v := rfl

@[simp] theorem andThen_value (v : Value) (f : Value → Partial) : (value v).andThen f = f v := rfl

@[simp] theorem andThen_error (e : Fault) (f : Value → Partial) :
    andThen (some (.error e)) f = some (.error e) := rfl

@[simp] theorem andThen_none (f : Value → Partial) : andThen none f = none := rfl

/-- A value at the end is a value of the second computation on a value of the first. -/
theorem andThen_eq_ok {x : Partial} {f : Value → Partial} {w : Value} :
    x.andThen f = some (.ok w) ↔ ∃ v, x = some (.ok v) ∧ f v = some (.ok w) := by
  rcases x with - | (e | v) <;> simp

/-- The first computation answers as the second does, or not at all. -/
def Below (x y : Partial) : Prop := x = none ∨ x = y

theorem Below.refl (x : Partial) : Below x x := .inr rfl

theorem Below.of_none (y : Partial) : Below none y := .inl rfl

theorem Below.trans {x y z : Partial} (first : Below x y) (second : Below y z) : Below x z := by
  rcases first with rfl | rfl
  · exact .of_none z
  · exact second

theorem Below.eq_of_some {x y : Partial} {r : Except Fault Value} (h : Below x y)
    (answer : x = some r) : y = some r := by
  rcases h with rfl | rfl
  · cases answer
  · exact answer

theorem Below.andThen {x y : Partial} {f g : Value → Partial} (first : Below x y)
    (second : ∀ v, y = some (.ok v) → Below (f v) (g v)) :
    Below (x.andThen f) (y.andThen g) := by
  rcases first with rfl | rfl
  · exact .of_none _
  · rcases x with - | (e | v)
    · exact .of_none _
    · exact .refl _
    · exact second v rfl

end Partial

/-! ## Bodies -/

/-- What the body of a first-order definition is built from. -/
inductive FirstOrder (self x : Parameter) : Expr → Prop
  | constant {v type e} (built : Build.constant v type = .ok e) (value : e.type.isValue = true) :
      FirstOrder self x e
  | argument : FirstOrder self x (.parameter x)
  | unary {op a type e} (operand : FirstOrder self x a) (built : Build.unary op a type = .ok e)
      (value : e.type.isValue = true) : FirstOrder self x e
  | binary {op a b e} (left : FirstOrder self x a) (right : FirstOrder self x b)
      (other : op ≠ .assign) (built : Build.binary op a b = .ok e) : FirstOrder self x e
  | conditional {test a b type e} (tested : FirstOrder self x test) (ifTrue : FirstOrder self x a)
      (ifFalse : FirstOrder self x b) (built : Build.condition test a b type = .ok e) :
      FirstOrder self x e
  | call {a e} (argument : FirstOrder self x a)
      (built : Build.invoke (.parameter self) [a] = .ok e) : FirstOrder self x e

/-- A definition `(self) => (x) => body` of a function from integers or truth values to integers or
truth values. -/
structure FirstOrderDefinition where
  self : Parameter
  argument : Parameter
  body : Expr
  domain : ValueType
  codomain : ValueType
  self_type : self.type = .func [.value domain] (.value codomain)
  argument_type : argument.type = .value domain
  body_type : body.type = .value codomain
  domain_whole : domain.isFloat = false
  codomain_whole : codomain.isFloat = false
  first_order : FirstOrder self argument body

namespace FirstOrderDefinition

variable (d : FirstOrderDefinition)

/-- The function that is defined. -/
def function : Expr :=
  .lambda [.parameter d.argument] d.body (.func [.value d.domain] (.value d.codomain))

/-- The whole definition. -/
def tree : Expr :=
  .lambda [.parameter d.self] d.function (.func [d.self.type] d.function.type)

/-- The function and the definition are what the builder gives. -/
theorem tree_built :
    Build.lambda [.parameter d.argument] d.body = .ok d.function ∧
      Build.lambda [.parameter d.self] d.function = .ok d.tree := by
  constructor
  · show Except.ok (Expr.lambda _ _ (.func [d.argument.type] d.body.type)) = _
    rw [d.argument_type, d.body_type]
    rfl
  · rfl

end FirstOrderDefinition

/-- The bodies of first-order definitions, at their types, with the marks of a compilation: its
calls go to `f` and are cached or not, and operations on two calls may be split. If `calm` holds, no
connective is split. -/
inductive Kernel (o : CompileOptions) (calm : Prop) (f x : Parameter) (domain codomain : ValueType) :
    Expr → ValueType → Prop
  | constant {v t} (typed : v.value.hasType t = true) :
      Kernel o calm f x domain codomain (.constant v (.value t)) t
  | argument : Kernel o calm f x domain codomain (.parameter x) domain
  | conversion {op a s t} (operand : Kernel o calm f x domain codomain a s)
      (conversion : op.isConversion = true) :
      Kernel o calm f x domain codomain (.unary op a (.value t)) t
  | unary {op a t} (operand : Kernel o calm f x domain codomain a t)
      (other : op.isConversion = false) (whole : op = .not → t.isFloat = false)
      (number : op ≠ .not → t.isBool = false) :
      Kernel o calm f x domain codomain (.unary op a (.value t)) t
  | binary {op a b s t r} (left : Kernel o calm f x domain codomain a s)
      (right : Kernel o calm f x domain codomain b t) (other : op ≠ .assign)
      (admitted : Build.binaryType op s t = .ok r) :
      Kernel o calm f x domain codomain (.binary op a b (.value r)) r
  | conditional {test a b t} (tested : Kernel o calm f x domain codomain test .bool)
      (ifTrue : Kernel o calm f x domain codomain a t)
      (ifFalse : Kernel o calm f x domain codomain b t) :
      Kernel o calm f x domain codomain (.conditional test a b (.value t)) t
  | invoke {a} (argument : Kernel o calm f x domain codomain a domain)
      (uncached : o.caching = false) :
      Kernel o calm f x domain codomain (.invoke (.parameter f) [a] (.value codomain)) codomain
  | cached {a} (argument : Kernel o calm f x domain codomain a domain) (caching : o.caching = true) :
      Kernel o calm f x domain codomain (.cached (.parameter f) a (.value codomain) o.cache) codomain
  | parallel {op a b s t r} (left : Kernel o calm f x domain codomain a s)
      (right : Kernel o calm f x domain codomain b t) (splittable : op.splittable = true)
      (admitted : Build.binaryType op s t = .ok r) (threading : o.threading = true)
      (leftCall : a.isCall = true) (rightCall : b.isCall = true)
      (quiet : calm → op.isShortCircuit = false) :
      Kernel o calm f x domain codomain (.parallel op a b (.value r) o.pool) r

/-- The static type of a body is the one it is a body at. -/
theorem Kernel.type {o : CompileOptions} {calm : Prop} {f x : Parameter} {domain codomain : ValueType}
    {e : Expr} {t : ValueType} (argument : x.type = .value domain)
    (h : Kernel o calm f x domain codomain e t) : e.type = .value t := by
  cases h <;> first | rfl | exact argument

/-- What a first-order definition is built from, at a value type, is a body without marks. -/
theorem FirstOrder.kernel {self x : Parameter} {domain codomain : ValueType}
    (self_type : self.type = .func [.value domain] (.value codomain))
    (argument_type : x.type = .value domain) {e : Expr} (h : FirstOrder self x e) :
    ∀ {t : ValueType}, e.type = .value t →
      Kernel .plain True self x domain codomain e t := by
  induction h with
  | @constant v type e built value =>
    intro t known
    obtain ⟨w, coerced, rfl⟩ := Build.constant_eq_ok.1 built
    generalize type.getD v.value.inferredType = given at coerced known ⊢
    cases known
    exact .constant (ValueType.coerce_hasType coerced)
  | argument =>
    intro t known
    have same : StaticType.value domain = .value t := argument_type.symm.trans known
    cases same
    exact .argument
  | unary _ built value ih =>
    intro t known
    rcases Build.unary_ok built with ⟨r, conversion, -, rfl, valued⟩ |
      ⟨s, other, rfl, operand, whole, number⟩
    · cases known
      obtain ⟨s, operand⟩ := valued rfl
      exact .conversion (ih operand) conversion
    · cases known
      exact .unary (ih operand) other whole number
  | binary _ _ other built left right =>
    intro t known
    obtain ⟨s, u, r, ofLeft, ofRight, admitted, rfl⟩ := Build.binary_ok other built
    cases known
    exact .binary (left ofLeft) (right ofRight) other admitted
  | conditional _ _ _ built tested ifTrue ifFalse =>
    intro t known
    obtain ⟨truth, u, rfl, fits⟩ := Build.condition_ok built
    cases known
    obtain ⟨left, right⟩ := fits (by simp)
    exact .conditional (tested truth) (ifTrue (StaticType.assignable_value_iff.1 left))
      (ifFalse (StaticType.assignable_value_iff.1 right))
  | @call a e _ built ih =>
    intro t known
    obtain ⟨params, result, callable, counted, fits, rfl⟩ := Build.invoke_ok built
    -- the function that is defined is called by its own type, which has one parameter
    have shape : params = [.value domain] ∧ result = .value codomain := by
      rcases callable with callable | callable
      · have same := self_type.symm.trans callable
        cases same
        exact ⟨rfl, rfl⟩
      · have same := self_type.symm.trans callable
        cases same
    obtain ⟨rfl, rfl⟩ := shape
    cases known
    have argument : a.type = .value domain := by
      unfold Build.misfit? at fits
      split at fits
      next assignable => exact StaticType.assignable_value_iff.1 assignable
      next => cases fits
    exact .invoke (ih argument) rfl

/-! ## Meaning -/

/-- What a connective answers when the left operand decides it. -/
def BinaryOp.decided? (op : BinaryOp) (left : Value) : Option Bool :=
  match op with
  | .andAlso => if left.truthy then none else some false
  | .orElse => if left.truthy then some true else none
  | _ => none

/-- The answer of a binary operator on the answers of its operands. A connective does not ask for
the right one when the left one decides. -/
def BinaryOp.join (op : BinaryOp) (left right : Partial) : Partial :=
  left.andThen fun v =>
    match op.decided? v with
    | some c => .value (.scalar (.bool c))
    | none => right.andThen fun w => some (op.apply v w)

/-- The answer of a body on an argument, given the answers of calls. -/
def Expr.meaning (call : Value → Partial) (argument : Value) : Expr → Partial
  | constant v _ => .value v.value
  | parameter _ => .value argument
  | unary op a t => (a.meaning call argument).andThen fun v => some (op.apply v t)
  | binary op a b _ | parallel op a b _ _ =>
    op.join (a.meaning call argument) (b.meaning call argument)
  | conditional a b c _ =>
    (a.meaning call argument).andThen fun v =>
      if v.truthy then b.meaning call argument else c.meaning call argument
  | invoke _ [a] _ | cached _ a _ _ => (a.meaning call argument).andThen call
  | _ => none

/-- Calls that answer by values of a type when they are given values of a type. -/
def TypedCalls (domain codomain : ValueType) (call : Value → Partial) : Prop :=
  ∀ a v, a.hasType domain = true → call a = some (.ok v) → v.hasType codomain = true

namespace BinaryOp

/-- Only a connective is decided by its left operand. -/
theorem isShortCircuit_of_decided? {op : BinaryOp} {v : Value} {c : Bool}
    (h : op.decided? v = some c) : op.isShortCircuit = true := by
  cases op <;> first | rfl | cases h

/-- On operands of the types that the builder admits an operator answers by values of the type of the
node. -/
theorem join_typed {op : BinaryOp} {s t r : ValueType} (other : op ≠ .assign)
    (admitted : Build.binaryType op s t = .ok r) {x y : Partial}
    (left : ∀ {v}, x = some (.ok v) → v.hasType s = true)
    (right : ∀ {w}, y = some (.ok w) → w.hasType t = true) {z : Value}
    (answer : op.join x y = some (.ok z)) : z.hasType r = true := by
  obtain ⟨v, ofLeft, answer⟩ := Partial.andThen_eq_ok.1 answer
  split at answer
  next c decided =>
    rw [Build.binaryType_of_shortCircuit (isShortCircuit_of_decided? decided) admitted]
    cases answer
    rfl
  next =>
    obtain ⟨w, ofRight, applied⟩ := Partial.andThen_eq_ok.1 answer
    have yields := apply_yields other (left ofLeft) (right ofRight) admitted
    rw [Option.some.inj applied] at yields
    exact yields

theorem join_below (op : BinaryOp) {x x' y y' : Partial} (left : x.Below x') (right : y.Below y') :
    (op.join x y).Below (op.join x' y') := by
  refine left.andThen fun v _ => ?_
  split
  · exact .refl _
  · exact right.andThen fun w _ => .refl _

/-- On two values an operator answers as it is applied, whether or not the left one decides. -/
theorem join_values (op : BinaryOp) {v : Value} {s : ValueType} (typed : v.hasType s = true)
    (w : Value) : op.join (some (.ok v)) (some (.ok w)) = some (op.apply v w) := by
  obtain ⟨a, rfl, -⟩ := Value.hasType_iff.1 typed
  cases op with
  | andAlso =>
    have applied : BinaryOp.andAlso.apply (.scalar a) w =
        .ok (.scalar (.bool (a.truthy && w.truthy))) := rfl
    cases truth : a.truthy <;> simp [join, decided?, Value.truthy, truth, applied, Partial.value]
  | orElse =>
    have applied : BinaryOp.orElse.apply (.scalar a) w =
        .ok (.scalar (.bool (a.truthy || w.truthy))) := rfl
    cases truth : a.truthy <;> simp [join, decided?, Value.truthy, truth, applied, Partial.value]
  | _ => rfl

/-- An operator that is no connective asks for both operands. -/
theorem join_of_strict {op : BinaryOp} (strict : op.isShortCircuit = false) (x y : Partial) :
    op.join x y = x.andThen fun v => y.andThen fun w => some (op.apply v w) := by
  cases op <;> first | rfl | cases strict

theorem join_eq_ok_of_strict {op : BinaryOp} (strict : op.isShortCircuit = false) {x y : Partial}
    {z : Value} (answer : op.join x y = some (.ok z)) :
    ∃ v w, x = some (.ok v) ∧ y = some (.ok w) ∧ op.apply v w = .ok z := by
  rw [join_of_strict strict] at answer
  obtain ⟨v, left, answer⟩ := Partial.andThen_eq_ok.1 answer
  obtain ⟨w, right, applied⟩ := Partial.andThen_eq_ok.1 answer
  exact ⟨v, w, left, right, Option.some.inj applied⟩

/-- A connective that its left operand leaves open answers by the truth of the right one. -/
theorem apply_of_undecided {op : BinaryOp} (connective : op.isShortCircuit = true) {v : Value}
    {s : ValueType} (typed : v.hasType s = true) (undecided : op.decided? v = none) (w : Value) :
    op.apply v w = .ok (.scalar (.bool w.truthy)) := by
  obtain ⟨a, rfl, -⟩ := Value.hasType_iff.1 typed
  cases op with
  | andAlso =>
    show Except.ok (Value.scalar (.bool (a.truthy && w.truthy))) = _
    cases truth : a.truthy with
    | true => rw [Bool.true_and]
    | false => simp [decided?, Value.truthy, truth] at undecided
  | orElse =>
    show Except.ok (Value.scalar (.bool (a.truthy || w.truthy))) = _
    cases truth : a.truthy with
    | true => simp [decided?, Value.truthy, truth] at undecided
    | false => rw [Bool.false_or]
  | _ => cases connective

/-- An operator that may be split is no assignment. -/
theorem ne_assign_of_splittable {op : BinaryOp} (h : op.splittable = true) : op ≠ .assign := by
  rintro rfl
  cases h

end BinaryOp

namespace Kernel

variable {o : CompileOptions} {calm : Prop} {f x : Parameter} {domain codomain : ValueType} {e : Expr}
  {t : ValueType}

/-- A body answers by values of its type. -/
theorem meaning_typed (h : Kernel o calm f x domain codomain e t) {call : Value → Partial}
    (typed : TypedCalls domain codomain call) {argument : Value}
    (fits : argument.hasType domain = true) :
    ∀ {v}, e.meaning call argument = some (.ok v) → v.hasType t = true := by
  induction h with
  | constant ofType => intro v answer; cases answer; exact ofType
  | argument => intro v answer; cases answer; exact fits
  | @conversion op a s t operand conversion ih =>
    intro w answer
    obtain ⟨v, operand, applied⟩ := Partial.andThen_eq_ok.1 answer
    have yields := UnaryOp.apply_yields_of_conversion conversion (ih operand) t
    rw [Option.some.inj applied] at yields
    exact yields
  | @unary op a t operand other whole number ih =>
    intro w answer
    obtain ⟨v, operand, applied⟩ := Partial.andThen_eq_ok.1 answer
    have yields := UnaryOp.apply_yields other (ih operand) whole number
    rw [Option.some.inj applied] at yields
    exact yields
  | binary _ _ other admitted left right =>
    intro w answer
    exact BinaryOp.join_typed other admitted left right answer
  | parallel _ _ splittable admitted _ _ _ _ left right =>
    intro w answer
    have other := BinaryOp.ne_assign_of_splittable splittable
    exact BinaryOp.join_typed other admitted left right answer
  | conditional _ _ _ _ ifTrue ifFalse =>
    intro w answer
    obtain ⟨v, -, chosen⟩ := Partial.andThen_eq_ok.1 answer
    split at chosen
    · exact ifTrue chosen
    · exact ifFalse chosen
  | invoke _ _ ih | cached _ _ ih =>
    intro w answer
    obtain ⟨v, given, called⟩ := Partial.andThen_eq_ok.1 answer
    exact typed v w (ih given) called

/-- The more the calls answer, the more a body answers. -/
theorem meaning_below (h : Kernel o calm f x domain codomain e t) {call more : Value → Partial}
    (below : ∀ a, (call a).Below (more a)) (argument : Value) :
    (e.meaning call argument).Below (e.meaning more argument) := by
  induction h with
  | constant | argument => exact .refl _
  | conversion _ _ ih | unary _ _ _ _ ih => exact ih.andThen fun v _ => .refl _
  | binary _ _ _ _ left right | parallel _ _ _ _ _ _ _ _ left right =>
    exact BinaryOp.join_below _ left right
  | conditional _ _ _ tested ifTrue ifFalse =>
    refine tested.andThen fun v _ => ?_
    split
    · exact ifTrue
    · exact ifFalse
  | invoke _ _ ih | cached _ _ ih => exact ih.andThen fun v _ => below v

end Kernel

/-! ## Recursion -/

namespace FirstOrderDefinition

variable (d : FirstOrderDefinition)

/-- The answer on an argument when calls nest less than `n` deep. -/
def approx : Nat → Value → Partial
  | 0, _ => none
  | n + 1, a => d.body.meaning (approx n) a

/-- The body of a definition is a body without marks. -/
theorem kernel : Kernel .plain True d.self d.argument d.domain d.codomain d.body d.codomain :=
  d.first_order.kernel d.self_type d.argument_type d.body_type

/-- Deeper calls answer more. -/
theorem approx_below_succ (n : Nat) : ∀ a, (d.approx n a).Below (d.approx (n + 1) a) := by
  induction n with
  | zero => intro a; exact .of_none _
  | succ n ih => intro a; exact d.kernel.meaning_below ih a

theorem approx_below {n k : Nat} (deeper : n ≤ k) (a : Value) :
    (d.approx n a).Below (d.approx k a) := by
  induction deeper with
  | refl => exact .refl _
  | step _ ih => exact ih.trans (d.approx_below_succ _ a)

/-- What is answered at two depths is one answer. -/
theorem approx_unique {n k : Nat} {a : Value} {r r' : Except Fault Value}
    (first : d.approx n a = some r) (second : d.approx k a = some r') : r = r' := by
  rcases Nat.le_total n k with deeper | deeper
  · exact Option.some.inj (((d.approx_below deeper a).eq_of_some first).symm.trans second)
  · exact Option.some.inj (first.symm.trans ((d.approx_below deeper a).eq_of_some second))

/-- The answer on an argument when calls nest to any depth. -/
noncomputable def limit (a : Value) : Partial :=
  open Classical in
  if h : ∃ n r, d.approx n a = some r then some (Classical.choose (Classical.choose_spec h)) else none

/-- The limit answers what some approximation answers. -/
theorem limit_eq_some_iff {a : Value} {r : Except Fault Value} :
    d.limit a = some r ↔ ∃ n, d.approx n a = some r := by
  unfold limit
  split
  next h =>
    have chosen := Classical.choose_spec (Classical.choose_spec h)
    constructor
    · intro same
      exact ⟨_, chosen.trans same⟩
    · rintro ⟨n, answer⟩
      rw [d.approx_unique answer chosen]
  next h =>
    constructor
    · intro impossible
      cases impossible
    · rintro ⟨n, answer⟩
      exact absurd ⟨n, r, answer⟩ h

theorem approx_below_limit (n : Nat) (a : Value) : (d.approx n a).Below (d.limit a) := by
  cases answer : d.approx n a with
  | none => exact .of_none _
  | some r => exact .inr (d.limit_eq_some_iff.2 ⟨n, answer⟩).symm

/-- From some depth on the approximations answer as the limit does. -/
theorem approx_eventually (a : Value) : ∃ n, ∀ k ≥ n, d.approx k a = d.limit a := by
  cases answer : d.limit a with
  | none =>
    refine ⟨0, fun k _ => ?_⟩
    rcases d.approx_below_limit k a with none_yet | same
    · exact none_yet
    · rw [same, answer]
  | some r =>
    obtain ⟨n, found⟩ := d.limit_eq_some_iff.1 answer
    exact ⟨n, fun k deeper => (d.approx_below deeper a).eq_of_some found⟩

theorem approx_typed (n : Nat) : TypedCalls d.domain d.codomain (d.approx n) := by
  induction n with
  | zero => intro a v _ answer; cases answer
  | succ n ih => intro a v fits answer; exact d.kernel.meaning_typed ih fits answer

theorem limit_typed : TypedCalls d.domain d.codomain d.limit := by
  intro a v fits answer
  obtain ⟨n, answer⟩ := d.limit_eq_some_iff.1 answer
  exact d.approx_typed n a v fits answer

end FirstOrderDefinition

namespace Kernel

variable {o : CompileOptions} {calm : Prop} {f x : Parameter} {domain codomain : ValueType} {e : Expr}
  {t : ValueType}

/-- A body asks for finitely many calls, so that from some depth on it answers as with the limit. -/
theorem meaning_eventually (h : Kernel o calm f x domain codomain e t) (d : FirstOrderDefinition)
    (a : Value) : ∃ n, ∀ k ≥ n, e.meaning (d.approx k) a = e.meaning d.limit a := by
  induction h with
  | constant | argument => exact ⟨0, fun k _ => rfl⟩
  | conversion _ _ ih | unary _ _ _ _ ih =>
    obtain ⟨n, settled⟩ := ih
    exact ⟨n, fun k deep => by simp only [Expr.meaning, settled k deep]⟩
  | binary _ _ _ _ left right | parallel _ _ _ _ _ _ _ _ left right =>
    obtain ⟨n, first⟩ := left
    obtain ⟨n', second⟩ := right
    refine ⟨max n n', fun k deep => ?_⟩
    simp only [Expr.meaning, first k (by omega), second k (by omega)]
  | conditional _ _ _ tested ifTrue ifFalse =>
    obtain ⟨n, first⟩ := tested
    obtain ⟨n', second⟩ := ifTrue
    obtain ⟨n'', third⟩ := ifFalse
    refine ⟨max n (max n' n''), fun k deep => ?_⟩
    simp only [Expr.meaning, first k (by omega), second k (by omega), third k (by omega)]
  -- a call settles once its argument has, and then the call of that
  | @invoke e _ _ ih | @cached e _ _ ih =>
    obtain ⟨n, settled⟩ := ih
    rcases given : e.meaning d.limit a with - | (fault | v)
    · exact ⟨n, fun k deep => by simp only [Expr.meaning, settled k deep, given, Partial.andThen_none]⟩
    · exact ⟨n, fun k deep => by simp only [Expr.meaning, settled k deep, given, Partial.andThen_error]⟩
    · obtain ⟨n', called⟩ := d.approx_eventually v
      refine ⟨max n n', fun k deep => ?_⟩
      simp only [Expr.meaning, settled k (by omega), given, Partial.andThen_ok, called k (by omega)]

end Kernel

/-- The limit solves the equation of the definition. -/
theorem FirstOrderDefinition.limit_eq_meaning (d : FirstOrderDefinition) (a : Value) :
    d.limit a = d.body.meaning d.limit a := by
  obtain ⟨n, deep⟩ := d.approx_eventually a
  obtain ⟨n', settled⟩ := d.kernel.meaning_eventually d a
  calc d.limit a = d.approx (max n n' + 1) a := (deep _ (by omega)).symm
    _ = d.body.meaning (d.approx (max n n')) a := rfl
    _ = d.body.meaning d.limit a := settled _ (by omega)

/-! ## Fibonacci numbers -/

namespace Fibonacci

/-- The argument. -/
def argument : Parameter := ⟨"n", .value .int32, 1⟩

/-- The function. -/
def self : Parameter := ⟨"fib", .func [.value .int32] (.value .int32), 2⟩

/-- An integer of 32 bits. -/
def word (v : Int) : Value := .scalar (.wrapped ⟨true, .w32⟩ v)

/-- An integer of 32 bits as a constant. -/
def number (v : Int) : Expr := .constant ⟨word v, 0⟩ (.value .int32)

/-- `n < 2` -/
def small : Expr := .binary .lessThan (.parameter argument) (number 2) (.value .bool)

/-- `fib(n - v)` -/
def earlier (v : Int) : Expr :=
  .invoke (.parameter self) [.binary .subtract (.parameter argument) (number v) (.value .int32)]
    (.value .int32)

/-- `fib(n - 1) + fib(n - 2)` -/
def sum : Expr := .binary .add (earlier 1) (earlier 2) (.value .int32)

theorem firstOrder_number (v : Int) : FirstOrder self argument (number v) := by
  have built : Build.constant ⟨word v, 0⟩ (some (.value .int32)) = .ok (number v) := rfl
  exact .constant built rfl

theorem firstOrder_earlier (v : Int) : FirstOrder self argument (earlier v) := by
  have built : Build.binary .subtract (.parameter argument) (number v) =
      .ok (.binary .subtract (.parameter argument) (number v) (.value .int32)) := rfl
  exact .call (.binary .argument (firstOrder_number v) (by decide) built) rfl

/-- `(fib) => (n) => n < 2 ? n : fib(n - 1) + fib(n - 2)` -/
def definition : FirstOrderDefinition where
  self := self
  argument := argument
  body := .conditional small (.parameter argument) sum (.value .int32)
  domain := .int32
  codomain := .int32
  self_type := rfl
  argument_type := rfl
  body_type := rfl
  domain_whole := rfl
  codomain_whole := rfl
  first_order := by
    have test : Build.binary .lessThan (.parameter argument) (number 2) = .ok small := rfl
    have added : Build.binary .add (earlier 1) (earlier 2) = .ok sum := rfl
    have choice : Build.condition small (.parameter argument) sum none =
        .ok (.conditional small (.parameter argument) sum (.value .int32)) := rfl
    exact .conditional (.binary .argument (firstOrder_number 2) (by decide) test) .argument
      (.binary (firstOrder_earlier 1) (firstOrder_earlier 2) (by decide) added) choice

/-- The seventh number is reached at a depth of eight. -/
theorem limit_seven : definition.limit (word 7) = some (.ok (word 13)) := by
  have deep : definition.approx 8 (word 7) = some (.ok (word 13)) := rfl
  exact definition.limit_eq_some_iff.2 ⟨8, deep⟩

end Fibonacci

end Knot
