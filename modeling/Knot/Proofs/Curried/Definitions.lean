import Knot.Proofs.Builders
import Knot.Proofs.Compilation
import Knot.Proofs.Operators

/-!
# Curried definitions

A curried definition is a function that takes its arguments one after the other,
`(self) => (x₁) => … => (xₖ) => body`. The arguments are integers or truth values, and the body is
made of constants, the variables, operators, conditionals and calls `self(e₁)…(eₖ)` on all arguments
(`CurriedDefinition`).

`CurriedBody` gives with each part of a body the variables that it still awaits: none if it is a value,
and some if it is the function applied to fewer arguments than it takes. `CurriedDefinition.Part` is the
same for the parts of what a compilation makes of a body, at their types.
-/

namespace Knot

/-- A variable of integers or truth values. -/
structure WholeVariable where
  parameter : Parameter
  domain : ValueType
  typed : parameter.type = .value domain
  whole : domain.isFloat = false

/-! ## Functions of several variables -/

/-- The type of a function that takes the variables one after the other. -/
def StaticType.curried : List WholeVariable → ValueType → StaticType
  | [], r => .value r
  | x :: xs, r => .func [.value x.domain] (curried xs r)

/-- The result is known from the type. -/
theorem StaticType.curried_inj {xs : List WholeVariable} {r s : ValueType}
    (same : curried xs r = curried xs s) : r = s := by
  induction xs with
  | nil => cases same; rfl
  | cons x xs ih =>
    simp only [curried, StaticType.func.injEq, true_and] at same
    exact ih same

/-- The function that takes the variables one after the other and has the given body. -/
def Expr.curried (r : ValueType) (body : Expr) : List WholeVariable → Expr
  | [] => body
  | x :: xs => .lambda [.parameter x.parameter] (curried r body xs) (.curried (x :: xs) r)

theorem Expr.type_curried {r : ValueType} {body : Expr} (typed : body.type = .value r)
    (xs : List WholeVariable) : (body.curried r xs).type = .curried xs r := by
  cases xs with
  | nil => exact typed
  | cons x xs => rfl

/-- It is what the builder gives. -/
theorem Expr.curried_built {r : ValueType} {body : Expr} (typed : body.type = .value r)
    (x : WholeVariable) (xs : List WholeVariable) :
    Build.lambda [.parameter x.parameter] (body.curried r xs) = .ok (body.curried r (x :: xs)) := by
  show Except.ok (Expr.lambda _ _ (.func [x.parameter.type] (body.curried r xs).type)) = _
  rw [x.typed, type_curried typed]
  rfl

/-- A pass over the function is a pass over its body. -/
theorem Expr.iterate_passed_curried (r : ValueType) (xs : List WholeVariable) (k : Nat) :
    ∀ body : Expr, passed^[k] (body.curried r xs) = (passed^[k] body).curried r xs := by
  have pass : ∀ (xs : List WholeVariable) (body : Expr),
      (body.curried r xs).passed = body.passed.curried r xs := by
    intro xs body
    induction xs with
    | nil => rfl
    | cons x xs ih =>
      rw [curried, passed_eq]
      simp only [mapChildren, ih]
      rfl
  induction k with
  | zero => intro body; rfl
  | succ k ih =>
    intro body
    rw [Function.iterate_succ_apply, Function.iterate_succ_apply, pass, ih]

/-! ## Definitions -/

/-- What the body of a curried definition is built from, and which of the variables each part awaits. -/
inductive CurriedBody (self : Parameter) (xs : List WholeVariable) : Expr → List WholeVariable → Prop
  | constant {v type e} (built : Build.constant v type = .ok e) (value : e.type.isValue = true) :
      CurriedBody self xs e []
  | argument {x} (declared : x ∈ xs) : CurriedBody self xs (.parameter x.parameter) []
  | unary {op a type e} (operand : CurriedBody self xs a []) (built : Build.unary op a type = .ok e)
      (value : e.type.isValue = true) : CurriedBody self xs e []
  | binary {op a b e} (left : CurriedBody self xs a []) (right : CurriedBody self xs b [])
      (other : op ≠ .assign) (built : Build.binary op a b = .ok e) : CurriedBody self xs e []
  | conditional {test a b type e} (tested : CurriedBody self xs test [])
      (ifTrue : CurriedBody self xs a []) (ifFalse : CurriedBody self xs b [])
      (built : Build.condition test a b type = .ok e) : CurriedBody self xs e []
  /-- The function itself awaits all of them. -/
  | function : CurriedBody self xs (.parameter self) xs
  /-- An application awaits one less. -/
  | apply {f a e x rest} (function : CurriedBody self xs f (x :: rest))
      (argument : CurriedBody self xs a []) (built : Build.invoke f [a] = .ok e) :
      CurriedBody self xs e rest

/-- A definition `(self) => (first) => … => body` of a function that takes integers or truth values one
after the other. -/
structure CurriedDefinition where
  self : Parameter
  first : WholeVariable
  rest : List WholeVariable
  body : Expr
  codomain : ValueType
  self_type : self.type = .curried (first :: rest) codomain
  body_type : body.type = .value codomain
  /-- A number belongs to one variable. -/
  numbered : ∀ p ∈ self :: (first :: rest).map (·.parameter),
    ∀ q ∈ self :: (first :: rest).map (·.parameter), p.uid = q.uid → p = q
  curried_body : CurriedBody self (first :: rest) body []

namespace CurriedDefinition

variable (d : CurriedDefinition)

/-- The variables of the function, the first one first. -/
def inputs : List WholeVariable := d.first :: d.rest

/-- The function that is defined. -/
def function : Expr := d.body.curried d.codomain d.inputs

/-- The whole definition. -/
def tree : Expr :=
  .lambda [.parameter d.self] d.function (.func [d.self.type] d.function.type)

/-- The parts of the definition. -/
def parts : Definition :=
  ⟨d.self, .parameter d.first.parameter, d.function, [.value d.first.domain],
    .curried d.rest d.codomain⟩

/-- The definition is accepted. -/
theorem ofExpr_tree : Definition.ofExpr d.tree = .ok d.parts := by
  have same : d.self.type = .func [.value d.first.domain] (.curried d.rest d.codomain) := d.self_type
  simp [Definition.ofExpr, tree, function, inputs, Expr.curried, Definition.single?,
    Definition.only?, Expr.type, StaticType.curried, Expr.parameter?, same, parts]

/-- The function and the definition are what the builder gives. -/
theorem tree_built :
    d.inputs.foldrM (fun x e => Build.lambda [.parameter x.parameter] e) d.body = .ok d.function ∧
      Build.lambda [.parameter d.self] d.function = .ok d.tree := by
  have function : ∀ xs : List WholeVariable,
      xs.foldrM (fun x e => Build.lambda [.parameter x.parameter] e) d.body =
        .ok (d.body.curried d.codomain xs) := by
    intro xs
    induction xs with
    | nil => rfl
    | cons x xs ih =>
      rw [List.foldrM_cons, ih]
      exact Expr.curried_built d.body_type x xs
  exact ⟨function d.inputs, rfl⟩

theorem has : d.parts.Has d.first.parameter (d.body.curried d.codomain d.rest) where
  argument := rfl
  function := rfl
  params := by rw [d.first.typed]; rfl
  result := (Expr.type_curried d.body_type d.rest).symm
  self := d.self_type

/-- Variables with one number are variables of one domain. -/
theorem domain_eq {x y : WholeVariable} (left : x ∈ d.inputs) (right : y ∈ d.inputs)
    (same : x.parameter.uid = y.parameter.uid) : x.domain = y.domain := by
  have one : x.parameter = y.parameter := d.numbered _
    (List.mem_cons_of_mem _ (List.mem_map_of_mem left)) _
    (List.mem_cons_of_mem _ (List.mem_map_of_mem right)) same
  have types : StaticType.value x.domain = .value y.domain := by rw [← x.typed, ← y.typed, one]
  exact StaticType.value.inj types

/-- The function is none of its variables. -/
theorem apart_self {x : WholeVariable} (declared : x ∈ d.inputs) :
    x.parameter.uid ≠ d.self.uid := by
  intro same
  have one : x.parameter = d.self := d.numbered _
    (List.mem_cons_of_mem _ (List.mem_map_of_mem declared)) _ List.mem_cons_self same
  have types := x.typed
  rw [one, d.self_type] at types
  cases types

/-! ## Parts -/

/-- The parts of the bodies of a definition, at their types, and which variables each awaits: the
function is the variable `f`, and its applications are cached or not. -/
inductive Part (d : CurriedDefinition) (o : CompileOptions) (f : Parameter) :
    Expr → List WholeVariable → ValueType → Prop
  | constant {v t} (typed : v.value.hasType t = true) : Part d o f (.constant v (.value t)) [] t
  | argument {x} (declared : x ∈ d.inputs) : Part d o f (.parameter x.parameter) [] x.domain
  | conversion {op a s t} (operand : Part d o f a [] s) (conversion : op.isConversion = true) :
      Part d o f (.unary op a (.value t)) [] t
  | unary {op a t} (operand : Part d o f a [] t) (other : op.isConversion = false)
      (whole : op = .not → t.isFloat = false) (number : op ≠ .not → t.isBool = false) :
      Part d o f (.unary op a (.value t)) [] t
  | binary {op a b s t r} (left : Part d o f a [] s) (right : Part d o f b [] t)
      (other : op ≠ .assign) (admitted : Build.binaryType op s t = .ok r) :
      Part d o f (.binary op a b (.value r)) [] r
  | conditional {test a b t} (tested : Part d o f test [] .bool) (ifTrue : Part d o f a [] t)
      (ifFalse : Part d o f b [] t) : Part d o f (.conditional test a b (.value t)) [] t
  | function : Part d o f (.parameter f) (d.first :: d.rest) d.codomain
  | invoke {g a x rest} (function : Part d o f g (x :: rest) d.codomain)
      (argument : Part d o f a [] x.domain) (uncached : o.caching = false) :
      Part d o f (.invoke g [a] (.curried rest d.codomain)) rest d.codomain
  | cached {g a x rest} (function : Part d o f g (x :: rest) d.codomain)
      (argument : Part d o f a [] x.domain) (caching : o.caching = true) :
      Part d o f (.cached g a (.curried rest d.codomain) o.cache) rest d.codomain

variable {d} {o : CompileOptions} {f : Parameter} {e : Expr} {awaited : List WholeVariable}
  {t : ValueType}

/-- The static type of a part says what it awaits. -/
theorem Part.type (typed : f.type = .curried d.inputs d.codomain) (h : d.Part o f e awaited t) :
    e.type = .curried awaited t := by
  cases h with
  | @argument x _ => exact x.typed
  | function => exact typed
  | _ => rfl

/-- What a body is built from are its parts. -/
theorem part_of_body (h : CurriedBody d.self d.inputs e awaited) :
    (∀ {t}, e.type = .curried awaited t → d.Part .plain d.self e awaited t) ∧
      (awaited ≠ [] → e.type = .curried awaited d.codomain) := by
  induction h with
  | @constant v type e built value =>
    refine ⟨fun {t} known => ?_, fun impossible => absurd rfl impossible⟩
    obtain ⟨w, coerced, rfl⟩ := Build.constant_eq_ok.1 built
    generalize type.getD v.value.inferredType = given at coerced known ⊢
    cases known
    exact .constant (ValueType.coerce_hasType coerced)
  | @argument x declared =>
    refine ⟨fun {t} known => ?_, fun impossible => absurd rfl impossible⟩
    have same : StaticType.value x.domain = .value t := x.typed.symm.trans known
    cases same
    exact .argument declared
  | unary _ built value ih =>
    refine ⟨fun {t} known => ?_, fun impossible => absurd rfl impossible⟩
    rcases Build.unary_ok built with ⟨r, conversion, -, rfl, valued⟩ |
      ⟨s, other, rfl, operand, whole, number⟩
    · cases known
      obtain ⟨s, operand⟩ := valued rfl
      exact .conversion (ih.1 operand) conversion
    · cases known
      exact .unary (ih.1 operand) other whole number
  | binary _ _ other built left right =>
    refine ⟨fun {t} known => ?_, fun impossible => absurd rfl impossible⟩
    obtain ⟨s, u, r, ofLeft, ofRight, admitted, rfl⟩ := Build.binary_ok other built
    cases known
    exact .binary (left.1 ofLeft) (right.1 ofRight) other admitted
  | conditional _ _ _ built tested ifTrue ifFalse =>
    refine ⟨fun {t} known => ?_, fun impossible => absurd rfl impossible⟩
    obtain ⟨truth, u, rfl, fits⟩ := Build.condition_ok built
    cases known
    obtain ⟨left, right⟩ := fits (by simp)
    exact .conditional (tested.1 truth) (ifTrue.1 (StaticType.assignable_value_iff.1 left))
      (ifFalse.1 (StaticType.assignable_value_iff.1 right))
  | function =>
    refine ⟨fun {t} known => ?_, fun _ => d.self_type⟩
    obtain rfl : d.codomain = t := StaticType.curried_inj (d.self_type.symm.trans known)
    exact .function
  -- what waits for more arguments has a type of functions, from which the rest is read off
  | @apply g a e x rest _ _ built function argument =>
    have signature := function.2 (List.cons_ne_nil x rest)
    obtain ⟨params, result, callable, counted, fits, rfl⟩ := Build.invoke_ok built
    have shape : params = [.value x.domain] ∧ result = .curried rest d.codomain := by
      rcases callable with callable | callable
      · cases signature.symm.trans callable
        exact ⟨rfl, rfl⟩
      · cases signature.symm.trans callable
    obtain ⟨rfl, rfl⟩ := shape
    have suits : a.type = .value x.domain := by
      unfold Build.misfit? at fits
      split at fits
      next assignable => exact StaticType.assignable_value_iff.1 assignable
      next => cases fits
    refine ⟨fun {t} known => ?_, fun _ => rfl⟩
    obtain rfl : d.codomain = t := StaticType.curried_inj known
    exact .invoke (function.1 signature) (argument.1 suits) rfl

variable (d) in
/-- The body of a definition is one of its parts and awaits nothing. -/
theorem part : d.Part .plain d.self d.body [] d.codomain := (part_of_body d.curried_body).1 d.body_type

end CurriedDefinition

end Knot
