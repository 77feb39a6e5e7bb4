import Knot.Expr.Build
import Mathlib.Logic.Basic

/-!
# What the builders admit

One lemma for each builder that can refuse: the node that it gives, and what it has checked of the
parts. Later files open a built node by these lemmas and never by the body of its builder.
-/

namespace Knot

/-- A computation that gives a result gives it step by step. -/
theorem Except.bind_eq_ok {ε α β : Type} {x : Except ε α} {f : α → Except ε β} {b : β} :
    (x >>= f) = .ok b ↔ ∃ a, x = .ok a ∧ f a = .ok b := by
  cases x with
  | ok a => simp [bind, Except.bind]
  | error e => simp [bind, Except.bind]

/-- A value type has values. -/
theorem StaticType.isValue_iff {t : StaticType} : t.isValue = true ↔ ∃ s, t = .value s := by
  cases t <;> simp [isValue, valueType?]

namespace Build

theorem refuse_ne_ok {α : Type} {m : Misuse} {a : α} : refuse m ≠ Except.ok a := by
  intro impossible
  cases impossible

/-! ## Operands and operators -/

theorem operandType_eq_ok {operator : String} {e : Expr} {t : ValueType} :
    operandType operator e = .ok t ↔ e.type = .value t := by
  unfold operandType
  split
  next s same =>
    rw [same]
    simp
  next other =>
    constructor
    · intro impossible
      exact absurd impossible refuse_ne_ok
    · intro same
      exact absurd same (other t)

/-- A constant holds its value coerced to its type. -/
theorem constant_eq_ok {v : Boxed} {type : Option StaticType} {e : Expr} :
    constant v type = .ok e ↔
      ∃ w, (type.getD v.value.inferredType).coerce v.value = .ok w ∧
        e = .constant ⟨w, v.identity⟩ (type.getD v.value.inferredType) := by
  unfold constant
  rw [Except.bind_eq_ok]
  simp only [pure, Except.pure, Except.ok.injEq, eq_comm]

/-- A unary node is a conversion to the given type, of a value type if that is one, or an operator
on an operand of a value type that has it. -/
theorem unary_ok {op : UnaryOp} {a e : Expr} {type : Option StaticType}
    (built : unary op a type = .ok e) :
    (∃ t, op.isConversion = true ∧ type = some t ∧ e = .unary op a t ∧
      (t.isValue = true → ∃ s, a.type = .value s)) ∨
    (∃ s, op.isConversion = false ∧ e = .unary op a (.value s) ∧ a.type = .value s ∧
      (op = .not → s.isFloat = false) ∧ (op ≠ .not → s.isBool = false)) := by
  unfold unary at built
  split at built
  next conversion =>
    left
    split at built
    next => exact absurd built refuse_ne_ok
    next t =>
      split at built
      next value =>
        obtain ⟨s, operand, done⟩ := Except.bind_eq_ok.1 built
        cases done
        exact ⟨t, conversion, rfl, rfl, fun _ => ⟨s, operandType_eq_ok.1 operand⟩⟩
      next value =>
        cases built
        exact ⟨t, conversion, rfl, rfl, fun known => absurd known value⟩
  next other =>
    right
    obtain ⟨s, operand, done⟩ := Except.bind_eq_ok.1 built
    split at done
    next => exact absurd done refuse_ne_ok
    next whole =>
      split at done
      next => exact absurd done refuse_ne_ok
      next number =>
        cases done
        exact ⟨s, by simpa using other, rfl, operandType_eq_ok.1 operand,
          fun complement => by simpa [complement] using whole,
          fun negation => by simpa [negation] using number⟩

/-- What the builder asks of the operands of an operator, group by group, and the type that it
gives to the node. -/
theorem binaryType_ok {op : BinaryOp} {left right result : ValueType}
    (admitted : binaryType op left right = .ok result) :
    (op.isShift = true ∧ left.isInt = true ∧ right.isInt = true ∧ result = left) ∨
    (left = right ∧ op.isComparison = true ∧ result = .bool) ∨
    (left = right ∧ op.isShortCircuit = true ∧ left = .bool ∧ result = .bool) ∨
    (left = right ∧ op.isBitwise = true ∧ left.isFloat = false ∧ result = left) ∨
    (left = right ∧ op.isShift = false ∧ op.isComparison = false ∧ op.isShortCircuit = false ∧
      op.isBitwise = false ∧ left.isBool = false ∧ result = left) := by
  -- the tests in the order of the builder: shifts first, then one type for both, then what the operator is
  unfold binaryType at admitted
  split at admitted
  next shift =>
    split at admitted
    next whole =>
      cases admitted
      rw [Bool.and_eq_true] at whole
      exact .inl ⟨shift, whole.1, whole.2, rfl⟩
    next => cases admitted
  next shift =>
    split at admitted
    next => cases admitted
    next same =>
      have same : left = right := not_not.1 same
      split at admitted
      next comparison =>
        cases admitted
        exact .inr (.inl ⟨same, comparison, rfl⟩)
      next comparison =>
        split at admitted
        next connective =>
          split at admitted
          next truth =>
            cases admitted
            exact .inr (.inr (.inl ⟨same, connective, by simpa [ValueType.isBool] using truth, rfl⟩))
          next => cases admitted
        next connective =>
          split at admitted
          next bitwise =>
            split at admitted
            next => cases admitted
            next whole =>
              cases admitted
              exact .inr (.inr (.inr (.inl ⟨same, bitwise, by simpa using whole, rfl⟩)))
          next bitwise =>
            split at admitted
            next => cases admitted
            next number =>
              cases admitted
              exact .inr (.inr (.inr (.inr ⟨same, by simpa using shift, by simpa using comparison,
                by simpa using connective, by simpa using bitwise, by simpa using number, rfl⟩)))

/-- The connectives have truth values. -/
theorem binaryType_of_shortCircuit {op : BinaryOp} {left right result : ValueType}
    (connective : op.isShortCircuit = true) (admitted : binaryType op left right = .ok result) :
    result = .bool := by
  rcases binaryType_ok admitted with ⟨shift, -⟩ | ⟨-, -, truth⟩ | ⟨-, -, -, truth⟩ |
    ⟨-, bitwise, -⟩ | ⟨-, -, -, other, -⟩
  · cases op <;> cases connective <;> cases shift
  · exact truth
  · exact truth
  · cases op <;> cases connective <;> cases bitwise
  · rw [connective] at other
    cases other

/-- An assignment has a variable on its left, and the type of that variable. -/
theorem assign_ok {a b e : Expr} (built : assign a b = .ok e) :
    ∃ p, a = .parameter p ∧ p.type.assignable b.type = true ∧ e = .binary .assign a b p.type := by
  unfold assign at built
  split at built
  next p =>
    split at built
    next fits =>
      cases built
      exact ⟨p, rfl, fits, rfl⟩
    next => exact absurd built refuse_ne_ok
  next => exact absurd built refuse_ne_ok

/-- Any other binary operator has two operands of value types that it admits. -/
theorem binary_ok {op : BinaryOp} {a b e : Expr} (other : op ≠ .assign)
    (built : binary op a b = .ok e) :
    ∃ s t r, a.type = .value s ∧ b.type = .value t ∧ binaryType op s t = .ok r ∧
      e = .binary op a b (.value r) := by
  rw [binary, if_neg other, Except.bind_eq_ok] at built
  obtain ⟨s, left, built⟩ := built
  obtain ⟨t, right, built⟩ := Except.bind_eq_ok.1 built
  split at built
  next r admitted =>
    cases built
    exact ⟨s, t, r, operandType_eq_ok.1 left, operandType_eq_ok.1 right, admitted, rfl⟩
  next => exact absurd built refuse_ne_ok

/-! ## Control -/

/-- A conditional tests a truth value. Unless its type is `void` both branches fit it. -/
theorem condition_ok {test a b e : Expr} {type : Option StaticType}
    (built : condition test a b type = .ok e) :
    test.type = .bool ∧ ∃ t, e = .conditional test a b t ∧
      (t ≠ .void → t.assignable a.type = true ∧ t.assignable b.type = true) := by
  unfold condition at built
  split at built
  next => exact absurd built refuse_ne_ok
  next truth =>
    refine ⟨not_not.1 truth, ?_⟩
    split at built
    next =>
      split at built
      next same =>
        cases built
        refine ⟨a.type, rfl, fun _ => ⟨StaticType.assignable_refl _, ?_⟩⟩
        rw [← same]
        exact StaticType.assignable_refl _
      next => exact absurd built refuse_ne_ok
    next t =>
      split at built
      next fits =>
        cases built
        refine ⟨t, rfl, fun valued => ?_⟩
        simpa [valued] using fits
      next => exact absurd built refuse_ne_ok

/-- The check of the arguments of a call lets through as many as there are parameters, each of which
fits. -/
theorem invoke_checked {f e : Expr} {args : List Expr} {params : List StaticType} {result : StaticType}
    (built : (if args.length ≠ params.length then refuse (.argumentCount params.length args.length)
      else match misfit? params args with
        | some m => refuse m
        | none => .ok (.invoke f args result)) = .ok e) :
    args.length = params.length ∧ misfit? params args = none ∧ e = .invoke f args result := by
  split at built
  next => exact absurd built refuse_ne_ok
  next counted =>
    split at built
    next => exact absurd built refuse_ne_ok
    next fits =>
      cases built
      exact ⟨not_not.1 counted, fits, rfl⟩

/-- A call has a callee of a function type, and the type of its results. -/
theorem invoke_ok {f e : Expr} {args : List Expr} (built : invoke f args = .ok e) :
    ∃ params result, (f.type = .func params result ∨ f.type = .pureFunc params result) ∧
      args.length = params.length ∧ misfit? params args = none ∧ e = .invoke f args result := by
  unfold invoke at built
  split at built
  next params result callable => exact ⟨params, result, .inl callable, invoke_checked built⟩
  next params result callable => exact ⟨params, result, .inr callable, invoke_checked built⟩
  next => exact absurd built refuse_ne_ok

/-- A label is of the type of its target, and so is its default. Without one the type is `void`. -/
theorem label_ok {l : LabelTarget} {d : Option Expr} {e : Expr} (built : label l d = .ok e) :
    e = .label l d l.type ∧ (d = none → l.type = .void) ∧
      ∀ a, d = some a → l.type.assignable a.type = true := by
  unfold label at built
  split at built
  next =>
    split at built
    next empty =>
      cases built
      exact ⟨by rw [empty], fun _ => empty, by simp⟩
    next => exact absurd built refuse_ne_ok
  next a =>
    split at built
    next fits =>
      cases built
      exact ⟨rfl, by simp, by simpa using fits⟩
    next => exact absurd built refuse_ne_ok

/-- A jump takes a value of the type of its target along. Without one the type is `void`. -/
theorem goto_ok {kind : GotoKind} {l : LabelTarget} {v : Option Expr} {type : StaticType}
    {e : Expr} (built : goto kind l v type = .ok e) :
    e = .goto kind l v type ∧ (v = none → l.type = .void) ∧
      ∀ a, v = some a → l.type.assignable a.type = true := by
  unfold goto at built
  split at built
  next =>
    split at built
    next empty =>
      cases built
      exact ⟨rfl, fun _ => empty, by simp⟩
    next => exact absurd built refuse_ne_ok
  next a =>
    split at built
    next fits =>
      cases built
      exact ⟨rfl, by simp, by simpa using fits⟩
    next => exact absurd built refuse_ne_ok

/-- A function has variables as parameters. -/
theorem lambda_ok {ps : List Expr} {a e : Expr} (built : lambda ps a = .ok e) :
    e = .lambda ps a (.func (ps.map Expr.type) a.type) ∧
      ∀ p ∈ ps, ∃ q, p = .parameter q := by
  unfold lambda at built
  split at built
  next p found =>
    obtain ⟨text, -, impossible⟩ := Except.bind_eq_ok.1 built
    exact absurd impossible refuse_ne_ok
  next none_left =>
    cases built
    refine ⟨rfl, fun p member => ?_⟩
    have known := List.find?_eq_none.1 none_left p member
    cases p <;> simp [Expr.parameter?] at known ⊢

end Build

end Knot
