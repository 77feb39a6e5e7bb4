import Knot.Substitution

/-!
# Visits of a substitution, node by node

A variable is the only node that is equal to a variable. So a substitution for a variable goes
through every other node part by part, and each lemma here says in which order, for one kind of node.
-/

namespace Knot.Substitution

section

variable {r : Substitution} {p : Parameter} (placeholder : r.placeholder = .parameter p)
include placeholder

/-- A variable is the placeholder if it is the one that is replaced. -/
theorem isPlaceholder_parameter (q : Parameter) :
    r.isPlaceholder (.parameter q) = pure (decide (q = p)) := by
  unfold isPlaceholder
  rw [placeholder, Expr.equal_parameter]
  simp only [Expr.parameter?, Option.some.injEq]
  rfl

/-- Nothing else is. -/
theorem isPlaceholder_other {e : Expr} (other : e.parameter? = none) :
    r.isPlaceholder e = pure false := by
  unfold isPlaceholder
  rw [placeholder, Expr.equal_parameter, other]
  rfl

theorem visit_placeholder :
    r.visit (.parameter p) = (do
      count .substitutions
      pure r.replacement) := by
  show (r.isPlaceholder _ >>= _) = _
  rw [isPlaceholder_parameter placeholder, decide_eq_true (rfl : p = p)]
  rfl

theorem visit_parameter {q : Parameter} (apart : q ≠ p) :
    r.visit (.parameter q) = pure (.parameter q) := by
  show (r.isPlaceholder _ >>= _) = _
  rw [isPlaceholder_parameter placeholder, decide_eq_false apart]
  rfl

theorem visit_constant (v : Boxed) (t : StaticType) :
    r.visit (.constant v t) = pure (.constant v t) := by
  show (r.isPlaceholder _ >>= _) = _
  rw [isPlaceholder_other placeholder rfl]
  rfl

theorem visit_unary (op : UnaryOp) (a : Expr) (t : StaticType) :
    r.visit (.unary op a t) = (do
      let a ← r.visit a
      pure (.unary op a t)) := by
  show (r.isPlaceholder _ >>= _) = _
  rw [isPlaceholder_other placeholder rfl]
  rfl

theorem visit_binary (op : BinaryOp) (a b : Expr) (t : StaticType) :
    r.visit (.binary op a b t) = (do
      let left ← r.visit a
      let right ← r.visit b
      if r.splits op a b then r.split op left right t else pure (.binary op left right t)) := by
  show (r.isPlaceholder _ >>= _) = _
  rw [isPlaceholder_other placeholder rfl]
  rfl

theorem visit_conditional (a b c : Expr) (t : StaticType) :
    r.visit (.conditional a b c t) = (do
      let a ← r.visit a
      let b ← r.visit b
      let c ← r.visit c
      pure (.conditional a b c t)) := by
  show (r.isPlaceholder _ >>= _) = _
  rw [isPlaceholder_other placeholder rfl]
  rfl

theorem visit_invoke (f a : Expr) (t : StaticType) :
    r.visit (.invoke f [a] t) = (do
      if r.caching then count .cachedInvocations
      let f ← r.visit f
      let a ← r.visit a
      pure (if r.caching then .cached f a t r.cache else .invoke f [a] t)) := by
  show (r.isPlaceholder _ >>= _) = _
  rw [isPlaceholder_other placeholder rfl]
  rfl

/-- A call of no or of several arguments. -/
theorem visit_invoke_other (f : Expr) {args : List Expr} (several : args.length ≠ 1)
    (t : StaticType) :
    r.visit (.invoke f args t) = (do
      let f ← r.visit f
      let args ← r.visitAll args
      pure (.invoke f args t)) := by
  match args, several with
  | [], _ | _ :: _ :: _, _ =>
    show (r.isPlaceholder _ >>= _) = _
    rw [isPlaceholder_other placeholder rfl]
    rfl

theorem visit_member (a : Expr) (n : String) (t : StaticType) :
    r.visit (.member a n t) = (do
      r.checkMember a n t
      let a ← r.visit a
      pure (.member a n t)) := by
  show (r.isPlaceholder _ >>= _) = _
  rw [isPlaceholder_other placeholder rfl]
  rfl

theorem visit_hostCall (f : HostFunction) (args : List Expr) (t : StaticType) :
    r.visit (.hostCall f args t) = (do
      let args ← r.visitAll args
      pure (.hostCall f args t)) := by
  show (r.isPlaceholder _ >>= _) = _
  rw [isPlaceholder_other placeholder rfl]
  rfl

theorem visit_block (vs : List Parameter) (es : List Expr) (t : StaticType) :
    r.visit (.block vs es t) = (do
      let es ← r.visitAll es
      pure (.block vs es t)) := by
  show (r.isPlaceholder _ >>= _) = _
  rw [isPlaceholder_other placeholder rfl]
  rfl

theorem visit_label (l : LabelTarget) (d : Option Expr) (t : StaticType) :
    r.visit (.label l d t) = (do
      let d ← r.visitOption d
      pure (.label l d t)) := by
  show (r.isPlaceholder _ >>= _) = _
  rw [isPlaceholder_other placeholder rfl]
  rfl

theorem visit_goto (k : GotoKind) (l : LabelTarget) (v : Option Expr) (t : StaticType) :
    r.visit (.goto k l v t) = (do
      let v ← r.visitOption v
      pure (.goto k l v t)) := by
  show (r.isPlaceholder _ >>= _) = _
  rw [isPlaceholder_other placeholder rfl]
  rfl

theorem visit_loop (a : Expr) (b c : Option LabelTarget) (t : StaticType) :
    r.visit (.loop a b c t) = (do
      let a ← r.visit a
      pure (.loop a b c t)) := by
  show (r.isPlaceholder _ >>= _) = _
  rw [isPlaceholder_other placeholder rfl]
  rfl

theorem visit_lambda (ps : List Expr) (a : Expr) (t : StaticType) :
    r.visit (.lambda ps a t) = (do
      let ps ← r.visitAll ps
      let a ← r.visit a
      pure (.lambda ps a t)) := by
  show (r.isPlaceholder _ >>= _) = _
  rw [isPlaceholder_other placeholder rfl]
  rfl

end

end Knot.Substitution
