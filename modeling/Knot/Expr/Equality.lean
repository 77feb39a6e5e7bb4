import Knot.Expr
import Knot.Value.Equality

/-!
# Equality of expressions

Two trees are equal when they have the same shape and equal parts. Variables and labels are
compared with their numbers, constants by `Boxed.equal`. Which cache or pool a marked node uses
does not count.

Parts are compared in order up to the first difference, and the type of a node comes last. Where
two constants cannot be compared, neither can the trees.
-/

namespace Knot.Expr

mutual

/-- Whether two trees are equal. -/
def equal : Expr → Expr → Verdict
  | constant v t, constant w u => v.equal w <&&> pure (t = u)
  | parameter p, parameter q => pure (p = q)
  | unary op a t, unary op' a' t' => pure (op = op') <&&> a.equal a' <&&> pure (t = t')
  | binary op a b t, binary op' a' b' t' =>
    pure (op = op') <&&> a.equal a' <&&> b.equal b' <&&> pure (t = t')
  | conditional a b c t, conditional a' b' c' t' =>
    a.equal a' <&&> b.equal b' <&&> c.equal c' <&&> pure (t = t')
  | invoke f args t, invoke f' args' t' =>
    f.equal f' <&&> equalLists args args' <&&> pure (t = t')
  | member a n t, member a' n' t' => a.equal a' <&&> pure (n = n' && t = t')
  | hostCall f args t, hostCall f' args' t' =>
    pure (f = f') <&&> equalLists args args' <&&> pure (t = t')
  | block vs es t, block vs' es' t' =>
    pure (vs = vs') <&&> equalLists es es' <&&> pure (t = t')
  | label l d t, label l' d' t' => pure (l = l') <&&> equalOptions d d' <&&> pure (t = t')
  | goto k l v t, goto k' l' v' t' =>
    pure (k = k' && l = l') <&&> equalOptions v v' <&&> pure (t = t')
  | loop a b c t, loop a' b' c' t' => a.equal a' <&&> pure (b = b' && c = c' && t = t')
  | lambda ps a t, lambda ps' a' t' =>
    equalLists ps ps' <&&> a.equal a' <&&> pure (t = t')
  | cached a b t _, cached a' b' t' _ => a.equal a' <&&> b.equal b' <&&> pure (t = t')
  | parallel op a b t _, parallel op' a' b' t' _ =>
    pure (op = op') <&&> a.equal a' <&&> b.equal b' <&&> pure (t = t')
  | strange v t, strange w u => v.equal w <&&> pure (t = u)
  | bare t, bare u => pure (t = u)
  | _, _ => pure false

/-- The same for lists of trees. -/
def equalLists : List Expr → List Expr → Verdict
  | [], [] => pure true
  | a :: as, b :: bs => a.equal b <&&> equalLists as bs
  | _, _ => pure false

/-- The same for trees that may be absent. -/
def equalOptions : Option Expr → Option Expr → Verdict
  | none, none => pure true
  | some a, some b => a.equal b
  | _, _ => pure false

end

/-- Any tree can be compared with a variable. -/
@[simp] theorem equal_parameter (e : Expr) (p : Parameter) :
    e.equal (parameter p) = .ok (decide (e.parameter? = some p)) := by
  cases e <;> simp [equal, parameter?, pure, Except.pure]

/-- A variable is equal to itself alone. -/
theorem equal_parameter_iff {e : Expr} {p : Parameter} :
    e.equal (parameter p) = .ok true ↔ e = parameter p := by
  cases e <;> simp [parameter?]

end Knot.Expr
