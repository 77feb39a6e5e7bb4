import Knot.Expr
import Knot.Fault

/-!
# What stands in the way of evaluation

A tree is looked through before it is evaluated, and the first obstacle is reported: a node from
outside, an assignment to something that is no variable, a lambda parameter that is no variable,
or an operand of a split that is no call. The right operand of a binary operation is looked
through before the left one. A tree without an obstacle may still fail when it runs.
-/

namespace Knot.Expr

mutual

/-- The first obstacle in a tree. -/
def obstacle? : Expr → Option Fault
  | constant _ _ | parameter _ => none
  | unary _ a _ => a.obstacle?
  | binary op a b _ =>
    (b.obstacle?).or <|
      if op = .assign then (if a.parameter?.isSome then none else some .noMember)
      else a.obstacle?
  | conditional a b c _ => (a.obstacle?).or ((b.obstacle?).or c.obstacle?)
  | invoke f args _ => (f.obstacle?).or (obstacleAmong? args)
  | member a _ _ => a.obstacle?
  | hostCall _ args _ => obstacleAmong? args
  | block _ es _ => obstacleAmong? es
  | label _ d _ => obstacleWithin? d
  | goto _ _ v _ => obstacleWithin? v
  | loop a _ _ _ => a.obstacle?
  | lambda ps a _ =>
    if ps.all fun p => p.parameter?.isSome then a.obstacle? else some .noMember
  | cached f a _ _ => (f.obstacle?).or a.obstacle?
  | parallel _ a b _ _ => (a.splitObstacle?).or b.splitObstacle?
  | strange v t => some (.unsupported (.evaluating (kind (strange v t))))
  | bare t => some (.unsupported (.evaluating (kind (bare t))))

/-- The first obstacle in an operand of a split. -/
def splitObstacle? : Expr → Option Fault
  | invoke f args _ => (f.obstacle?).or (obstacleAmong? args)
  | cached f a _ _ => (f.obstacle?).or a.obstacle?
  | e => some (.unsupported (.deferring e.kind))

/-- The first obstacle in several trees. -/
def obstacleAmong? : List Expr → Option Fault
  | [] => none
  | e :: es => (e.obstacle?).or (obstacleAmong? es)

/-- The first obstacle in a tree that may be absent. -/
def obstacleWithin? : Option Expr → Option Fault
  | none => none
  | some e => e.obstacle?

end

end Knot.Expr
