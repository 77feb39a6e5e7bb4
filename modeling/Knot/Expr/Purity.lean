import Knot.Expr
import Knot.Fault

/-!
# Purity of member reads

A member of a value of fixed width may always be read: the value cannot change. A member of any
other object may be read when it is a pure function, or when impure reads are allowed and no
results are kept.
-/

namespace Knot

/-- What a function body may read. -/
structure PurityRule where
  /-- Whether results are kept. -/
  caching : Bool
  /-- Whether impure reads are tolerated where no results are kept. -/
  allowImpure : Bool

namespace PurityRule

/-- Whether the type is that of a pure function. -/
def isPureFunction : StaticType → Bool
  | .pureFunc _ _ => true
  | _ => false

/-- Whether a member of type `member` may be read from an owner of type `owner`. -/
def admits (rule : PurityRule) (owner member : StaticType) : Bool :=
  owner.isValue || (rule.allowImpure && !rule.caching) || isPureFunction member

/-- The member read of the given owner, name and type is refused unless the rule admits it. -/
def check (rule : PurityRule) (owner : StaticType) (name : String) (member : StaticType) :
    Except Fault Unit :=
  if rule.admits owner member then .ok () else .error (.impureMember name owner)

end PurityRule

end Knot
