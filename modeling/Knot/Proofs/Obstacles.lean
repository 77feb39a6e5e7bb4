import Knot.Proofs.Builders
import Knot.Proofs.Evaluation
import Knot.Proofs.Passes

/-!
# Trees without an obstacle

Nothing stands in the way of a tree if its own node is in order (`Expr.InOrder`) and nothing stands in
the way of its children. So it is for every tree that the node builders give
(`Built.obstacle?_eq_none`), and a pass of the reduction leaves it so (`Expr.obstacle?_passed`).
-/

namespace Knot

namespace Expr

/-! ## Induction over the children -/

theorem sizeOf_lt_of_mem_children {e c : Expr} (child : c ∈ e.children) : sizeOf c < sizeOf e := by
  cases e with
  | invoke f args t =>
    rcases List.mem_cons.1 child with rfl | inside
    · simp only [invoke.sizeOf_spec]
      omega
    · have less : sizeOf c < sizeOf args := List.sizeOf_lt_of_mem inside
      simp only [invoke.sizeOf_spec]
      omega
  | hostCall f args t =>
    have less : sizeOf c < sizeOf args := List.sizeOf_lt_of_mem child
    simp only [hostCall.sizeOf_spec]
    omega
  | block vs es t =>
    have less : sizeOf c < sizeOf es := List.sizeOf_lt_of_mem child
    simp only [block.sizeOf_spec]
    omega
  | label l d t =>
    cases Option.mem_toList.1 child
    simp only [label.sizeOf_spec, Option.some.sizeOf_spec]
    omega
  | goto k l v t =>
    cases Option.mem_toList.1 child
    simp only [goto.sizeOf_spec, Option.some.sizeOf_spec]
    omega
  | constant v t | parameter p | strange v t | bare t => cases child
  | _ =>
    simp only [children, List.mem_cons, List.not_mem_nil, or_false] at child
    rcases child with rfl | rfl | rfl <;> simp <;> omega

/-- What passes from the children of a node to the node holds of all trees. -/
theorem of_children {P : Expr → Prop} (node : ∀ e : Expr, (∀ c ∈ e.children, P c) → P e) (e : Expr) :
    P e :=
  node e fun c _ => of_children node c
termination_by sizeOf e
decreasing_by exact sizeOf_lt_of_mem_children ‹_›

/-! ## Obstacles node by node -/

/-- Whether a node by itself is no obstacle: an assignment is to a variable, the parameters of a lambda
are variables, and the operands of a split are calls. -/
def InOrder : Expr → Prop
  | binary op a _ _ => op = .assign → a.parameter?.isSome = true
  | lambda ps _ _ => ∀ p ∈ ps, p.parameter?.isSome = true
  | parallel _ a b _ _ => a.isCall = true ∧ b.isCall = true
  | strange _ _ | bare _ => False
  | _ => True

/-- A call as the operand of a split is looked through like any call. -/
theorem splitObstacle?_eq_none {e : Expr} :
    e.splitObstacle? = none ↔ e.isCall = true ∧ e.obstacle? = none := by
  cases e <;> simp [splitObstacle?, obstacle?, isCall]

theorem obstacleWithin?_eq_none {d : Option Expr} :
    obstacleWithin? d = none ↔ ∀ e ∈ d, e.obstacle? = none := by
  cases d <;> simp [obstacleWithin?]

/-- Nothing stands in the way of a tree exactly if its node is in order and nothing stands in the way of
its children. -/
theorem obstacle?_eq_none_iff {e : Expr} :
    e.obstacle? = none ↔ e.InOrder ∧ ∀ c ∈ e.children, c.obstacle? = none := by
  cases e with
  | binary op a b t =>
    by_cases assignment : op = .assign
    · -- the left side of an assignment is not looked through, but as a variable it is no obstacle
      cases a <;> simp [obstacle?, InOrder, children, assignment, parameter?]
    · simp [obstacle?, InOrder, children, assignment, and_comm]
  | lambda ps a t =>
    by_cases named : ∀ p ∈ ps, p.parameter?.isSome = true
    · have all : (ps.all fun p => p.parameter?.isSome) = true := List.all_eq_true.2 named
      simp only [obstacle?, all, InOrder, children, if_true, List.mem_singleton, forall_eq]
      exact ⟨fun clear => ⟨named, clear⟩, fun both => both.2⟩
    · simp [obstacle?, InOrder, named]
  | parallel op a b t p =>
    simp only [obstacle?, Option.or_eq_none_iff, splitObstacle?_eq_none, InOrder, children]
    simp [and_assoc, and_left_comm]
  | hostCall f args t | block vs es t =>
    simp [obstacle?, InOrder, children, obstacleAmong?_eq_none]
  | label l d t | goto k l d t =>
    simp [obstacle?, InOrder, children, obstacleWithin?_eq_none]
  | _ => simp [obstacle?, InOrder, children, obstacleAmong?_eq_none]

/-! ## Obstacles and passes -/

/-- A flattened list holds nothing that is not in the list or in a block of it. -/
theorem obstacle?_of_mem_splice {outer : StaticType} {es : List Expr}
    (clear : ∀ e ∈ es, e.obstacle? = none) : ∀ e ∈ splice outer es, e.obstacle? = none := by
  intro x inside
  rcases mem_splice inside with old | ⟨inner, t, member, within, -⟩
  · exact clear x old
  · exact (obstacle?_eq_none_iff.1 (clear _ member)).2 x within

/-- A rule makes no obstacle. -/
theorem obstacle?_rooted {e : Expr} (clear : e.obstacle? = none) : e.rooted.obstacle? = none := by
  have parts := (obstacle?_eq_none_iff.1 clear).2
  rcases rooted_eq_or e with same | child | ⟨vs, es, t, rfl, flat⟩
  · rw [same]
    exact clear
  · exact parts _ child
  · rw [flat]
    exact obstacle?_eq_none_iff.2 ⟨trivial, obstacle?_of_mem_splice parts⟩

/-- A call stays a call in a pass. -/
theorem isCall_passed {e : Expr} (call : e.isCall = true) : e.passed.isCall = true := by
  rw [passed_eq]
  cases e <;> first | rfl | cases call

/-- A node in order stays so when a pass goes through its children. -/
theorem InOrder.mapChildren {e : Expr} (h : e.InOrder) : (e.mapChildren passed).InOrder := by
  cases e with
  | binary op a b t =>
    intro assignment
    have variable_there := h assignment
    cases a <;> first | rfl | cases variable_there
  | parallel op a b t p => exact ⟨isCall_passed h.1, isCall_passed h.2⟩
  | _ => exact h

/-- A pass makes no obstacle. -/
theorem obstacle?_passed (e : Expr) (clear : e.obstacle? = none) : e.passed.obstacle? = none := by
  induction e using of_children with
  | node e ih =>
    obtain ⟨order, parts⟩ := obstacle?_eq_none_iff.1 clear
    rw [passed_eq]
    refine obstacle?_rooted (obstacle?_eq_none_iff.2 ⟨order.mapChildren, ?_⟩)
    rw [children_mapChildren]
    intro c inside
    obtain ⟨child, member, rfl⟩ := List.mem_map.1 inside
    exact ih child member (parts child member)

end Expr

/-! ## Built trees -/

/-- The trees that the node builders give. -/
inductive Built : Expr → Prop
  | constant {v type e} (built : Build.constant v type = .ok e) : Built e
  | parameter (p) : Built (.parameter p)
  | unary {op a type e} (operand : Built a) (built : Build.unary op a type = .ok e) : Built e
  | binary {op a b e} (left : Built a) (right : Built b) (built : Build.binary op a b = .ok e) :
      Built e
  | condition {test a b type e} (tested : Built test) (ifTrue : Built a) (ifFalse : Built b)
      (built : Build.condition test a b type = .ok e) : Built e
  | invoke {f args e} (callee : Built f) (arguments : ∀ a ∈ args, Built a)
      (built : Build.invoke f args = .ok e) : Built e
  | member {a} (owner : Built a) (name type) : Built (Build.member a name type)
  | hostCall (f) {args} (arguments : ∀ a ∈ args, Built a) (type) : Built (Build.hostCall f args type)
  | block (vs) {es} (steps : ∀ e ∈ es, Built e) (type) : Built (Build.block vs es type)
  | label {l d e} (default : ∀ a, d = some a → Built a) (built : Build.label l d = .ok e) : Built e
  | goto {kind l v type e} (value : ∀ a, v = some a → Built a)
      (built : Build.goto kind l v type = .ok e) : Built e
  | loop {a} (body : Built a) (breakLabel continueLabel) :
      Built (Build.loop a breakLabel continueLabel)
  | lambda {ps a e} (body : Built a) (built : Build.lambda ps a = .ok e) : Built e

/-- Nothing stands in the way of a built tree. -/
theorem Built.obstacle?_eq_none {e : Expr} (h : Built e) : e.obstacle? = none := by
  induction h with
  | constant built =>
    obtain ⟨w, -, rfl⟩ := Build.constant_eq_ok.1 built
    rfl
  | parameter p => rfl
  | unary _ built operand =>
    rcases Build.unary_ok built with ⟨t, -, -, rfl, -⟩ | ⟨s, -, rfl, -⟩
    · exact operand
    · exact operand
  | @binary op a b e _ _ built left right =>
    by_cases assignment : op = .assign
    · rw [Build.binary, if_pos assignment] at built
      obtain ⟨p, rfl, -, rfl⟩ := Build.assign_ok built
      simp [Expr.obstacle?, right, Expr.parameter?]
    · obtain ⟨s, t, r, -, -, -, rfl⟩ := Build.binary_ok assignment built
      simp [Expr.obstacle?, left, right, assignment]
  | condition _ _ _ built tested ifTrue ifFalse =>
    obtain ⟨-, t, rfl, -⟩ := Build.condition_ok built
    simp [Expr.obstacle?, tested, ifTrue, ifFalse]
  | invoke _ _ built callee arguments =>
    obtain ⟨params, result, -, -, -, rfl⟩ := Build.invoke_ok built
    rw [Expr.obstacle?, callee, Expr.obstacleAmong?_eq_none.2 arguments]
    rfl
  | member _ name type owner => exact owner
  | hostCall f _ type arguments => exact Expr.obstacleAmong?_eq_none.2 arguments
  | block vs _ type steps => exact Expr.obstacleAmong?_eq_none.2 steps
  | label _ built default =>
    obtain ⟨rfl, -⟩ := Build.label_ok built
    exact Expr.obstacleWithin?_eq_none.2 default
  | goto _ built value =>
    obtain ⟨rfl, -⟩ := Build.goto_ok built
    exact Expr.obstacleWithin?_eq_none.2 value
  | loop _ _ _ body => exact body
  | lambda _ built body =>
    obtain ⟨rfl, named⟩ := Build.lambda_ok built
    -- a closure is an obstacle also where one of its parameters is none
    refine Expr.obstacle?_eq_none_iff.2 ⟨fun p inside => ?_, ?_⟩
    · obtain ⟨q, rfl⟩ := named p inside
      rfl
    · simpa [Expr.children] using body

end Knot
