import Knot.Proofs.Binding.Trees

/-!
# Trees whose functions keep to their own variables

A function keeps to its own variables if each assignment in its body, and in no function inside of it,
goes to one of its parameters or to a variable of a block of that body around the assignment
(`Expr.AssignsWithin`). An assignment outside of all functions may go to any variable. Together with
what a tree must not hold for a claim about its calls to be about its own functions only
(`Expr.isForeign`), this is what makes a tree isolated (`Expr.Isolated`).
-/

namespace Knot.Expr

/-- A node of which the variables count as its own for the nodes inside. -/
def opensScope : Expr → Bool
  | block _ _ _ | lambda _ _ _ => true
  | _ => false

/-- Whether the assignments of a tree go to variables, by their numbers, of which `T` holds, or to those of
the blocks around them, and in the body of a function to its parameters and those of the blocks of the
body. -/
inductive AssignsWithin : (Nat → Prop) → Expr → Prop
  | lambda {T : Nat → Prop} {ps : List Expr} {a : Expr} {t : StaticType}
      (body : a.AssignsWithin fun u => ∃ x, parameter x ∈ ps ∧ x.uid = u) :
      AssignsWithin T (lambda ps a t)
  | block {T : Nat → Prop} {vs : List Parameter} {es : List Expr} {t : StaticType}
      (steps : ∀ e ∈ es, e.AssignsWithin fun u => T u ∨ ∃ x ∈ vs, x.uid = u) :
      AssignsWithin T (block vs es t)
  | node {T : Nat → Prop} {e : Expr} (other : e.opensScope = false)
      (here : ∀ x, e.assigned? = some x → T x.uid)
      (children : ∀ c ∈ e.children, c.AssignsWithin T) : AssignsWithin T e

namespace AssignsWithin

variable {T T' : Nat → Prop} {e : Expr}

/-- More variables may be allowed for. -/
theorem imp (h : e.AssignsWithin T) (wider : ∀ u, T u → T' u) : e.AssignsWithin T' := by
  induction h generalizing T' with
  | lambda body _ => exact .lambda body
  | block _ ih => exact .block fun e member => ih e member fun u either => either.imp_left (wider u)
  | node other here _ ih =>
    exact .node other (fun x assigned => wider _ (here x assigned)) fun c child => ih c child wider

/-- A variable assigns to nothing. -/
theorem leaf (x : Parameter) : (Expr.parameter x).AssignsWithin T :=
  .node rfl (by rintro y ⟨⟩) (List.forall_mem_nil _)

/-- An assignment of such a tree to one of the variables. -/
theorem assign {x : Parameter} {b : Expr} {t : StaticType} (own : T x.uid) (value : b.AssignsWithin T) :
    (binary .assign (parameter x) b t).AssignsWithin T :=
  .node rfl (by rintro y ⟨⟩; exact own)
    (List.forall_mem_cons.2 ⟨.leaf x, List.forall_mem_singleton.2 value⟩)

theorem body {ps : List Expr} {a : Expr} {t : StaticType} (h : (Expr.lambda ps a t).AssignsWithin T) :
    a.AssignsWithin fun u => ∃ x, parameter x ∈ ps ∧ x.uid = u := by
  cases h with
  | lambda body => exact body
  | node other => cases other

theorem steps {vs : List Parameter} {es : List Expr} {t : StaticType}
    (h : (Expr.block vs es t).AssignsWithin T) :
    ∀ e ∈ es, e.AssignsWithin fun u => T u ∨ ∃ x ∈ vs, x.uid = u := by
  cases h with
  | block steps => exact steps
  | node other => cases other

theorem children (h : e.AssignsWithin T) (other : e.opensScope = false) :
    ∀ c ∈ e.children, c.AssignsWithin T := by
  cases h with
  | node _ _ children => exact children
  | lambda | block => cases other

theorem target {x : Parameter} {b : Expr} {t : StaticType}
    (h : (binary .assign (parameter x) b t).AssignsWithin T) : T x.uid := by
  cases h with
  | node _ here _ => exact here x rfl

end AssignsWithin

/-- A node that asks the host: a call of a host function or a member read. -/
def isForeign : Expr → Bool
  | hostCall _ _ _ | member _ _ _ => true
  | _ => false

/-- A tree whose functions keep to their own variables, and which does not ask the host. -/
structure Isolated (e : Expr) : Prop where
  assigns : e.AssignsWithin fun _ => True
  native : ∀ x ∈ e.nodes, x.isForeign = false

end Knot.Expr
