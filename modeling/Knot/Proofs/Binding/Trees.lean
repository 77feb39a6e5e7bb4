import Knot.Proofs.Renaming.Trees
import Knot.Proofs.Typing

/-!
# Trees that do not assign to a variable

`Expr.Spares T e` says that the tree `e` assigns to no variable of which `T` holds, except in a function
that has such a variable for a parameter and so assigns to its own. A substitution of a new variable for
the one that is spared gives a tree that spares the new one (`Expr.Spares.marked`), and a pass of the
reduction keeps it so (`Expr.Spares.passed`).
-/

namespace Knot.Expr

/-- The variable that a node assigns to. -/
def assigned? : Expr → Option Parameter
  | binary .assign (parameter x) _ _ => some x
  | _ => none

/-- Whether a tree assigns to no variable of which `T` holds, other than to parameters of its own
functions. -/
inductive Spares (T : Parameter → Prop) : Expr → Prop
  | bound {ps : List Expr} {a : Expr} {t : StaticType} {x : Parameter} (declared : parameter x ∈ ps)
      (kind : T x) : Spares T (lambda ps a t)
  | node {e : Expr} (here : ∀ x, e.assigned? = some x → ¬ T x)
      (children : ∀ c ∈ e.children, c.Spares T) : Spares T e

/-- Only an assignment assigns. -/
theorem assigned?_eq_some {e : Expr} {x : Parameter} (h : e.assigned? = some x) :
    ∃ b t, e = binary .assign (parameter x) b t := by
  unfold assigned? at h
  split at h
  next b t =>
    cases h
    exact ⟨b, t, rfl⟩
  next => cases h

/-- The variables that parameters are, if all of them are variables. -/
theorem mem_of_mapM_parameter? {ps : List Expr} {xs : List Parameter} {x : Parameter}
    (parameters : ps.mapM parameter? = some xs) (inside : parameter x ∈ ps) : x ∈ xs := by
  induction ps generalizing xs with
  | nil => cases inside
  | cons e ps ih =>
    rw [List.mapM_cons] at parameters
    obtain ⟨y, first, others⟩ := Option.bind_eq_some_iff.1 parameters
    obtain ⟨ys, rest, made⟩ := Option.bind_eq_some_iff.1 others
    cases made
    rcases List.mem_cons.1 inside with rfl | later
    · cases first
      exact List.mem_cons_self
    · exact List.mem_cons_of_mem y (ih rest later)

/-! ## Substitutions -/

section

variable {r : Substitution} {p q x : Parameter} {e : Expr} (placeholder : r.placeholder = .parameter p)
  (replacement : r.replacement = .parameter q)
include placeholder replacement

/-- A variable of the result is the new one in the place of the old, or has been there. -/
theorem parameter_of_marked (h : e.marked r = parameter x) : e = parameter p ∨ e = parameter x := by
  rcases marked_cases replacement e with plain | ⟨y, rfl, found, -⟩ | ⟨f, a, t, rfl, marked⟩ |
    ⟨op, a, b, t, rfl, -, marked⟩
  · rw [plain] at h
    cases e <;> cases h
    exact .inr rfl
  · rw [placeholder] at found
    cases found
    exact .inl rfl
  all_goals
    rw [marked] at h
    cases h

/-- What the result assigns to is the new variable in the place of the old, or has been assigned to. -/
theorem assigned?_of_marked (h : (e.marked r).assigned? = some x) :
    e.assigned? = some p ∨ e.assigned? = some x := by
  obtain ⟨b', t', shape⟩ := assigned?_eq_some h
  rcases marked_cases replacement e with plain | ⟨y, rfl, -, marked⟩ | ⟨f, a, t, rfl, marked⟩ |
    ⟨op, a, b, t, rfl, -, marked⟩
  · rw [plain] at shape
    cases e with
    | binary op a b t =>
      obtain ⟨rfl, target, -⟩ := binary.inj shape
      rcases parameter_of_marked placeholder replacement target with rfl | rfl
      · exact .inl rfl
      · exact .inr rfl
    | _ => cases shape
  all_goals
    rw [marked] at shape
    cases shape

end

namespace Spares

variable {T : Parameter → Prop} {e : Expr}

/-- What is spared in a tree is spared in its children, but for the body of a function. -/
theorem children (h : e.Spares T) (other : ∀ ps a t, e ≠ lambda ps a t) :
    ∀ c ∈ e.children, c.Spares T := by
  cases h with
  | bound => exact absurd rfl (other _ _ _)
  | node _ children => exact children

theorem target {x : Parameter} {b : Expr} {t : StaticType}
    (h : (binary .assign (parameter x) b t).Spares T) : ¬ T x := by
  cases h with
  | node here _ => exact here x rfl

theorem body {ps : List Expr} {a : Expr} {t : StaticType} (h : (lambda ps a t).Spares T) :
    (∃ x, parameter x ∈ ps ∧ T x) ∨ a.Spares T := by
  cases h with
  | bound declared kind => exact .inl ⟨_, declared, kind⟩
  | node _ children => exact .inr (children a List.mem_cons_self)

/-- A tree that spares the old variable becomes one that spares the new one, if that is new to it. -/
theorem marked {r : Substitution} {p q : Parameter} (placeholder : r.placeholder = .parameter p)
    (replacement : r.replacement = .parameter q) (h : e.Spares (· = p))
    (fresh : ∀ x ∈ e.vars, x.uid ≠ q.uid) : (e.marked r).Spares (·.uid = q.uid) := by
  have occurs : ∀ x, parameter x ∈ e.nodes → x.uid ≠ q.uid := fun x inside =>
    fresh x (mem_vars_iff.2 (.inl inside))
  clear fresh
  induction h with
  | @bound ps a t x declared kind =>
    subst kind
    have new : parameter q ∈ markedAll r ps := by
      rw [markedAll_eq]
      refine List.mem_map.2 ⟨parameter x, declared, ?_⟩
      rw [Expr.marked, placeholder, replacement]
      exact if_pos rfl
    exact .bound new rfl
  | @node e here children ih =>
    have inside : ∀ c ∈ e.parts, ∀ x, parameter x ∈ c.nodes → x.uid ≠ q.uid := fun c part x found =>
      occurs x (mem_nodes_of_part part found)
    refine .node (fun x assigned => ?_) fun c child => ?_
    -- what the mark assigns is what was assigned before, unless that was the placeholder
    · rcases assigned?_of_marked placeholder replacement assigned with old | kept
      · exact absurd rfl (here p old)
      · obtain ⟨b, t, rfl⟩ := assigned?_eq_some kept
        exact inside (parameter x) List.mem_cons_self x (mem_nodes_self _)
    · have part := mem_parts_of_mem_children child
      cases e with
      | lambda ps a t =>
        obtain rfl := List.mem_singleton.1 child
        exact ih a List.mem_cons_self (inside a (List.mem_append_right _ List.mem_cons_self))
      | _ =>
        rw [parts_marked replacement] at part
        obtain ⟨c, old, rfl⟩ := List.mem_map.1 part
        exact ih c old (inside c old)

/-! ## Passes -/

/-- A rule makes no assignment. -/
theorem rooted (h : e.Spares T) : e.rooted.Spares T := by
  cases h with
  | bound declared kind => exact .bound declared kind
  | node here children =>
    rcases rooted_eq_or e with same | child | ⟨vs, es, t, rfl, flat⟩
    · rw [same]
      exact .node here children
    · exact children _ child
    · rw [flat]
      refine .node (by rintro x ⟨⟩) fun c inside => ?_
      rcases mem_splice inside with old | ⟨inner, t', member, within, -⟩
      · exact children c old
      · exact (children _ member).children (by rintro ps a t ⟨⟩) c within

/-- A pass over a well-typed tree makes no assignment. -/
theorem passed (h : e.Spares T) (typed : e.WellTyped) : e.passed.Spares T := by
  induction h with
  | @bound ps a t x declared kind =>
    rw [passed_eq]
    exact rooted (.bound declared kind)
  | @node e here children ih =>
    obtain ⟨checked, parts⟩ := wellTyped_iff.1 typed
    rw [passed_eq]
    refine rooted (.node (fun x assigned => ?_) fun c child => ?_)
    · cases e with
      | binary op a b t =>
        obtain ⟨b', t', shape⟩ := assigned?_eq_some assigned
        obtain ⟨rfl, target, -⟩ := binary.inj shape
        -- the target of an assignment is a parameter, which a pass leaves alone
        rw [Checked, Build.binary_eq_ok, if_pos rfl] at checked
        obtain ⟨y, rfl, -, -⟩ := checked
        cases target
        exact here x rfl
      | _ => cases assigned
    · rw [children_mapChildren] at child
      obtain ⟨c, old, rfl⟩ := List.mem_map.1 child
      exact ih c old (parts c (mem_parts_of_mem_children old))

/-- So do several. -/
theorem iterate_passed (h : e.Spares T) (typed : e.WellTyped) (k : Nat) :
    (Expr.passed^[k] e).Spares T := by
  induction k with
  | zero => exact h
  | succ k ih =>
    rw [Function.iterate_succ_apply']
    exact ih.passed (typed.iterate_passed k).1

end Spares

end Knot.Expr
