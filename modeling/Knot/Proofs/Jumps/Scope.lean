import Knot.Proofs.Obstacles
import Knot.Proofs.Shedding.Relation

/-!
# Jumps in scope

A jump is in scope where a block around it directly holds a label with its number, or a loop around
it has a break or a continue label of that number, and no function stands between them
(`Expr.JumpsWithin`). A pass of the reduction keeps it so (`Expr.JumpsWithin.passed`): the labels
that a block directly holds stay there, and a block that goes away holds none.
-/

namespace Knot

namespace Expr

/-- The numbers of the labels that the children of a node can jump to, given those that the node can
jump to itself. -/
def scope (targets : Nat → Prop) : Expr → Nat → Prop
  | block _ es _, n => targets n ∨ ∃ e ∈ es, e.labelUid? = some n
  | loop _ b c _, n => targets n ∨ (b.map fun l => l.uid) = some n ∨ (c.map fun l => l.uid) = some n
  | lambda _ _ _, _ => False
  | _, n => targets n

/-- Whether all jumps in a tree have a target among certain numbers or are caught in the tree. -/
inductive JumpsWithin : (Nat → Prop) → Expr → Prop
  | node {targets : Nat → Prop} {e : Expr}
      (here : ∀ k l v t, e = goto k l v t → targets l.uid)
      (below : ∀ c ∈ e.children, JumpsWithin (e.scope targets) c) : JumpsWithin targets e

/-- Whether all jumps in a tree are caught in the tree. -/
def JumpsInside (e : Expr) : Prop := JumpsWithin (fun _ => False) e

namespace JumpsWithin

variable {targets more : Nat → Prop} {e : Expr}

theorem target {k : GotoKind} {l : LabelTarget} {v : Option Expr} {t : StaticType}
    (h : JumpsWithin targets (goto k l v t)) : targets l.uid := by
  cases h with
  | node here _ => exact here k l v t rfl

theorem children (h : JumpsWithin targets e) : ∀ c ∈ e.children, JumpsWithin (e.scope targets) c := by
  cases h with
  | node _ below => exact below

/-- More targets do no harm. -/
theorem mono (h : JumpsWithin targets e) (all : ∀ n, targets n → more n) : JumpsWithin more e := by
  induction h generalizing more with
  | @node targets e here below ih =>
    refine .node (fun k l v t shape => all _ (here k l v t shape)) fun c child => ?_
    refine ih c child fun n reached => ?_
    cases e with
    | block | loop => exact reached.imp (all n) id
    | lambda => exact reached
    | _ => exact all n reached

/-! ## Passes -/

/-- The expressions of a flattened block are expressions of the block, or of a block in it that holds no
label. -/
theorem of_mem_splice {outer : StaticType} {es : List Expr}
    (each : ∀ e ∈ es, JumpsWithin targets e) : ∀ e ∈ splice outer es, JumpsWithin targets e := by
  intro x inside
  rcases mem_splice inside with old | ⟨inner, t, member, within, unlabelled⟩
  · exact each x old
  · refine ((each _ member).children x within).mono fun n reached => ?_
    rcases reached with outside | ⟨f, step, labelled⟩
    · exact outside
    · rw [labelUid?_eq_none.2 (unlabelled f step)] at labelled
      cases labelled

/-- A flattened block holds the labels that the block holds. -/
theorem mem_splice_of_label {outer : StaticType} {es : List Expr} {e : Expr} {n : Nat}
    (inside : e ∈ es) (labelled : e.labelUid? = some n) : e ∈ splice outer es := by
  induction es with
  | nil => cases inside
  | cons head rest ih =>
    rw [splice, List.mem_append]
    rcases List.mem_cons.1 inside with rfl | later
    · left
      cases found : spliced? outer rest.isEmpty e with
      | none => exact List.mem_singleton_self e
      | some inner =>
        obtain ⟨t, rfl, -⟩ := spliced?_eq_some found
        cases labelled
    · exact .inr (ih later)

/-- A rule keeps jumps in scope. -/
theorem rooted (h : JumpsWithin targets e) : JumpsWithin targets e.rooted := by
  have possible := rooted_cases e
  generalize e.rooted = r at possible ⊢
  rcases possible with rfl | conversion | condition | single | flat
  · exact h
  · obtain ⟨op, -, rfl⟩ := identityConversion?_eq_some conversion
    exact h.children r List.mem_cons_self
  · obtain ⟨test, a, b, v, rfl, -, chosen⟩ := constantCondition?_eq_some condition
    have branch : r ∈ (conditional test a b r.type).children := by
      rw [chosen]
      split <;> simp [Expr.children]
    exact h.children r branch
  · obtain ⟨rfl, plain⟩ := singleBlock?_eq_some single
    -- the step of the block is no label, so nothing in it jumps to the block
    refine (h.children r List.mem_cons_self).mono fun n reached => ?_
    rcases reached with outside | ⟨f, member, labelled⟩
    · exact outside
    · rw [List.mem_singleton.1 member, labelUid?_eq_none.2 plain] at labelled
      cases labelled
  · obtain ⟨vs, es, t, rfl, rfl⟩ := flattened?_eq_some flat
    refine .node (by rintro k l v t ⟨⟩) (of_mem_splice fun e inside => ?_)
    refine (h.children e inside).mono fun n reached => ?_
    rcases reached with outside | ⟨f, part, labelled⟩
    · exact .inl outside
    · exact .inr ⟨f, mem_splice_of_label part labelled, labelled⟩

/-- A pass keeps jumps in scope. -/
theorem passed (h : JumpsWithin targets e) : JumpsWithin targets e.passed := by
  induction h with
  | @node targets e here below ih =>
    rw [passed_eq]
    refine rooted (.node (fun k l v t shape => ?_) fun c child => ?_)
    · cases e <;> cases shape
      exact here k l _ t rfl
    · rw [children_mapChildren] at child
      obtain ⟨c, old, rfl⟩ := List.mem_map.1 child
      -- a pass keeps the labels of the steps, and so what may be jumped to from inside
      refine (ih c old).mono fun n reached => ?_
      cases e with
      | block vs es t =>
        refine reached.imp id ?_
        rintro ⟨f, member, labelled⟩
        exact ⟨f.passed, List.mem_map_of_mem member, labelUid?_passed labelled⟩
      | _ => exact reached

/-- So does a reduction. -/
theorem reduce (h : JumpsWithin targets e) (maxPasses : Int) :
    JumpsWithin targets (e.reduce maxPasses).result := by
  obtain ⟨k, result⟩ := reduce_eq_iterate e maxPasses
  rw [result]
  clear result
  induction k generalizing e with
  | zero => exact h
  | succ k ih => exact ih h.passed

end JumpsWithin

end Expr

end Knot
