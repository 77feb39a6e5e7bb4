import Knot.Reduce
import Mathlib.Logic.Function.Iterate

/-!
# Passes as functions of trees

What a pass makes of a tree does not depend on what has been counted before: `Expr.passed` is the
tree after a pass, and `Expr.passed_eq` says that it is the tree over the passed children, with one
rule tried at its root (`Expr.rooted`). A reduction is some number of passes
(`Expr.reduce_eq_iterate`), and neither a rule nor a pass changes the type of a tree.
-/

namespace Knot.Expr

/-! ## One rule at the root -/

/-- A tree after the first rule that applies at its root. -/
def rooted (e : Expr) : Expr :=
  match e.ruleStep? with
  | none => e
  | some (_, r) => r

theorem reduceRoot_fst (e : Expr) (t : Tally ReduceCount) : (e.reduceRoot t).1 = e.rooted := by
  unfold reduceRoot rooted
  cases e.ruleStep? with
  | none => rfl
  | some step => rfl

/-- What a rule can make of a tree: nothing, or one of four things. -/
theorem rooted_cases (e : Expr) :
    e.rooted = e ∨ e.identityConversion? = some e.rooted ∨ e.constantCondition? = some e.rooted ∨
      e.singleBlock? = some e.rooted ∨ e.flattened? = some e.rooted := by
  unfold rooted ruleStep? reductionRules
  cases conversion : e.identityConversion? with
  | some r => simp [conversion]
  | none =>
    cases condition : e.constantCondition? with
    | some r => simp [conversion, condition]
    | none =>
      cases single : e.singleBlock? with
      | some r => simp [conversion, condition, single]
      | none =>
        cases flat : e.flattened? with
        | some r => simp [conversion, condition, single, flat]
        | none => simp [conversion, condition, single, flat]

theorem identityConversion?_eq_some {e r : Expr} (h : e.identityConversion? = some r) :
    ∃ op, op.isConversion = true ∧ e = unary op r r.type := by
  unfold identityConversion? at h
  split at h
  next op a t =>
    split at h
    next applies =>
      cases h
      simp only [Bool.and_eq_true, decide_eq_true_eq] at applies
      exact ⟨op, applies.1, by rw [applies.2]⟩
    next => cases h
  next => cases h

theorem constantCondition?_eq_some {e r : Expr} (h : e.constantCondition? = some r) :
    ∃ test a b v, e = conditional test a b r.type ∧ test.constant? = some v ∧
      r = if v.value.truthy then a else b := by
  unfold constantCondition? at h
  split at h
  next test a b t =>
    split at h
    next => cases h
    next v constant =>
      generalize chosen : (if v.value.truthy = true then a else b) = branch at h
      simp only at h
      split at h
      next applies =>
        cases h
        exact ⟨test, a, b, v, by rw [applies], constant, chosen.symm⟩
      next => cases h
  next => cases h

theorem singleBlock?_eq_some {e r : Expr} (h : e.singleBlock? = some r) :
    e = block [] [r] r.type ∧ r.isLabel = false := by
  unfold singleBlock? at h
  split at h
  next a t =>
    split at h
    next applies =>
      cases h
      simp only [Bool.and_eq_true, Bool.not_eq_true', decide_eq_true_eq] at applies
      exact ⟨by rw [applies.2], applies.1⟩
    next => cases h
  next => cases h

theorem flattened?_eq_some {e r : Expr} (h : e.flattened? = some r) :
    ∃ vs es t, e = block vs es t ∧ r = block vs (splice t es) t := by
  unfold flattened? at h
  split at h
  next vs es t =>
    split at h
    next => cases h; exact ⟨vs, es, t, rfl, rfl⟩
    next => cases h
  next => cases h

/-- A rule leaves a tree as it is, or makes it one of its children, or splices the blocks in a block. -/
theorem rooted_eq_or (e : Expr) :
    e.rooted = e ∨ e.rooted ∈ e.children ∨
      ∃ vs es t, e = block vs es t ∧ e.rooted = block vs (splice t es) t := by
  have possible := rooted_cases e
  generalize e.rooted = r at possible ⊢
  rcases possible with same | conversion | condition | single | flat
  · exact .inl same
  · obtain ⟨op, -, rfl⟩ := identityConversion?_eq_some conversion
    exact .inr (.inl List.mem_cons_self)
  · obtain ⟨test, a, b, v, rfl, -, chosen⟩ := constantCondition?_eq_some condition
    refine .inr (.inl ?_)
    rw [chosen]
    split <;> simp [children]
  · obtain ⟨rfl, -⟩ := singleBlock?_eq_some single
    exact .inr (.inl List.mem_cons_self)
  · exact .inr (.inr (flattened?_eq_some flat))

/-- What stands in a block after splicing has stood there or in a block there that holds no label. -/
theorem mem_splice {outer : StaticType} {es : List Expr} {c : Expr} (inside : c ∈ splice outer es) :
    c ∈ es ∨ ∃ inner t, block [] inner t ∈ es ∧ c ∈ inner ∧ ∀ f ∈ inner, f.isLabel = false := by
  induction es with
  | nil => exact .inl inside
  | cons e es ih =>
    rw [splice, List.mem_append] at inside
    rcases inside with here | later
    · unfold spliced? at here
      split at here
      next inner t =>
        split at here
        next applies =>
          simp only [Bool.and_eq_true, Bool.not_eq_true', List.any_eq_false,
            Bool.not_eq_true] at applies
          exact .inr ⟨inner, t, List.mem_cons_self, here, applies.1.2⟩
        next => exact .inl (List.mem_cons.2 (.inl (List.mem_singleton.1 here)))
      next => exact .inl (List.mem_cons.2 (.inl (List.mem_singleton.1 here)))
    · rcases ih later with old | ⟨inner, t, member, within⟩
      · exact .inl (List.mem_cons_of_mem e old)
      · exact .inr ⟨inner, t, List.mem_cons_of_mem e member, within⟩

/-- A rule keeps the type. -/
@[simp] theorem type_rooted (e : Expr) : e.rooted.type = e.type := by
  rcases rooted_cases e with same | conversion | condition | single | flat
  · rw [same]
  · obtain ⟨op, -, shape⟩ := identityConversion?_eq_some conversion
    exact (congrArg type shape).symm
  · obtain ⟨test, a, b, v, shape, -, -⟩ := constantCondition?_eq_some condition
    exact (congrArg type shape).symm
  · exact (congrArg type (singleBlock?_eq_some single).1).symm
  · obtain ⟨vs, es, t, shape, result⟩ := flattened?_eq_some flat
    rw [result, shape]
    rfl

/-! ## Passes -/

mutual

/-- What a pass makes of a tree does not depend on the counts. -/
theorem reducePass_fst : ∀ (e : Expr) (t : Tally ReduceCount),
    (reducePass e t).1 = (reducePass e .empty).1
  | constant v ty, t | parameter p, t | strange v ty, t | bare ty, t => rfl
  | unary op a ty, t => by
    simp only [reducePass, reduceRoot_fst, reducePass_fst a t]
  | binary op a b ty, t => by
    simp only [reducePass, reduceRoot_fst, reducePass_fst a t, reducePass_fst b (reducePass a _).2]
  | conditional a b c ty, t => by
    simp only [reducePass, reduceRoot_fst, reducePass_fst a t, reducePass_fst b (reducePass a _).2,
      reducePass_fst c (reducePass b _).2]
  | invoke f args ty, t => by
    simp only [reducePass, reduceRoot_fst, reducePass_fst f t,
      reducePasses_fst args (reducePass f _).2]
  | member a n ty, t => by
    simp only [reducePass, reduceRoot_fst, reducePass_fst a t]
  | hostCall f args ty, t => by
    simp only [reducePass, reduceRoot_fst, reducePasses_fst args]
  | block vs es ty, t => by
    simp only [reducePass, reduceRoot_fst, reducePasses_fst es]
  | label l d ty, t => by
    simp only [reducePass, reduceRoot_fst, reducePassOption_fst d]
  | goto k l v ty, t => by
    simp only [reducePass, reduceRoot_fst, reducePassOption_fst v]
  | loop a b c ty, t => by
    simp only [reducePass, reduceRoot_fst, reducePass_fst a t]
  | lambda ps a ty, t => by
    simp only [reducePass, reduceRoot_fst, reducePass_fst a t]
  | cached f a ty c, t => by
    simp only [reducePass, reduceRoot_fst, reducePass_fst f t, reducePass_fst a (reducePass f _).2]
  | parallel op a b ty p, t => by
    simp only [reducePass, reduceRoot_fst, reducePass_fst a t, reducePass_fst b (reducePass a _).2]

/-- The same for several trees. -/
theorem reducePasses_fst : ∀ (es : List Expr) (t : Tally ReduceCount),
    (reducePasses es t).1 = es.map fun e => (reducePass e .empty).1
  | [], t => rfl
  | e :: es, t => by
    simp only [reducePasses, List.map_cons, reducePass_fst e t,
      reducePasses_fst es (reducePass e t).2]

/-- The same for a tree that may be absent. -/
theorem reducePassOption_fst : ∀ (d : Option Expr) (t : Tally ReduceCount),
    (reducePassOption d t).1 = d.map fun e => (reducePass e .empty).1
  | none, t => rfl
  | some e, t => by
    simp only [reducePassOption, Option.map_some, reducePass_fst e t]

end

/-- A tree after one pass. -/
def passed (e : Expr) : Expr := (reducePass e .empty).1

/-- A pass goes through the children first and tries one rule at the root then. -/
theorem passed_eq (e : Expr) : e.passed = (e.mapChildren passed).rooted := by
  cases e <;> first
    | rfl
    | (simp only [passed, reducePass, mapChildren, reduceRoot_fst, reducePasses_fst,
        reducePassOption_fst, reducePass_fst _ (Prod.snd _)]
       try rfl)

/-- A pass keeps the type. -/
@[simp] theorem type_passed (e : Expr) : e.passed.type = e.type := by
  rw [passed_eq, type_rooted, type_mapChildren]

/-! ## Reductions -/

/-- Repeated passes are some number of passes, at most as many as are allowed. -/
theorem reduceFrom_eq_iterate (n : Nat) : ∀ (e : Expr) (t : Tally ReduceCount),
    ∃ k ≤ n, (reduceFrom n e t).result = passed^[k] e := by
  induction n with
  | zero => intro e t; exact ⟨0, Nat.le_refl 0, rfl⟩
  | succ n ih =>
    intro e t
    have first : (reducePass e (t.touch .applications)).1 = e.passed := reducePass_fst e _
    unfold reduceFrom
    simp only [first]
    split
    · exact ⟨1, by omega, rfl⟩
    · obtain ⟨k, few, result⟩ := ih e.passed ((reducePass e (t.touch .applications)).2.raise .passes)
      exact ⟨k + 1, by omega, result⟩

/-- A reduction is some number of passes. -/
theorem reduce_eq_iterate (e : Expr) (maxPasses : Int) :
    ∃ k, (e.reduce maxPasses).result = passed^[k] e := by
  obtain ⟨k, -, result⟩ := reduceFrom_eq_iterate maxPasses.toNat e .empty
  exact ⟨k, result⟩

end Knot.Expr
