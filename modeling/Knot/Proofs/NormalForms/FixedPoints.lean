import Knot.Proofs.Obstacles

/-!
# Normal forms

A tree is normal if no rule applies to any of its subtrees (`Expr.Normal`). Each application of a rule makes
a tree smaller (`Expr.size_lt_of_ruleStep?`), so a pass applies no more rules than it takes nodes away
(`Expr.applied_add_size_passed`). A pass that applies none has found a normal tree and leaves it as it is
(`Expr.applied_eq_zero_iff`, `Expr.Normal.passed`). So as many passes as a tree has nodes lead to a normal
tree, and reducing that changes nothing more (`Expr.reduce_normalizes`).
-/

namespace Knot.Expr

/-! ## Subtrees -/

/-- The subtrees that a pass goes through, each before those in it. Variables are none where they are
declared. -/
def subtrees (e : Expr) : List Expr := e :: e.children.attach.flatMap fun c => c.1.subtrees
termination_by sizeOf e
decreasing_by exact sizeOf_lt_of_mem_children c.2

theorem subtrees_eq (e : Expr) : e.subtrees = e :: e.children.flatMap subtrees := by
  rw [subtrees, List.flatMap_subtype (g := subtrees) fun _ _ => rfl, List.unattach_attach]

/-- What holds of all subtrees holds of the tree and of all subtrees of its children. -/
theorem forall_subtrees {P : Expr → Prop} {e : Expr} :
    (∀ x ∈ e.subtrees, P x) ↔ P e ∧ ∀ c ∈ e.children, ∀ x ∈ c.subtrees, P x := by
  rw [subtrees_eq, List.forall_mem_cons]
  simp only [List.mem_flatMap, forall_exists_index, and_imp]
  exact and_congr_right fun _ => ⟨fun h c child x inside => h x c child inside,
    fun h x c child inside => h c child x inside⟩

/-- The number of nodes of several trees. -/
def sizes (es : List Expr) : Nat := (es.flatMap subtrees).length

/-- The number of nodes of a tree. -/
def size (e : Expr) : Nat := e.subtrees.length

@[simp] theorem sizes_nil : sizes [] = 0 := rfl

@[simp] theorem sizes_cons (e : Expr) (es : List Expr) : sizes (e :: es) = e.size + sizes es := by
  rw [sizes, List.flatMap_cons, List.length_append]
  rfl

@[simp] theorem sizes_append (es fs : List Expr) : sizes (es ++ fs) = sizes es + sizes fs := by
  rw [sizes, List.flatMap_append, List.length_append]
  rfl

theorem size_eq (e : Expr) : e.size = 1 + sizes e.children := by
  rw [size, subtrees_eq, List.length_cons, Nat.add_comm]
  rfl

theorem size_le_sizes {e : Expr} {es : List Expr} (inside : e ∈ es) : e.size ≤ sizes es := by
  obtain ⟨before, after, rfl⟩ := List.append_of_mem inside
  rw [sizes_append, sizes_cons]
  omega

/-- A child has fewer nodes. -/
theorem size_lt_of_mem_children {e c : Expr} (child : c ∈ e.children) : c.size < e.size := by
  have among := size_le_sizes child
  rw [size_eq e]
  omega

/-! ## Where no rule applies -/

/-- None of the four rules applies at the root. -/
def Settled (e : Expr) : Prop :=
  e.identityConversion? = none ∧ e.constantCondition? = none ∧ e.singleBlock? = none ∧ e.flattened? = none

/-- No rule applies anywhere. -/
def Normal (e : Expr) : Prop := ∀ x ∈ e.subtrees, x.Settled

theorem normal_iff {e : Expr} : e.Normal ↔ e.Settled ∧ ∀ c ∈ e.children, c.Normal := forall_subtrees

theorem settled_iff {e : Expr} : e.Settled ↔ e.ruleStep? = none := by
  unfold Settled ruleStep? reductionRules
  simp

/-- What no rule applies to stays. -/
theorem Settled.rooted {e : Expr} (h : e.Settled) : e.rooted = e := by
  rw [Expr.rooted, settled_iff.1 h]

/-! ## Rules make trees smaller -/

/-- Splicing a block takes its node away. -/
theorem sizes_of_spliced? {outer : StaticType} {last : Bool} {e : Expr} {es : List Expr}
    (spliced : spliced? outer last e = some es) : sizes es < e.size := by
  unfold spliced? at spliced
  split at spliced
  next inner t =>
    split at spliced
    next =>
      cases spliced
      rw [size_eq, children]
      omega
    next => cases spliced
  next => cases spliced

theorem sizes_splice (outer : StaticType) (es : List Expr) : sizes (splice outer es) ≤ sizes es := by
  induction es with
  | nil => exact Nat.le_refl 0
  | cons e es ih =>
    rw [splice, sizes_append, sizes_cons]
    cases found : spliced? outer es.isEmpty e with
    | none =>
      rw [Option.getD_none, sizes_cons, sizes_nil]
      omega
    | some inner =>
      have fewer := sizes_of_spliced? found
      rw [Option.getD_some]
      omega

theorem sizes_splice_lt {outer : StaticType} {es : List Expr} (some_block : canSplice outer es = true) :
    sizes (splice outer es) < sizes es := by
  induction es with
  | nil => cases some_block
  | cons e es ih =>
    rw [splice, sizes_append, sizes_cons]
    cases found : spliced? outer es.isEmpty e with
    | none =>
      rw [canSplice, found, Option.isSome_none, Bool.false_or] at some_block
      have fewer := ih some_block
      rw [Option.getD_none, sizes_cons, sizes_nil]
      omega
    | some inner =>
      have fewer := sizes_of_spliced? found
      have others := sizes_splice outer es
      rw [Option.getD_some]
      omega

/-- Flattening a block splices one of the blocks in it or more. -/
theorem flattened?_spec {e r : Expr} (flat : e.flattened? = some r) :
    ∃ vs es t, e = block vs es t ∧ r = block vs (splice t es) t ∧ canSplice t es = true := by
  obtain ⟨vs, es, t, rfl, rfl⟩ := flattened?_eq_some flat
  refine ⟨vs, es, t, rfl, rfl, ?_⟩
  by_contra none_spliced
  simp [flattened?, none_spliced] at flat

/-- A rule that applies is one of the four, and is counted as such. -/
theorem ruleStep?_cases {e : Expr} {step : ReduceCount × Expr} (found : e.ruleStep? = some step) :
    (step.1 ≠ .applications ∧ step.1 ≠ .passes) ∧
      (e.identityConversion? = some step.2 ∨ e.constantCondition? = some step.2 ∨
        e.singleBlock? = some step.2 ∨ e.flattened? = some step.2) := by
  obtain ⟨⟨k, rule⟩, among, given⟩ := List.exists_of_findSome?_eq_some found
  obtain ⟨r, applies, rfl⟩ := Option.map_eq_some_iff.1 given
  simp only [reductionRules, List.mem_cons, List.not_mem_nil, or_false, Prod.mk.injEq] at among
  rcases among with ⟨rfl, rfl⟩ | ⟨rfl, rfl⟩ | ⟨rfl, rfl⟩ | ⟨rfl, rfl⟩ <;> simp [applies]

/-- A rule gives a child of the tree, or flattens it. -/
theorem mem_children_or_flattened {e : Expr} {step : ReduceCount × Expr} (found : e.ruleStep? = some step) :
    step.2 ∈ e.children ∨ e.flattened? = some step.2 := by
  rcases (ruleStep?_cases found).2 with conversion | condition | single | flat
  · obtain ⟨op, -, shape⟩ := identityConversion?_eq_some conversion
    exact .inl (by rw [shape]; exact List.mem_cons_self)
  · obtain ⟨test, a, b, v, shape, -, chosen⟩ := constantCondition?_eq_some condition
    refine .inl ?_
    rw [shape, chosen]
    split <;> simp [children]
  · exact .inl (by rw [(singleBlock?_eq_some single).1]; exact List.mem_cons_self)
  · exact .inr flat

/-- A rule takes at least one node away. -/
theorem size_lt_of_ruleStep? {e : Expr} {step : ReduceCount × Expr} (found : e.ruleStep? = some step) :
    step.2.size < e.size := by
  rcases mem_children_or_flattened found with child | flat
  · exact size_lt_of_mem_children child
  · obtain ⟨vs, es, t, shape, result, some_block⟩ := flattened?_spec flat
    have fewer := sizes_splice_lt some_block
    rw [shape, result, size_eq, size_eq, children, children]
    omega

/-! ## What a pass counts -/

/-- A pass goes through the children, one after the other, and tries the rules at the root then. -/
theorem reducePass_eq (e : Expr) (t : Tally ReduceCount) :
    reducePass e t = (e.mapChildren passed).reduceRoot (reducePasses e.children t).2 := by
  -- A pass hands the counts from child to child; an optional child is one of none or of one.
  cases e with
  | constant | parameter | strange | bare => rfl
  | label l d ty =>
    cases d with
    | none => rfl
    | some d => simp only [reducePass, reducePassOption, reducePass_fst d]; rfl
  | goto k l v ty =>
    cases v with
    | none => rfl
    | some v => simp only [reducePass, reducePassOption, reducePass_fst v]; rfl
  | _ =>
    simp only [reducePass, reducePass_fst _ t, reducePass_fst _ (Prod.snd _), reducePasses_fst]
    rfl

/-- How often a pass counts something. -/
def counted (k : ReduceCount) (e : Expr) : Nat := (reducePass e .empty).2.count k

/-- How often passes over several trees count something. -/
def countedAll (k : ReduceCount) (es : List Expr) : Nat := (reducePasses es .empty).2.count k

/-- How many rules a pass applies. -/
def applied (e : Expr) : Nat := e.counted .applications

section

variable (k : ReduceCount)

theorem count_reduceRoot (e : Expr) (t : Tally ReduceCount) :
    (e.reduceRoot t).2.count k = t.count k + (e.reduceRoot .empty).2.count k := by
  unfold reduceRoot
  cases e.ruleStep? with
  | none => rfl
  | some step =>
    simp only [Tally.count_raise, Tally.count_empty]
    omega

theorem count_reducePasses {es : List Expr}
    (each : ∀ e ∈ es, ∀ t, (reducePass e t).2.count k = t.count k + e.counted k) :
    ∀ t, (reducePasses es t).2.count k = t.count k + countedAll k es := by
  induction es with
  | nil => exact fun t => rfl
  | cons e es ih =>
    obtain ⟨first, others⟩ := List.forall_mem_cons.1 each
    intro t
    have both : ∀ u, (reducePasses (e :: es) u).2.count k = u.count k + e.counted k + countedAll k es := by
      intro u
      have inTurn : (reducePasses (e :: es) u).2 = (reducePasses es (reducePass e u).2).2 := rfl
      rw [inTurn, ih others, first]
    rw [countedAll, both, both, Tally.count_empty]
    omega

/-- What a pass adds to a count does not depend on the count. -/
theorem count_reducePass (e : Expr) :
    ∀ t, (reducePass e t).2.count k = t.count k + e.counted k := by
  induction e using of_children with
  | node e ih =>
    intro t
    have children := count_reducePasses k ih
    rw [counted, reducePass_eq, reducePass_eq, count_reduceRoot, children,
      count_reduceRoot k _ (reducePasses _ _).2, children, Tally.count_empty]
    omega

theorem countedAll_cons (e : Expr) (es : List Expr) :
    countedAll k (e :: es) = e.counted k + countedAll k es :=
  count_reducePasses k (fun e _ => count_reducePass k e) (reducePass e .empty).2

/-- A pass counts what it counts in the children and at the root. -/
theorem counted_eq (e : Expr) :
    e.counted k = countedAll k e.children + ((e.mapChildren passed).reduceRoot .empty).2.count k := by
  rw [counted, reducePass_eq, count_reduceRoot]
  rfl

end

/-- A rule applied at the root is counted once. -/
theorem count_applications_reduceRoot (e : Expr) :
    (e.reduceRoot .empty).2.count .applications = if e.ruleStep?.isSome then 1 else 0 := by
  unfold reduceRoot
  cases found : e.ruleStep? with
  | none => rfl
  | some step => simp [(ruleStep?_cases found).1.1.symm]

/-- A pass does not count passes. -/
theorem counted_passes (e : Expr) : e.counted .passes = 0 := by
  induction e using of_children with
  | node e ih =>
    have children : ∀ es : List Expr, (∀ c ∈ es, c.counted .passes = 0) → countedAll .passes es = 0 := by
      intro es each
      induction es with
      | nil => rfl
      | cons c cs rest =>
        obtain ⟨first, others⟩ := List.forall_mem_cons.1 each
        rw [countedAll_cons, first, rest others]
    rw [counted_eq, children _ ih]
    unfold reduceRoot
    cases found : (e.mapChildren passed).ruleStep? with
    | none => rfl
    | some step => simp [(ruleStep?_cases found).1.2.symm]

/-! ## How much smaller a pass makes a tree -/

theorem countedAll_add_sizes {es : List Expr} (each : ∀ e ∈ es, e.applied + e.passed.size ≤ e.size) :
    countedAll .applications es + sizes (es.map passed) ≤ sizes es := by
  induction es with
  | nil => exact Nat.le_refl 0
  | cons e es ih =>
    obtain ⟨first, others⟩ := List.forall_mem_cons.1 each
    have rest := ih others
    rw [applied] at first
    rw [countedAll_cons, List.map_cons, sizes_cons, sizes_cons]
    omega

/-- Every rule that a pass applies takes a node away. -/
theorem applied_add_size_passed (e : Expr) : e.applied + e.passed.size ≤ e.size := by
  induction e using of_children with
  | node e ih =>
    have children := countedAll_add_sizes ih
    have before : (e.mapChildren passed).size = 1 + sizes (e.children.map passed) := by
      rw [size_eq, children_mapChildren]
    rw [applied, counted_eq, count_applications_reduceRoot, passed_eq, size_eq e]
    unfold rooted
    cases found : (e.mapChildren passed).ruleStep? with
    | none =>
      simp only [Option.isSome_none, Bool.false_eq_true, if_false]
      omega
    | some step =>
      have fewer := size_lt_of_ruleStep? found
      simp only [Option.isSome_some, if_true]
      omega

/-! ## Passes that change nothing -/

theorem countedAll_eq_zero_iff (k : ReduceCount) {es : List Expr} :
    countedAll k es = 0 ↔ ∀ e ∈ es, e.counted k = 0 := by
  induction es with
  | nil => simp [countedAll, reducePasses]
  | cons e es ih => rw [countedAll_cons, Nat.add_eq_zero_iff, ih, List.forall_mem_cons]

theorem mapChildren_eq_self {f : Expr → Expr} {e : Expr} (fixed : ∀ c ∈ e.children, f c = c) :
    e.mapChildren f = e := by
  have all {es : List Expr} (each : ∀ c ∈ es, f c = c) : es.map f = es :=
    (List.map_congr_left each).trans (List.map_id es)
  cases e with
  | label l d t => cases d <;> simp_all [mapChildren, children]
  | goto k l v t => cases v <;> simp_all [mapChildren, children]
  | _ => simp_all [mapChildren, children]

/-- A pass over a normal tree leaves it as it is. -/
theorem Normal.passed {e : Expr} (h : e.Normal) : e.passed = e := by
  induction e using of_children with
  | node e ih =>
    obtain ⟨here, children⟩ := normal_iff.1 h
    have same : e.mapChildren Expr.passed = e :=
      mapChildren_eq_self fun c child => ih c child (children c child)
    rw [passed_eq, same, here.rooted]

/-- A pass applies no rule exactly if the tree is normal. -/
theorem applied_eq_zero_iff {e : Expr} : e.applied = 0 ↔ e.Normal := by
  induction e using of_children with
  | node e ih =>
    have children : countedAll .applications e.children = 0 ↔ ∀ c ∈ e.children, c.Normal :=
      (countedAll_eq_zero_iff _).trans (forall₂_congr ih)
    rw [applied, counted_eq, count_applications_reduceRoot, Nat.add_eq_zero_iff, children, normal_iff, and_comm]
    -- What the rule is tried on at the root is the tree itself, as its children are normal on both sides.
    refine and_congr_left fun children => ?_
    rw [mapChildren_eq_self fun c child => (children c child).passed, settled_iff]
    cases e.ruleStep? <;> simp

/-! ## Passes until one applies no rule -/

/-- The counts after one more pass. -/
def afterPass (e : Expr) (t : Tally ReduceCount) : Tally ReduceCount :=
  (reducePass e (t.touch .applications)).2.raise .passes

theorem count_afterPass (e : Expr) (t : Tally ReduceCount) :
    (e.afterPass t).count .applications = t.count .applications + e.applied ∧
      (e.afterPass t).count .passes = t.count .passes + 1 := by
  simp [afterPass, count_reducePass, applied, counted_passes]

/-- Passes are repeated until one applies no rule. -/
theorem reduceFrom_succ (n : Nat) (e : Expr) (t : Tally ReduceCount) :
    reduceFrom (n + 1) e t =
      if e.applied = 0 then ⟨e.passed, e.afterPass t, true⟩ else reduceFrom n e.passed (e.afterPass t) := by
  -- The loop compares the counts before and after the pass.
  have unchanged : (e.afterPass t).count .applications = t.count .applications ↔ e.applied = 0 := by
    rw [(count_afterPass e t).1]
    omega
  have result : (reducePass e (t.touch .applications)).1 = e.passed := reducePass_fst e _
  rw [← if_congr unchanged rfl rfl, afterPass, ← result]
  rfl

/-- The rules applied in all passes are no more than the nodes that are gone. -/
theorem count_reduceFrom (n : Nat) : ∀ (e : Expr) (t : Tally ReduceCount),
    (reduceFrom n e t).tally.count .applications + (reduceFrom n e t).result.size ≤
      t.count .applications + e.size := by
  induction n with
  | zero => exact fun e t => Nat.le_refl _
  | succ n ih =>
    intro e t
    have pass := applied_add_size_passed e
    have counts := (count_afterPass e t).1
    rw [reduceFrom_succ]
    split
    · show (e.afterPass t).count .applications + e.passed.size ≤ _
      omega
    · have later := ih e.passed (e.afterPass t)
      omega

/-- If as many passes are allowed as there are nodes, the last one finds a normal tree. -/
theorem normal_reduceFrom (n : Nat) : ∀ (e : Expr) (t : Tally ReduceCount), e.size ≤ n →
    (reduceFrom n e t).result.Normal ∧ (reduceFrom n e t).settled = true := by
  induction n with
  | zero =>
    -- There is no tree without nodes.
    intro e t few
    rw [size_eq] at few
    omega
  | succ n ih =>
    intro e t few
    rw [reduceFrom_succ]
    split
    next none_applied =>
      have normal := applied_eq_zero_iff.1 none_applied
      exact ⟨normal.passed.symm ▸ normal, rfl⟩
    next =>
      -- The pass has taken a node away, so the passes that are left are enough for the others.
      have pass := applied_add_size_passed e
      exact ih e.passed _ (by omega)

/-- Reducing a normal tree changes nothing and applies no rule. -/
theorem Normal.reduce {e : Expr} (h : e.Normal) (maxPasses : Int) :
    (e.reduce maxPasses).result = e ∧ (e.reduce maxPasses).tally.count .applications = 0 := by
  rw [Expr.reduce]
  cases maxPasses.toNat with
  | zero => exact ⟨rfl, rfl⟩
  | succ n =>
    have none_applied := applied_eq_zero_iff.2 h
    rw [reduceFrom_succ, if_pos none_applied]
    refine ⟨h.passed, ?_⟩
    rw [(count_afterPass e .empty).1, none_applied, Tally.count_empty]

/-- If at least as many passes are allowed as a tree has nodes, reducing it leads to a tree to which no rule
applies anywhere, and reducing that again applies no rule and leads to the same tree. However many passes
are allowed, the rules that are applied are at most as many as the nodes that are gone afterwards. -/
theorem reduce_normalizes (e : Expr) (maxPasses : Int) :
    (e.size ≤ maxPasses →
      (e.reduce maxPasses).settled = true ∧ (e.reduce maxPasses).result.Normal ∧
        ∀ again : Int, ((e.reduce maxPasses).result.reduce again).result = (e.reduce maxPasses).result ∧
          ((e.reduce maxPasses).result.reduce again).tally.count .applications = 0) ∧
      (e.reduce maxPasses).tally.count .applications + (e.reduce maxPasses).result.size ≤ e.size := by
  refine ⟨fun enough => ?_, ?_⟩
  · obtain ⟨normal, settled⟩ := normal_reduceFrom maxPasses.toNat e .empty (by omega)
    exact ⟨settled, normal, fun again => Normal.reduce normal again⟩
  · have counts := count_reduceFrom maxPasses.toNat e .empty
    rwa [Tally.count_empty, Nat.zero_add] at counts

/-- A whole number that stands for itself. -/
def int32 (n : Int) : Expr := .constant ⟨.scalar (.wrapped ⟨true, .w32⟩ n), 0⟩ (.value .int32)

/-- Blocks that do not have the type of their last expression. The innermost one can only be spliced into the
outermost one when the one between them has been. -/
def veiledBlocks : Expr :=
  .block [] [.block [] [.block [] [int32 1] (.value .float64)] (.value .bool), int32 2] (.value .int32)

/-- Two passes apply a rule each, and the third one none. -/
theorem reduce_normalizes_veiledBlocks :
    veiledBlocks.size ≤ (5 : Int) ∧ (veiledBlocks.reduce 5).settled = true ∧
      (Expr.block [] [int32 1, int32 2] (.value .int32)).Normal ∧
      (veiledBlocks.reduce 5).result = .block [] [int32 1, int32 2] (.value .int32) ∧
      (veiledBlocks.reduce 5).tally.count .applications = 2 := by
  have size : veiledBlocks.size ≤ (5 : Int) := by simp [veiledBlocks, int32, size_eq, children]
  obtain ⟨settled, normal, -⟩ := (reduce_normalizes veiledBlocks 5).1 size
  exact ⟨size, settled, normal, rfl, rfl⟩

end Knot.Expr
