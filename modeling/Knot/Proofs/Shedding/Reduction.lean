import Knot.Proofs.Shedding.Trees

/-!
# Reductions and evaluation

What a reduction makes of a built tree ends just when the tree ends, in the same outcome, and leaves the
same machine but for the bodies of closures (`Built.endsIn_reduce_iff`), on two conditions:

* no label is the operand of a conversion to its own type, or the branch that a conditional takes on a
  constant (`Expr.LabelsApart`). Where one is, the reduction can make it a step of the block around it,
  and a jump is caught there that has escaped before (`endsIn_reduce_of_label`);
* no conversion to the type that its operand has meets a value that is not of that type
  (`Expr.Steady`), for the reduction would lose a check or a change of the value with it.
-/

namespace Knot

namespace Expr

/-! ## Labels -/

/-- No label of the tree is the operand of a conversion to its own type, or the branch that a conditional takes
on a constant, be it one that passes make of its test. -/
inductive LabelsApart : Expr → Prop
  | node {e : Expr} (children : ∀ c ∈ e.children, LabelsApart c)
      (operand : ∀ op a, e = .unary op a a.type → op.isConversion = true → a.isLabel = false)
      (branch : ∀ test a b t k v, e = .conditional test a b t → (passed^[k] test).constant? = some v →
        (if v.value.truthy then a else b).isLabel = false) : LabelsApart e

namespace LabelsApart

theorem children {e c : Expr} (h : e.LabelsApart) (child : c ∈ e.children) : c.LabelsApart := by
  cases h with
  | node children => exact children c child

theorem operand {op : UnaryOp} {a : Expr} (h : (unary op a a.type).LabelsApart)
    (converts : op.isConversion = true) : a.isLabel = false := by
  cases h with
  | node _ operand => exact operand op a rfl converts

theorem branch {test a b : Expr} {t : StaticType} (h : (conditional test a b t).LabelsApart) {k : Nat}
    {v : Boxed} (constant : (passed^[k] test).constant? = some v) :
    (if v.value.truthy then a else b).isLabel = false := by
  cases h with
  | node _ _ branch => exact branch test a b t k v rfl constant

/-- The steps of a block in which other blocks have been spliced. -/
theorem of_mem_splice {outer : StaticType} {es : List Expr} (h : ∀ e ∈ es, e.LabelsApart) :
    ∀ e ∈ splice outer es, e.LabelsApart := by
  intro x inside
  rcases mem_splice inside with old | ⟨inner, t, member, within, -⟩
  · exact h x old
  · exact (h _ member).children within

/-- A rule keeps labels apart, and makes no label of a node that is none. -/
theorem rooted {e : Expr} (h : e.LabelsApart) :
    e.rooted.LabelsApart ∧ (e.isLabel = false → e.rooted.isLabel = false) := by
  have possible := rooted_cases e
  generalize e.rooted = r at possible ⊢
  rcases possible with rfl | conversion | condition | single | flat
  · exact ⟨h, id⟩
  · obtain ⟨op, converts, rfl⟩ := identityConversion?_eq_some conversion
    exact ⟨h.children List.mem_cons_self, fun _ => h.operand converts⟩
  · obtain ⟨test, a, b, v, rfl, constant, chosen⟩ := constantCondition?_eq_some condition
    have plain := h.branch (k := 0) constant
    subst chosen
    have inside : (if v.value.truthy then a else b) ∈ (conditional test a b
        (if v.value.truthy then a else b).type).children := by
      split <;> simp [Expr.children]
    exact ⟨h.children inside, fun _ => plain⟩
  · obtain ⟨rfl, plain⟩ := singleBlock?_eq_some single
    exact ⟨h.children List.mem_cons_self, fun _ => plain⟩
  · obtain ⟨vs, es, t, rfl, rfl⟩ := flattened?_eq_some flat
    refine ⟨.node (of_mem_splice fun e inside => h.children inside) ?_ ?_, fun _ => rfl⟩
    · rintro op a ⟨⟩
    · rintro test a b t k v ⟨⟩

/-- A pass keeps labels apart, and makes no label of a node that is none. -/
theorem passed {e : Expr} (h : e.LabelsApart) :
    e.passed.LabelsApart ∧ (e.isLabel = false → e.passed.isLabel = false) := by
  induction e using of_children with
  | node e ih =>
    have each : ∀ c ∈ e.children, c.passed.LabelsApart ∧
        (c.isLabel = false → c.passed.isLabel = false) := fun c inside => ih c inside (h.children inside)
    have node : (e.mapChildren Expr.passed).LabelsApart := by
      refine .node ?_ ?_ ?_
      · rw [children_mapChildren]
        intro c inside
        obtain ⟨child, member, rfl⟩ := List.mem_map.1 inside
        exact (each child member).1
      · intro op a shape converts
        cases e <;> cases shape
        next a =>
          rw [type_passed] at h
          exact (each a (by simp [Expr.children])).2 (h.operand converts)
      · intro test a b t k v shape constant
        cases e <;> cases shape
        next test a b =>
          -- what a pass makes of the test is one pass ahead
          have plain := h.branch (k := k + 1) constant
          split at plain
          next chosen =>
            rw [if_pos chosen]
            exact (each a (by simp [Expr.children])).2 plain
          next chosen =>
            rw [if_neg chosen]
            exact (each b (by simp [Expr.children])).2 plain
    have same : (e.mapChildren Expr.passed).isLabel = e.isLabel := by
      cases e <;> rfl
    rw [passed_eq]
    obtain ⟨apart, plain⟩ := node.rooted
    rw [same] at plain
    exact ⟨apart, plain⟩

/-- A step of a block that is no label stays none, if labels are apart. -/
theorem keepsLabels {e : Expr} (h : e.LabelsApart) : e.KeepsLabels := by
  induction e using of_children with
  | node e ih =>
    refine .node (fun c inside => ih c inside (h.children inside)) ?_
    rintro vs es t rfl s inside unlabelled
    rw [labelUid?_eq_none] at unlabelled ⊢
    exact (h.children inside).passed.2 unlabelled

end LabelsApart

/-! ## Ends of an evaluation -/

/-- With enough fuel the evaluation of a tree ends in an outcome, and it leaves a machine that is `rest`
but for the functions. -/
def EndsIn [Host] (e : Expr) (context : Context) (frame : FrameId) (m : Machine) (o : Outcome Boxed)
    (rest : Machine) : Prop :=
  o ≠ .exhausted ∧ ∃ fuel after, Run.eval fuel context frame e m = (o, after) ∧
    { after with functions := #[] } = { rest with functions := #[] }

/-- No conversion to the type that its operand has already meets a value that is not of that type. -/
def Steady [Host] (e : Expr) (context : Context) (frame : FrameId) (m : Machine) : Prop :=
  ∀ fuel, ¬ (e.probe fuel context frame).Halts m

end Expr

/-- A probe that settles on one outcome does not halt. -/
theorem Probe.Settles.not_halts {α : Type} {x : Probe α} {m : Machine} {r : Outcome α × Machine}
    (settled : x.Settles m r) : ¬ x.Halts m := by
  intro halts
  have one := (halts m).symm.trans (settled _)
  have other := (halts { m with nextUid := m.nextUid + 1 }).symm.trans (settled _)
  have same : m = { m with nextUid := m.nextUid + 1 } := by
    rw [← other] at one
    exact congrArg Prod.snd one
  have impossible := congrArg Machine.nextUid same
  simp at impossible

namespace Sheds

variable [Host] [Host.IsApart] {e f : Expr} {context : Context} {frame : FrameId} {m : Machine}

/-- With one unit of fuel more the tree that is left does the same, unless a conversion that has been
shed would have. -/
theorem probe_shedding (h : Sheds e f) (steady : e.Steady context frame m) (n : Nat) :
    ∃ o after, Run.eval n context frame e m = (o, after) ∧ (o = .exhausted ∨
      ∃ after', Run.eval (n + 1) context frame f m = (o, after') ∧ after.Alike .shedding after') := by
  have compared := h.sim (Nat.lt_succ_self n) (Calls.of_lt (d := .shedding) (Nat.lt_succ_self n))
    context frame
  rcases compared m m (.refl _ m) with halts | ⟨o, after, settled, rest⟩
  · exact absurd halts (steady n)
  · refine ⟨o, after, settled none, rest.imp_right ?_⟩
    rintro ⟨after', settled', alike⟩
    exact ⟨after', settled' none, alike⟩

/-- And the other way round. The tree that is left is steady too. -/
theorem probe_restoring (h : Sheds e f) (steady : e.Steady context frame m) (n : Nat) :
    ¬ (f.probe n context frame).Halts m ∧ ∃ o after, Run.eval n context frame f m = (o, after) ∧
      (o = .exhausted ∨
        ∃ after', Run.eval (n + 1) context frame e m = (o, after') ∧ after.Alike .restoring after') := by
  have compared := h.sim (Nat.lt_succ_self n) (Calls.of_lt (d := .restoring) (Nat.lt_succ_self n))
    context frame
  rcases compared m m (.refl _ m) with halts | ⟨o, after, settled, rest⟩
  · exact absurd halts (steady (n + 1))
  · refine ⟨settled.not_halts, o, after, settled none, rest.imp_right ?_⟩
    rintro ⟨after', settled', alike⟩
    exact ⟨after', settled' none, alike⟩

theorem steady (h : Sheds e f) (steady : e.Steady context frame m) : f.Steady context frame m :=
  fun n => (h.probe_restoring steady n).1

/-- What is left of a steady tree ends as the tree does. -/
theorem endsIn_iff (h : Sheds e f) (steady : e.Steady context frame m) {o : Outcome Boxed}
    {rest : Machine} : f.EndsIn context frame m o rest ↔ e.EndsIn context frame m o rest := by
  constructor
  · rintro ⟨out, fuel, after, ended, same⟩
    obtain ⟨-, o', after', ended', more⟩ := h.probe_restoring steady fuel
    rw [ended] at ended'
    cases ended'
    obtain ⟨last, ended', ⟨functions⟩⟩ := more.resolve_left out
    exact ⟨out, fuel + 1, _, ended', same⟩
  · rintro ⟨out, fuel, after, ended, same⟩
    obtain ⟨o', after', ended', more⟩ := h.probe_shedding steady fuel
    rw [ended] at ended'
    cases ended'
    obtain ⟨last, ended', ⟨functions⟩⟩ := more.resolve_left out
    exact ⟨out, fuel + 1, _, ended', same⟩

end Sheds

/-! ## Reductions -/

section

variable [Host] [Host.IsApart] {e : Expr} {context : Context} {frame : FrameId} {m : Machine}

/-- Any number of passes over a tree without an obstacle. -/
theorem Expr.endsIn_iterate_passed_iff (k : Nat) {e : Expr} (labels : e.LabelsApart)
    (clear : e.obstacle? = none) (steady : e.Steady context frame m) {o : Outcome Boxed}
    {rest : Machine} :
    (passed^[k] e).EndsIn context frame m o rest ↔ e.EndsIn context frame m o rest := by
  induction k generalizing e with
  | zero => rfl
  | succ k ih =>
    have sheds := sheds_passed labels.keepsLabels clear
    rw [Function.iterate_succ_apply,
      ih labels.passed.1 (obstacle?_passed e clear) (sheds.steady steady)]
    exact sheds.endsIn_iff steady

/-- A reduction changes the representation only: what it makes of a built tree ends in the outcomes in
which the tree ends and leaves what the tree leaves, but for the functions, if labels are apart and no
conversion to the type of its operand meets a value of another type. -/
theorem Built.endsIn_reduce_iff (built : Built e) (labels : e.LabelsApart)
    (steady : e.Steady context frame m) (maxPasses : Int) (o : Outcome Boxed) (rest : Machine) :
    (e.reduce maxPasses).result.EndsIn context frame m o rest ↔ e.EndsIn context frame m o rest := by
  obtain ⟨k, result⟩ := Expr.reduce_eq_iterate e maxPasses
  rw [result]
  exact Expr.endsIn_iterate_passed_iff k labels built.obstacle?_eq_none steady

end

namespace Jumping

/-- A number of 32 bits. -/
def number (n : Int) : Expr := .constant ⟨.scalar (.wrapped ⟨true, .w32⟩ n), 0⟩ (.value .int32)

/-- What a jump goes to. -/
def target : LabelTarget := ⟨"end", .value .int32, 1⟩

/-- The jump, with seven. -/
def jump : Expr := .goto .goto target (some (number 7)) .void

/-- The label, behind which zero is the value unless a jump brings another. -/
def label : Expr := .label target (some (number 0)) (.value .int32)

theorem built_number (n : Int) : Built (number n) :=
  @Built.constant ⟨.scalar (.wrapped ⟨true, .w32⟩ n), 0⟩ none _ rfl

theorem built_jump : Built jump := by
  have made : Build.goto .goto target (some (number 7)) .void = .ok jump := rfl
  refine .goto ?_ made
  rintro a ⟨⟩
  exact built_number 7

theorem built_label : Built label := by
  have made : Build.label target (some (number 0)) = .ok label := rfl
  refine .label ?_ made
  rintro a ⟨⟩
  exact built_number 0

/-- A block inside a block, from which a jump goes past a conversion of three to its own type. -/
def detour : Expr :=
  .block [] [.block [] [number 1, jump] .void, .unary .convert (number 3) (.value .int32), label]
    (.value .int32)

theorem built_detour : Built detour := by
  have inner : Built (.block [] [number 1, jump] .void) :=
    .block [] (List.forall_mem_cons.2 ⟨built_number 1, List.forall_mem_singleton.2 built_jump⟩) none
  have conversion : Built (.unary .convert (number 3) (.value .int32)) :=
    .unary (built_number 3)
      (show Build.unary .convert (number 3) (some (.value .int32)) = .ok _ from rfl)
  exact .block [] (List.forall_mem_cons.2 ⟨inner, List.forall_mem_cons.2
    ⟨conversion, List.forall_mem_singleton.2 built_label⟩⟩) none

end Jumping

open Jumping in
/-- The inner block is spliced and the conversion taken away, and the jump still goes to the label. -/
theorem endsIn_reduce_detour :
    Built detour ∧ detour.LabelsApart ∧ detour.Steady .empty 0 (.initial 1) ∧
    (detour.reduce 32).result = .block [] [number 1, jump, number 3, label] (.value .int32) ∧
    (detour.reduce 32).result.EndsIn .empty 0 (.initial 1)
      (.value ⟨.scalar (.wrapped ⟨true, .w32⟩ 7), 0⟩) (.initial 1) := by
  have leaf (n : Int) : (number n).LabelsApart :=
    .node (List.forall_mem_nil _) (by rintro op a ⟨⟩) (by rintro test a b t k v ⟨⟩)
  have labels : detour.LabelsApart := by
    refine .node (List.forall_mem_cons.2 ⟨?_, List.forall_mem_cons.2
      ⟨?_, List.forall_mem_singleton.2 ?_⟩⟩) (by rintro op a ⟨⟩) (by rintro test a b t k v ⟨⟩)
    · refine .node (List.forall_mem_cons.2 ⟨leaf 1, List.forall_mem_singleton.2 ?_⟩)
        (by rintro op a ⟨⟩) (by rintro test a b t k v ⟨⟩)
      exact .node (List.forall_mem_singleton.2 (leaf 7)) (by rintro op a ⟨⟩)
        (by rintro test a b t k v ⟨⟩)
    · -- what is converted to its own type is a number
      refine .node (List.forall_mem_singleton.2 (leaf 3)) ?_ (by rintro test a b t k v ⟨⟩)
      rintro op a ⟨⟩ -
      rfl
    · exact .node (List.forall_mem_singleton.2 (leaf 0)) (by rintro op a ⟨⟩)
        (by rintro test a b t k v ⟨⟩)
  have settled (fuel : Nat) : (detour.probe (fuel + 2) .empty 0).Settles (.initial 1)
      (.value ⟨.scalar (.wrapped ⟨true, .w32⟩ 7), 0⟩, .initial 1) := by
    intro halt
    cases halt <;> rfl
  -- with less fuel the evaluation does not come to the label
  have early (fuel : Nat) (short : fuel < 2) :
      (detour.probe fuel .empty 0).Settles (.initial 1) (.exhausted, .initial 1) := by
    intro halt
    obtain rfl | rfl : fuel = 0 ∨ fuel = 1 := by omega
    · rfl
    · cases halt <;> rfl
  have steady : detour.Steady .empty 0 (.initial 1) := by
    intro fuel
    rcases Nat.lt_or_ge fuel 2 with short | enough
    · exact (early fuel short).not_halts
    · obtain ⟨more, rfl⟩ := Nat.exists_eq_add_of_le' enough
      exact (settled more).not_halts
  refine ⟨built_detour, labels, steady, rfl, ?_⟩
  exact (built_detour.endsIn_reduce_iff labels steady 32 _ _).2
    ⟨by simp, 2, .initial 1, settled 0 none, rfl⟩

/-! ## A label that is freed -/

namespace Jumping

/-- A jump to a label that stands under a conversion in the same block. -/
def veiledLabel : Expr := .block [] [jump, .unary .convert label (.value .int32)] (.value .int32)

theorem built_veiledLabel : Built veiledLabel := by
  have veiled : Built (.unary .convert label (.value .int32)) :=
    .unary built_label (show Build.unary .convert label (some (.value .int32)) = .ok _ from rfl)
  exact .block [] (List.forall_mem_cons.2 ⟨built_jump, List.forall_mem_singleton.2 veiled⟩) none

end Jumping

open Jumping in
/-- The jump escapes from the tree, and is caught in what a reduction makes of it. -/
theorem endsIn_reduce_of_label :
    Built veiledLabel ∧
    veiledLabel.EndsIn .empty 0 (.initial 1) (.jump 1 ⟨.scalar (.wrapped ⟨true, .w32⟩ 7), 0⟩)
      (.initial 1) ∧
    (veiledLabel.reduce 32).result.EndsIn .empty 0 (.initial 1)
      (.value ⟨.scalar (.wrapped ⟨true, .w32⟩ 7), 0⟩) (.initial 1) :=
  ⟨built_veiledLabel, ⟨by simp, 2, .initial 1, rfl, rfl⟩, by simp, 3, .initial 1, rfl, rfl⟩

end Knot
