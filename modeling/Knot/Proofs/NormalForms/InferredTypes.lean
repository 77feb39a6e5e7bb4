import Knot.Proofs.Building
import Knot.Proofs.NormalForms.FixedPoints

/-!
# Blocks with inferred types

A block that is given no type has the type of its last expression. If all blocks of a tree have
(`Expr.InfersTypes`), one pass leads to a normal tree (`Expr.InfersTypes.normal_passed`): what can be
spliced into a block does not depend on where it stands (`Expr.canSplice_eq`), so that nothing is left to
splice once the blocks that can be have been, and they hold two expressions or more, or they would not be
blocks any more. A second pass finds that nothing is left to do (`Expr.InfersTypes.reduce_in_two_passes`).
-/

namespace Knot.Expr

/-! ## Inferred types -/

/-- A block that holds expressions has the type of the last one. -/
def InfersType : Expr → Prop
  | block _ es t => ∀ e ∈ es.getLast?, e.type = t
  | _ => True

/-- All blocks that hold expressions have the type of the last one. -/
def InfersTypes (e : Expr) : Prop := ∀ x ∈ e.subtrees, x.InfersType

theorem infersTypes_iff {e : Expr} : e.InfersTypes ↔ e.InfersType ∧ ∀ c ∈ e.children, c.InfersTypes :=
  forall_subtrees

@[simp] theorem infersTypes_constant {v : Boxed} {t : StaticType} : (constant v t).InfersTypes :=
  infersTypes_iff.2 ⟨trivial, by simp [children]⟩

/-- A block that is built without a type infers it. -/
theorem infersTypes_block {vs : List Parameter} {es : List Expr} (h : ∀ e ∈ es, e.InfersTypes) :
    (Build.block vs es none).InfersTypes := by
  refine infersTypes_iff.2 ⟨fun e last => ?_, h⟩
  rw [Option.mem_def.1 last]
  rfl

/-! ## What can be spliced -/

/-- A block without variables and labels that holds expressions. -/
def spliceable : Expr → Bool
  | block [] es _ => !es.isEmpty && !es.any isLabel
  | _ => false

theorem spliceable_iff {e : Expr} :
    e.spliceable = true ↔ ∃ es t, e = block [] es t ∧ es ≠ [] ∧ ∀ f ∈ es, f.isLabel = false := by
  unfold spliceable
  split <;> simp_all

theorem spliced?_eq (outer : StaticType) (last : Bool) (e : Expr) :
    spliced? outer last e = if e.spliceable && (!last || e.type = outer) then some e.children else none := by
  cases e with
  | block vs es t => cases vs <;> rfl
  | _ => rfl

section

variable {outer : StaticType}

/-- If the last expression has the type of the block, it does not matter which one is the last. -/
theorem spliced?_of_last {e : Expr} {es : List Expr} (last : ∀ x ∈ (e :: es).getLast?, x.type = outer) :
    spliced? outer es.isEmpty e = if e.spliceable then some e.children else none := by
  rw [spliced?_eq]
  cases es with
  | nil => simp [last e rfl]
  | cons f fs => simp

/-- The last expression of the rest is the last one. -/
theorem last_tail {P : Expr → Prop} {e : Expr} {es : List Expr} (last : ∀ x ∈ (e :: es).getLast?, P x) :
    ∀ x ∈ es.getLast?, P x := by
  cases es with
  | nil => exact fun _ => nofun
  | cons f fs => exact last

theorem canSplice_eq {es : List Expr} (last : ∀ x ∈ es.getLast?, x.type = outer) :
    canSplice outer es = es.any spliceable := by
  induction es with
  | nil => rfl
  | cons e es ih =>
    rw [canSplice, List.any_cons, ih (last_tail last), spliced?_of_last last]
    cases e.spliceable <;> rfl

theorem splice_eq {es : List Expr} (last : ∀ x ∈ es.getLast?, x.type = outer) :
    splice outer es = es.flatMap fun e => if e.spliceable then e.children else [e] := by
  induction es with
  | nil => rfl
  | cons e es ih =>
    rw [splice, List.flatMap_cons, ih (last_tail last), spliced?_of_last last]
    cases e.spliceable <;> rfl

/-- The last expression of a block inside that is spliced has its type. -/
theorem last_splice {es : List Expr} (inferred : ∀ e ∈ es, e.InfersType)
    (last : ∀ x ∈ es.getLast?, x.type = outer) : ∀ x ∈ (splice outer es).getLast?, x.type = outer := by
  rw [splice_eq last]
  rcases List.eq_nil_or_concat es with rfl | ⟨init, l, rfl⟩
  · exact fun _ => nofun
  · intro x found
    have type : l.type = outer := last l (by simp)
    have infers : l.InfersType := inferred l (by simp)
    rw [List.concat_eq_append, List.flatMap_append, List.flatMap_singleton, List.getLast?_append] at found
    cases splices : l.spliceable with
    | false => simp_all
    | true =>
      -- The last expression is now the one of a block that has inferred its type from it.
      obtain ⟨inner, t, rfl, some_inside, -⟩ := spliceable_iff.1 splices
      have innermost : inner.getLast? = some x := by simpa [splices, children, some_inside] using found
      exact (infers x innermost).trans type

/-! ## Blocks whose expressions are normal -/

/-- A block in normal form that can be spliced holds two expressions or more: a single one would stand in
its place. -/
theorem Settled.two_le {c : Expr} (settled : c.Settled) (inferred : c.InfersType)
    (splices : c.spliceable = true) : 2 ≤ c.children.length := by
  obtain ⟨es, t, rfl, some_inside, no_label⟩ := spliceable_iff.1 splices
  match es, some_inside with
  | [e], _ =>
    have single : (block [] [e] t).singleBlock? = some e := by simp [singleBlock?, no_label, inferred e rfl]
    rw [settled.2.2.1] at single
    cases single
  | e :: f :: es, _ => exact Nat.le_add_left 2 es.length

/-- In what has been spliced into a block, there is no block that can be spliced. -/
theorem canSplice_splice {es : List Expr} (settled : ∀ e ∈ es, e.Settled) (inferred : ∀ e ∈ es, e.InfersType)
    (last : ∀ x ∈ es.getLast?, x.type = outer) : canSplice outer (splice outer es) = false := by
  rw [canSplice_eq (last_splice inferred last), splice_eq last]
  refine List.any_eq_false.2 fun x inside => ?_
  obtain ⟨e, member, among⟩ := List.mem_flatMap.1 inside
  cases splices : e.spliceable with
  | false =>
    obtain rfl : x = e := by simpa [splices] using among
    simp [splices]
  | true =>
    -- A block that could be spliced now could have been spliced into the one it comes from, which is normal.
    rw [if_pos splices] at among
    obtain ⟨inner, t, rfl, -, -⟩ := spliceable_iff.1 splices
    have flat : ¬ canSplice t inner = true := fun some_block => by
      simpa [flattened?, some_block] using (settled _ member).2.2.2
    rw [canSplice_eq (inferred _ member), List.any_eq_true] at flat
    exact fun still => flat ⟨x, among, still⟩

/-- Splicing leaves two expressions or more. -/
theorem two_le_splice {es : List Expr} (settled : ∀ e ∈ es, e.Settled) (inferred : ∀ e ∈ es, e.InfersType)
    (last : ∀ x ∈ es.getLast?, x.type = outer) (some_block : canSplice outer es = true) :
    2 ≤ (splice outer es).length := by
  rw [canSplice_eq last, List.any_eq_true] at some_block
  obtain ⟨c, inside, splices⟩ := some_block
  obtain ⟨before, after, rfl⟩ := List.append_of_mem inside
  -- One block that is spliced holds two of them by itself.
  have two := (settled c inside).two_le (inferred c inside) splices
  simp only [splice_eq last, List.flatMap_append, List.flatMap_cons, List.length_append, splices, if_true]
  omega

end

/-! ## One pass -/

/-- A rule keeps the types of blocks inferred. -/
theorem InfersTypes.rooted {e : Expr} (h : e.InfersTypes) : e.rooted.InfersTypes := by
  obtain ⟨here, inside⟩ := infersTypes_iff.1 h
  rcases rooted_eq_or e with same | child | ⟨vs, es, t, rfl, spliced⟩
  · rwa [same]
  · exact inside _ child
  · rw [spliced]
    refine infersTypes_iff.2 ⟨last_splice (fun e child => (infersTypes_iff.1 (inside e child)).1) here, ?_⟩
    intro c child
    rcases mem_splice child with old | ⟨inner, u, member, within, -⟩
    · exact inside c old
    · exact (infersTypes_iff.1 (inside _ member)).2 c within

/-- A block with normal expressions is normal after the blocks in it have been spliced. -/
theorem InfersTypes.normal_splice {vs : List Parameter} {es : List Expr} {t : StaticType}
    (h : (block vs es t).InfersTypes) (normal : ∀ e ∈ es, e.Normal) (some_block : canSplice t es = true) :
    (block vs (splice t es) t).Normal := by
  obtain ⟨last, inside⟩ := infersTypes_iff.1 h
  have settled : ∀ e ∈ es, e.Settled := fun e child => (normal_iff.1 (normal e child)).1
  have inferred : ∀ e ∈ es, e.InfersType := fun e child => (infersTypes_iff.1 (inside e child)).1
  refine normal_iff.2 ⟨⟨rfl, rfl, ?_, ?_⟩, fun c child => ?_⟩
  · -- With two expressions the block cannot give its place to a single one.
    have two := two_le_splice settled inferred last some_block
    refine Option.eq_none_iff_forall_ne_some.2 fun r single => ?_
    obtain ⟨lone, -⟩ := singleBlock?_eq_some single
    rw [(block.inj lone).2.1] at two
    exact absurd two (by simp)
  · simp [flattened?, canSplice_splice settled inferred last]
  · rcases mem_splice child with old | ⟨inner, u, member, within, -⟩
    · exact normal c old
    · exact (normal_iff.1 (normal _ member)).2 c within

/-- The rule that is tried above normal trees leaves none to apply. -/
theorem InfersTypes.normal_rooted {e : Expr} (h : e.InfersTypes) (normal : ∀ c ∈ e.children, c.Normal) :
    e.rooted.Normal := by
  cases found : e.ruleStep? with
  | none =>
    have settled := settled_iff.2 found
    rw [settled.rooted]
    exact normal_iff.2 ⟨settled, normal⟩
  | some step =>
    have result : e.rooted = step.2 := by rw [Expr.rooted, found]
    rw [result]
    rcases mem_children_or_flattened found with child | flat
    · exact normal _ child
    · obtain ⟨vs, es, t, rfl, flattened, some_block⟩ := flattened?_spec flat
      rw [flattened]
      exact h.normal_splice normal some_block

/-- After one pass over a tree whose blocks infer their types, no rule applies anywhere. -/
theorem InfersTypes.normal_passed {e : Expr} (h : e.InfersTypes) : e.passed.Normal ∧ e.passed.InfersTypes := by
  induction e using of_children with
  | node e ih =>
    obtain ⟨here, inside⟩ := infersTypes_iff.1 h
    have children : ∀ c ∈ (e.mapChildren passed).children, c.Normal ∧ c.InfersTypes := by
      rw [children_mapChildren]
      exact List.forall_mem_map.2 fun c child => ih c child (inside c child)
    have inferred : (e.mapChildren passed).InfersTypes := by
      refine infersTypes_iff.2 ⟨?_, fun c child => (children c child).2⟩
      cases e with
      | block vs es t =>
        -- A pass keeps the types of trees, that of the last expression among them.
        intro x last
        obtain ⟨l, old, rfl⟩ := Option.map_eq_some_iff.1 ((List.getLast?_map ..).symm.trans last)
        exact (type_passed l).trans (here l old)
      | _ => trivial
    rw [passed_eq]
    exact ⟨inferred.normal_rooted fun c child => (children c child).1, inferred.rooted⟩

/-! ## Two passes -/

/-- If one pass leads to a normal tree, a second one is the last. -/
theorem reduceFrom_of_normal_passed {e : Expr} (normal : e.passed.Normal) (n : Nat) (t : Tally ReduceCount) :
    (reduceFrom (n + 2) e t).result = e.passed ∧ (reduceFrom (n + 2) e t).settled = true ∧
      (reduceFrom (n + 2) e t).tally.count .passes ≤ t.count .passes + 2 := by
  have first := (count_afterPass e t).2
  have second := (count_afterPass e.passed (e.afterPass t)).2
  rw [reduceFrom_succ]
  split
  · refine ⟨rfl, rfl, ?_⟩
    show (e.afterPass t).count .passes ≤ _
    omega
  · rw [reduceFrom_succ, if_pos (applied_eq_zero_iff.2 normal)]
    refine ⟨normal.passed, rfl, ?_⟩
    show (e.passed.afterPass (e.afterPass t)).count .passes ≤ _
    omega

/-- One pass over a tree whose blocks infer their types leads to a normal tree. So a reduction that may take
two passes or more takes two at most, and ends because nothing is left to do: what the settings allow is
never used up, and nothing is said about it. -/
theorem InfersTypes.reduce_in_two_passes {e : Expr} (h : e.InfersTypes) :
    e.passed.Normal ∧
      (∀ maxPasses ≥ 2, (e.reduce maxPasses).result = e.passed ∧ (e.reduce maxPasses).settled = true ∧
        (e.reduce maxPasses).tally.count .passes ≤ 2) ∧
      ∀ (m : Machine) (maxPasses : Int), Settings.repetitions m.settings.maxReductionPasses = .ok maxPasses →
        2 ≤ maxPasses → Run.reduce e m = (.value (e.reduce maxPasses), m) := by
  have normal := h.normal_passed.1
  have twice : ∀ maxPasses ≥ 2, (e.reduce maxPasses).result = e.passed ∧ (e.reduce maxPasses).settled = true ∧
      (e.reduce maxPasses).tally.count .passes ≤ 2 := by
    intro maxPasses enough
    obtain ⟨n, count⟩ : ∃ n, maxPasses.toNat = n + 2 := ⟨maxPasses.toNat - 2, by omega⟩
    rw [Expr.reduce, count]
    exact reduceFrom_of_normal_passed normal n .empty
  refine ⟨normal, twice, fun m maxPasses limit enough => ?_⟩
  have settled := (twice maxPasses enough).2.1
  refine (Run.bind_of_value (x := Run.read _) rfl).trans ?_
  refine (Run.bind_of_value (Run.lift_of_ok limit m)).trans ?_
  simp only [settled, if_true]
  rfl

/-- A conditional on a constant, in a block in which a block stands in whose place the conditional comes. -/
def nestedBlocks : Expr :=
  Build.block [] [int32 1, Build.block [] [.conditional (.constant ⟨.bool true, 0⟩ (.value .bool))
    (Build.block [] [int32 2, int32 3] none) (int32 4) (.value .int32)] none] none

/-- All of its three rules are applied in the first pass. -/
theorem InfersTypes.reduce_in_two_passes_nestedBlocks :
    nestedBlocks.InfersTypes ∧
      nestedBlocks.passed.Normal ∧ nestedBlocks.passed = .block [] [int32 1, int32 2, int32 3] (.value .int32) ∧
      (nestedBlocks.reduce 2).settled = true ∧ (nestedBlocks.reduce 2).tally.count .applications = 3 ∧
      (nestedBlocks.reduce 2).tally.count .passes ≤ 2 ∧
      Run.reduce nestedBlocks (.initial 1) = (.value (nestedBlocks.reduce 32), .initial 1) := by
  have inferred : nestedBlocks.InfersTypes := by
    -- The inner block holds the conditional, and the conditional the block that comes in its place.
    refine infersTypes_block (List.forall_mem_cons.2 ⟨infersTypes_constant, List.forall_mem_singleton.2 ?_⟩)
    refine infersTypes_block (List.forall_mem_singleton.2 (infersTypes_iff.2 ⟨trivial, ?_⟩))
    simp [children, int32, infersTypes_block]
  obtain ⟨normal, twice, unnoticed⟩ := inferred.reduce_in_two_passes
  obtain ⟨-, settled, few⟩ := twice 2 (by decide)
  exact ⟨inferred, normal, rfl, settled, rfl, few, unnoticed _ 32 rfl (by decide)⟩

end Knot.Expr
