import Knot.Proofs.Obstacles

/-!
# Trees that shed nodes

`Sheds e f` relates a tree to one that is left of it when some of its nodes are shed: conversions to
the type that their operand has, conditionals on a constant, and blocks that declare nothing. It keeps
to what the evaluation depends on: the types of nodes, and which steps of a block are labels.

A pass of the reduction sheds nodes (`Expr.sheds_passed`), provided that no label comes to stand in a
block where none was before (`Expr.KeepsLabels`).
-/

namespace Knot

mutual

/-- The second tree is left of the first when some nodes are shed. -/
inductive Sheds : Expr → Expr → Prop
  | constant (v t) : Sheds (.constant v t) (.constant v t)
  | parameter (p) : Sheds (.parameter p) (.parameter p)
  | strange (v t) : Sheds (.strange v t) (.strange v t)
  | bare (t) : Sheds (.bare t) (.bare t)
  | unary {op a a' t} (operand : Sheds a a') : Sheds (.unary op a t) (.unary op a' t)
  | binary {op a a' b b' t} (target : op = .assign → a' = a) (left : Sheds a a') (right : Sheds b b') :
      Sheds (.binary op a b t) (.binary op a' b' t)
  | conditional {a a' b b' c c' t} (test : Sheds a a') (ifTrue : Sheds b b') (ifFalse : Sheds c c') :
      Sheds (.conditional a b c t) (.conditional a' b' c' t)
  | invoke {f f' args args' t} (callee : Sheds f f') (arguments : ShedsAll args args') :
      Sheds (.invoke f args t) (.invoke f' args' t)
  | member {a a' name t} (owner : Sheds a a') : Sheds (.member a name t) (.member a' name t)
  | hostCall {f args args' t} (arguments : ShedsAll args args') :
      Sheds (.hostCall f args t) (.hostCall f args' t)
  | block {vs es es' t} (steps : ShedsSteps es es') : Sheds (.block vs es t) (.block vs es' t)
  | label {l d d' t} (default : ShedsOption d d') : Sheds (.label l d t) (.label l d' t)
  | goto {k l v v' t} (value : ShedsOption v v') : Sheds (.goto k l v t) (.goto k l v' t)
  | loop {a a' b c t} (body : Sheds a a') : Sheds (.loop a b c t) (.loop a' b c t)
  | lambda {ps a a' t} (body : Sheds a a') : Sheds (.lambda ps a t) (.lambda ps a' t)
  | cached {f f' a a' t c} (callee : Sheds f f') (argument : Sheds a a') :
      Sheds (.cached f a t c) (.cached f' a' t c)
  | parallel {op a a' b b' t p} (left : ShedsOperand a a') (right : ShedsOperand b b') :
      Sheds (.parallel op a b t p) (.parallel op a' b' t p)
  /-- A conversion to the type of its operand is shed. -/
  | conversion {op a a' t} (converts : op.isConversion = true) (idle : a.type = t)
      (operand : Sheds a a') : Sheds (.unary op a t) a'
  /-- A conditional on a constant is shed, and the branch not chosen with it. -/
  | chosen {a v s b b' c c' t} (test : Sheds a (.constant v s)) (ifTrue : Sheds b b')
      (ifFalse : Sheds c c') (typed : (if v.value.truthy then b else c).type = t) :
      Sheds (.conditional a b c t) (if v.value.truthy then b' else c')
  /-- A block of one step that is no label is shed. -/
  | single {e f t} (typed : e.type = t) (unlabelled : e.labelUid? = none)
      (unlabelled' : f.labelUid? = none) (step : Sheds e f) : Sheds (.block [] [e] t) f

/-- The same for several trees, one by one. -/
inductive ShedsAll : List Expr → List Expr → Prop
  | nil : ShedsAll [] []
  | cons {e f es fs} (first : Sheds e f) (rest : ShedsAll es fs) : ShedsAll (e :: es) (f :: fs)

/-- The same for a tree that may be absent. -/
inductive ShedsOption : Option Expr → Option Expr → Prop
  | none : ShedsOption none none
  | some {e f} (present : Sheds e f) : ShedsOption (some e) (some f)

/-- The same for the steps of a block. A step that has become a block without variables and labels may
be replaced by the steps of that block. -/
inductive ShedsSteps : List Expr → List Expr → Prop
  | nil : ShedsSteps [] []
  | cons {e f es fs} (same : e.labelUid? = f.labelUid?) (first : Sheds e f)
      (rest : ShedsSteps es fs) : ShedsSteps (e :: es) (f :: fs)
  | splice {e inner t es fs} (unlabelled : e.labelUid? = none) (some_steps : inner ≠ [])
      (unlabelled' : ∀ f ∈ inner, f.labelUid? = none) (first : Sheds e (.block [] inner t))
      (rest : ShedsSteps es fs) : ShedsSteps (e :: es) (inner ++ fs)

/-- The same for an operand of a split, which stays the call that it is. -/
inductive ShedsOperand : Expr → Expr → Prop
  | invoke {f f' args args' t} (callee : Sheds f f') (arguments : ShedsAll args args') :
      ShedsOperand (.invoke f args t) (.invoke f' args' t)
  | cached {f f' a a' t c} (callee : Sheds f f') (argument : Sheds a a') :
      ShedsOperand (.cached f a t c) (.cached f' a' t c)
  | other {e} (noCall : e.isCall = false) : ShedsOperand e e

end

namespace Sheds

/-! ## What shedding keeps -/

/-- The type stays. -/
theorem type_eq {e f : Expr} (h : Sheds e f) : e.type = f.type := by
  cases h with
  | conversion _ idle operand => exact idle.symm.trans operand.type_eq
  | chosen _ ifTrue ifFalse typed =>
    subst typed
    show Expr.type (if _ then _ else _) = _
    split
    · exact ifTrue.type_eq
    · exact ifFalse.type_eq
  | single typed _ _ step => exact typed.symm.trans step.type_eq
  | _ => rfl

end Sheds

/-! ## Lists of trees -/

/-- Trees shed nodes one by one if each of them does. -/
theorem ShedsAll.of_map {f : Expr → Expr} {es : List Expr} (each : ∀ e ∈ es, Sheds e (f e)) :
    ShedsAll es (es.map f) := by
  induction es with
  | nil => exact .nil
  | cons e es ih =>
    obtain ⟨first, rest⟩ := List.forall_mem_cons.1 each
    exact .cons first (ih rest)

theorem ShedsOption.of_map {f : Expr → Expr} {d : Option Expr} (present : ∀ e ∈ d, Sheds e (f e)) :
    ShedsOption d (d.map f) := by
  cases d with
  | none => exact .none
  | some e => exact .some (present e rfl)

theorem ShedsSteps.of_map {f : Expr → Expr} {es : List Expr} (each : ∀ e ∈ es, Sheds e (f e))
    (same : ∀ e ∈ es, e.labelUid? = (f e).labelUid?) : ShedsSteps es (es.map f) := by
  induction es with
  | nil => exact .nil
  | cons e es ih =>
    obtain ⟨first, rest⟩ := List.forall_mem_cons.1 each
    obtain ⟨here, later⟩ := List.forall_mem_cons.1 same
    exact .cons here first (ih rest later)

/-- A tree that is no label has no number of a label. -/
theorem Expr.labelUid?_eq_none {e : Expr} : e.labelUid? = none ↔ e.isLabel = false := by
  cases e <;> simp [labelUid?, isLabel]

/-- What can be spliced is a block of steps that are no labels. -/
theorem Expr.spliced?_eq_some {outer : StaticType} {last : Bool} {e : Expr} {inner : List Expr}
    (spliced : spliced? outer last e = some inner) :
    ∃ t, e = block [] inner t ∧ inner ≠ [] ∧ ∀ f ∈ inner, f.labelUid? = none := by
  unfold spliced? at spliced
  split at spliced
  next es t =>
    split at spliced
    next fits =>
      cases spliced
      simp only [Bool.and_eq_true, Bool.not_eq_true', List.isEmpty_eq_false_iff] at fits
      refine ⟨t, rfl, fits.1.1, fun f inside => labelUid?_eq_none.2 ?_⟩
      have plain := List.any_eq_false.1 fits.1.2 f inside
      simpa using plain
    next => cases spliced
  next => cases spliced

/-- Steps that shed nodes one by one shed more when the blocks among them are spliced. -/
theorem ShedsSteps.splice_map {f : Expr → Expr} {es : List Expr} (outer : StaticType)
    (each : ∀ e ∈ es, Sheds e (f e)) (same : ∀ e ∈ es, e.labelUid? = (f e).labelUid?) :
    ShedsSteps es (Expr.splice outer (es.map f)) := by
  induction es with
  | nil => exact .nil
  | cons e es ih =>
    obtain ⟨first, rest⟩ := List.forall_mem_cons.1 each
    obtain ⟨here, later⟩ := List.forall_mem_cons.1 same
    rw [List.map_cons, Expr.splice]
    cases found : Expr.spliced? outer (es.map f).isEmpty (f e) with
    | none => exact .cons here first (ih rest later)
    | some inner =>
      obtain ⟨t, shape, some_steps, unlabelled⟩ := Expr.spliced?_eq_some found
      rw [shape] at first here
      exact .splice here some_steps unlabelled first (ih rest later)

namespace Sheds

/-- A call that sheds nodes does so as an operand of a split too. -/
theorem operand {e f : Expr} (h : Sheds e f) (call : e.isCall = true) : ShedsOperand e f := by
  cases h with
  | invoke callee arguments => exact .invoke callee arguments
  | cached callee argument => exact .cached callee argument
  | _ => cases call

/-- A node sheds what its children shed. A step of a block stays the label that it is or is none, the
left side of an assignment stays as it is, and so does an operand of a split that is no call. -/
theorem mapChildren {f : Expr → Expr} {e : Expr} (each : ∀ c ∈ e.children, Sheds c (f c))
    (labels : ∀ vs es t, e = .block vs es t → ∀ s ∈ es, s.labelUid? = (f s).labelUid?)
    (targets : ∀ a b t, e = .binary .assign a b t → f a = a)
    (operands : ∀ op a b t p, e = .parallel op a b t p → ∀ c, c = a ∨ c = b →
      c.isCall = false → f c = c) : Sheds e (e.mapChildren f) := by
  cases e with
  | constant v t => exact .constant v t
  | parameter p => exact .parameter p
  | strange v t => exact .strange v t
  | bare t => exact .bare t
  | unary op a t => exact .unary (each a (by simp [Expr.children]))
  | binary op a b t =>
    refine .binary (fun assignment => ?_) (each a (by simp [Expr.children]))
      (each b (by simp [Expr.children]))
    subst assignment
    exact targets a b t rfl
  | conditional a b c t =>
    exact .conditional (each a (by simp [Expr.children])) (each b (by simp [Expr.children]))
      (each c (by simp [Expr.children]))
  | invoke g args t =>
    exact .invoke (each g (by simp [Expr.children]))
      (.of_map fun c inside => each c (by simp [Expr.children, inside]))
  | member a name t => exact .member (each a (by simp [Expr.children]))
  | hostCall g args t => exact .hostCall (.of_map each)
  | block vs es t => exact .block (.of_map each (labels vs es t rfl))
  | label l d t => exact .label (.of_map fun c inside => each c (Option.mem_toList.2 inside))
  | goto k l v t => exact .goto (.of_map fun c inside => each c (Option.mem_toList.2 inside))
  | loop a b c t => exact .loop (each a (by simp [Expr.children]))
  | lambda ps a t => exact .lambda (each a (by simp [Expr.children]))
  | cached a b t c =>
    exact .cached (each a (by simp [Expr.children])) (each b (by simp [Expr.children]))
  | parallel op a b t p =>
    -- a split puts off its calls only; what an operand is otherwise has to be unchanged, for it is a fault
    have stays : ∀ c, c = a ∨ c = b → ShedsOperand c (f c) := by
      intro c here
      cases call : c.isCall with
      | true => exact (each c (by simpa [Expr.children] using here)).operand call
      | false =>
        rw [operands op a b t p rfl c here call]
        exact .other call
    exact .parallel (stays a (.inl rfl)) (stays b (.inr rfl))

/-- Nothing may be shed. -/
theorem refl (e : Expr) : Sheds e e := by
  induction e using Expr.of_children with
  | node e ih =>
    have same : e.mapChildren id = e := by
      cases e <;> simp [Expr.mapChildren]
    have kept := mapChildren (f := id) ih (fun _ _ _ _ _ _ => rfl) (fun _ _ _ _ => rfl)
      (fun _ _ _ _ _ _ _ _ _ => rfl)
    rwa [same] at kept

end Sheds

/-! ## Passes shed nodes -/

/-- In every block of the tree a step that is no label is none after a pass either. -/
inductive Expr.KeepsLabels : Expr → Prop
  | node {e : Expr} (children : ∀ c ∈ e.children, KeepsLabels c)
      (steps : ∀ vs es t, e = .block vs es t →
        ∀ s ∈ es, s.labelUid? = none → s.passed.labelUid? = none) : KeepsLabels e

/-- A label is the same label after a pass. -/
theorem Expr.labelUid?_passed {e : Expr} {uid : Nat} (labelled : e.labelUid? = some uid) :
    e.passed.labelUid? = some uid := by
  rw [passed_eq]
  cases e <;> first | exact labelled | cases labelled

/-- A tree with a constant value is a constant, or stands in the way of its evaluation. -/
theorem Expr.constant_of_constant? {e : Expr} {v : Boxed} (constant : e.constant? = some v)
    (clear : e.obstacle? = none) : ∃ t, e = .constant v t := by
  cases e with
  | constant w t =>
    cases constant
    exact ⟨t, rfl⟩
  | strange w t => cases clear
  | _ => cases constant

/-- What a pass makes of a tree is left when nodes are shed. -/
theorem Expr.sheds_passed {e : Expr} (labels : e.KeepsLabels) (clear : e.obstacle? = none) :
    Sheds e e.passed := by
  induction e using of_children with
  | node e ih =>
    obtain ⟨kept, steps⟩ := labels
    obtain ⟨order, parts⟩ := obstacle?_eq_none_iff.1 clear
    have each : ∀ c ∈ e.children, Sheds c c.passed := fun c inside =>
      ih c inside (kept c inside) (parts c inside)
    have same : ∀ vs es t, e = block vs es t → ∀ s ∈ es, s.labelUid? = s.passed.labelUid? := by
      intro vs es t shape s inside
      cases known : s.labelUid? with
      | none => rw [steps vs es t shape s inside known]
      | some uid => rw [labelUid?_passed known]
    have node : Sheds e (e.mapChildren passed) := by
      refine .mapChildren each same ?_ ?_
      · rintro a b t rfl
        have variable_there := order rfl
        cases a <;> first | rfl | cases variable_there
      · rintro op a b t p rfl c (rfl | rfl) noCall
        · rw [order.1] at noCall
          cases noCall
        · rw [order.2] at noCall
          cases noCall
    -- the rule at the root sheds the node that it is tried on
    rw [passed_eq]
    have possible := rooted_cases (e.mapChildren passed)
    generalize shape : e.mapChildren passed = e' at possible node ⊢
    generalize e'.rooted = r at possible ⊢
    rcases possible with rfl | conversion | condition | single | flat
    · exact node
    · obtain ⟨op, converts, rfl⟩ := identityConversion?_eq_some conversion
      cases e <;> cases shape
      next a =>
        exact .conversion converts (type_passed a).symm (each a (by simp [children]))
    · obtain ⟨test, a, b, v, rfl, constant, rfl⟩ := constantCondition?_eq_some condition
      cases e <;> cases shape
      next test a b =>
        have tested : Sheds test test.passed := each test (by simp [children])
        obtain ⟨s, passed_test⟩ : ∃ s, test.passed = .constant v s :=
          constant_of_constant? constant (obstacle?_passed test (parts test (by simp [children])))
        rw [passed_test] at tested
        refine .chosen tested (each a (by simp [children])) (each b (by simp [children])) ?_
        split <;> simp
    · obtain ⟨rfl, unlabelled⟩ := singleBlock?_eq_some single
      cases e with
      | block vs es t =>
        simp only [mapChildren, block.injEq] at shape
        obtain ⟨rfl, one, rfl⟩ := shape
        obtain ⟨s, rfl, rfl⟩ := List.map_eq_singleton_iff.1 one
        have alike := same [] [s] _ rfl s List.mem_cons_self
        rw [labelUid?_eq_none.2 unlabelled] at alike
        exact .single (type_passed s).symm alike (labelUid?_eq_none.2 unlabelled)
          (each s List.mem_cons_self)
      | _ => cases shape
    · obtain ⟨vs, es, t, rfl, rfl⟩ := flattened?_eq_some flat
      cases e <;> cases shape
      next es =>
        exact .block (.splice_map t each (same vs es t rfl))

end Knot
