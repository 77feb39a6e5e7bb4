import Knot.Proofs.Curried.Meaning

/-!
# What a compilation makes of a curried body

A compilation puts a fresh variable in the place of the defined function, may mark the applications as
cached, and reduces the result. A part stays a part that awaits the same (`Part.marked`,
`Part.iterate_passed`), and the body denotes what it has denoted (`CurriedDefinition.Compiles`).
-/

namespace Knot

namespace CurriedDefinition

variable {d : CurriedDefinition} {o : CompileOptions} {f bound : Parameter} {e : Expr}
  {awaited : List WholeVariable} {t : ValueType}

/-! ## Substitution -/

section

variable {r : Substitution}

/-- A substitution for the function leaves the variables. -/
theorem marked_input (placeholder : r.placeholder = .parameter d.self) {x : WholeVariable}
    (declared : x ∈ d.inputs) : (Expr.parameter x.parameter).marked r = .parameter x.parameter := by
  have other : ¬ r.placeholder.parameter? = some x.parameter := by
    rw [placeholder]
    intro same
    refine d.apart_self declared ?_
    rw [← Option.some.inj same]
  rw [Expr.marked, if_neg other]

/-- It goes through the functions of the variables to the body. -/
theorem marked_curried (placeholder : r.placeholder = .parameter d.self) (body : Expr)
    {xs : List WholeVariable} (declared : ∀ x ∈ xs, x ∈ d.inputs) :
    (body.curried d.codomain xs).marked r = (body.marked r).curried d.codomain xs := by
  induction xs with
  | nil => rfl
  | cons x xs ih =>
    have later := ih fun y inside => declared y (List.mem_cons_of_mem x inside)
    simp only [Expr.curried]
    rw [Expr.marked, Expr.markedAll, Expr.markedAll,
      marked_input placeholder (declared x List.mem_cons_self), later]

/-- Without splits it makes a part with the other variable for the function, which denotes the same. -/
theorem Part.marked (h : d.Part .plain d.self e awaited t)
    (placeholder : r.placeholder = .parameter d.self) (replacement : r.replacement = .parameter bound)
    (caching : r.caching = o.caching) (cache : r.cache = o.cache) (sequential : r.threading = false) :
    d.Part o bound (e.marked r) awaited t ∧
      ∀ (apply : Value → Value → Partial) (env env' : Nat → Option Value),
        env' bound.uid = env d.self.uid →
        (∀ x ∈ d.inputs, env' x.parameter.uid = env x.parameter.uid) →
        (e.marked r).denoted apply env' = e.denoted apply env := by
  induction h with
  | constant typed => exact ⟨.constant typed, fun _ _ _ _ _ => rfl⟩
  | argument declared =>
    rw [marked_input placeholder declared]
    refine ⟨.argument declared, fun apply env env' _ inputs => ?_⟩
    simp only [Expr.denoted, inputs _ declared]
  | function =>
    have known : r.placeholder.parameter? = some d.self := by
      rw [placeholder]
      rfl
    rw [Expr.marked, if_pos known, replacement]
    refine ⟨.function, fun apply env env' same _ => ?_⟩
    simp only [Expr.denoted, same]
  | conversion _ conversion ih =>
    refine ⟨.conversion ih.1 conversion, fun apply env env' same inputs => ?_⟩
    simp only [Expr.marked, Expr.denoted, ih.2 apply env env' same inputs]
  | unary _ other whole number ih =>
    refine ⟨.unary ih.1 other whole number, fun apply env env' same inputs => ?_⟩
    simp only [Expr.marked, Expr.denoted, ih.2 apply env env' same inputs]
  | binary _ _ other admitted left right =>
    -- without threading no operator is split
    rw [Expr.marked, sequential, Bool.false_and, if_neg Bool.false_ne_true]
    refine ⟨.binary left.1 right.1 other admitted, fun apply env env' same inputs => ?_⟩
    simp only [Expr.denoted, left.2 apply env env' same inputs, right.2 apply env env' same inputs]
  | conditional _ _ _ tested ifTrue ifFalse =>
    refine ⟨.conditional tested.1 ifTrue.1 ifFalse.1, fun apply env env' same inputs => ?_⟩
    simp only [Expr.marked, Expr.denoted, tested.2 apply env env' same inputs,
      ifTrue.2 apply env env' same inputs, ifFalse.2 apply env env' same inputs]
  | invoke _ _ _ function argument =>
    rw [Expr.marked]
    split
    next on =>
      rw [cache]
      refine ⟨.cached function.1 argument.1 (caching ▸ on), fun apply env env' same inputs => ?_⟩
      simp only [Expr.denoted, function.2 apply env env' same inputs,
        argument.2 apply env env' same inputs]
    next off =>
      refine ⟨.invoke function.1 argument.1 (caching ▸ Bool.eq_false_iff.2 off),
        fun apply env env' same inputs => ?_⟩
      simp only [Expr.denoted, function.2 apply env env' same inputs,
        argument.2 apply env env' same inputs]
  | cached _ _ impossible => cases impossible

end

/-! ## Reduction -/

/-- Two parts denote the same wherever the variables stand for what they should. -/
def Alike (d : CurriedDefinition) (f : Parameter) (e e' : Expr) : Prop :=
  ∀ apply, d.TypedApplication apply → ∀ env, d.Assigns f env →
    e.denoted apply env = e'.denoted apply env

theorem Alike.refl (e : Expr) : d.Alike f e e := fun _ _ _ _ => rfl

theorem Alike.trans {e e' e'' : Expr} (first : d.Alike f e e') (second : d.Alike f e' e'') :
    d.Alike f e e'' :=
  fun apply typed env assigns => (first apply typed env assigns).trans (second apply typed env assigns)

/-- A rule at the root of a part keeps it a part that awaits the same, and what it denotes. -/
theorem Part.rooted (f_type : f.type = .curried d.inputs d.codomain) (h : d.Part o f e awaited t) :
    d.Part o f e.rooted awaited t ∧ d.Alike f e.rooted e := by
  rcases Expr.rooted_cases e with same | conversion | condition | single | flat
  · rw [same]
    exact ⟨h, .refl e⟩
  · obtain ⟨op, isConversion, shape⟩ := Expr.identityConversion?_eq_some conversion
    generalize e.rooted = r at shape ⊢
    subst shape
    generalize known : r.type = type at h
    cases h with
    | @conversion _ _ s _ operand _ =>
      have same : StaticType.value s = .value t := (operand.type f_type).symm.trans known
      cases same
      refine ⟨operand, fun apply typed env assigns => ?_⟩
      -- the value has the type already, and the conversion hands it on
      rcases answer : r.denoted apply env with - | (fault | v)
      · simp [Expr.denoted, answer]
      · simp [Expr.denoted, answer]
      · have ofType : v.hasType t = true := operand.denoted_suits assigns typed answer
        cases op with
        | convert | convertChecked =>
          simp [Expr.denoted, answer, UnaryOp.apply, Value.convert, ofType]
        | _ => cases isConversion
    | unary _ other _ _ =>
      rw [isConversion] at other
      cases other
  · obtain ⟨test, a, b, v, shape, constant, chosen⟩ := Expr.constantCondition?_eq_some condition
    generalize e.rooted = r at shape chosen ⊢
    subst shape
    generalize r.type = type at h
    cases h with
    | conditional tested ifTrue ifFalse =>
      generalize ValueType.bool = truth at tested
      cases tested with
      | @constant w _ _ =>
        cases constant
        subst chosen
        cases truth : v.value.truthy with
        | true => exact ⟨ifTrue, fun _ _ _ _ => by simp [Expr.denoted, truth]⟩
        | false => exact ⟨ifFalse, fun _ _ _ _ => by simp [Expr.denoted, truth]⟩
      | _ => cases constant
  · have shape := (Expr.singleBlock?_eq_some single).1
    rw [shape] at h
    cases h
  · obtain ⟨vs, es, type, shape, -⟩ := Expr.flattened?_eq_some flat
    rw [shape] at h
    cases h

/-- A pass over a part keeps it a part that awaits the same, and what it denotes. -/
theorem Part.passed (f_type : f.type = .curried d.inputs d.codomain) (h : d.Part o f e awaited t) :
    d.Part o f e.passed awaited t ∧ d.Alike f e.passed e := by
  -- enough that the node over the passed children is a part that denotes the same
  have node : ∀ {e : Expr} {awaited : List WholeVariable} {t : ValueType},
      d.Part o f (e.mapChildren Expr.passed) awaited t → d.Alike f (e.mapChildren Expr.passed) e →
      d.Part o f e.passed awaited t ∧ d.Alike f e.passed e := by
    intro e awaited t part same
    rw [Expr.passed_eq]
    obtain ⟨after, kept⟩ := part.rooted f_type
    exact ⟨after, kept.trans same⟩
  induction h with
  | constant typed => exact node (.constant typed) (.refl _)
  | argument declared => exact node (.argument declared) (.refl _)
  | function => exact node .function (.refl _)
  | conversion _ conversion ih =>
    refine node (.conversion ih.1 conversion) fun apply typed env assigns => ?_
    simp only [Expr.mapChildren, Expr.denoted, ih.2 apply typed env assigns]
  | unary _ other whole number ih =>
    refine node (.unary ih.1 other whole number) fun apply typed env assigns => ?_
    simp only [Expr.mapChildren, Expr.denoted, ih.2 apply typed env assigns]
  | binary _ _ other admitted left right =>
    refine node (.binary left.1 right.1 other admitted) fun apply typed env assigns => ?_
    simp only [Expr.mapChildren, Expr.denoted, left.2 apply typed env assigns,
      right.2 apply typed env assigns]
  | conditional _ _ _ tested ifTrue ifFalse =>
    refine node (.conditional tested.1 ifTrue.1 ifFalse.1) fun apply typed env assigns => ?_
    simp only [Expr.mapChildren, Expr.denoted, tested.2 apply typed env assigns,
      ifTrue.2 apply typed env assigns, ifFalse.2 apply typed env assigns]
  | invoke _ _ uncached function argument =>
    refine node (.invoke function.1 argument.1 uncached) fun apply typed env assigns => ?_
    simp only [Expr.mapChildren, List.map_cons, List.map_nil, Expr.denoted,
      function.2 apply typed env assigns, argument.2 apply typed env assigns]
  | cached _ _ caching function argument =>
    refine node (.cached function.1 argument.1 caching) fun apply typed env assigns => ?_
    simp only [Expr.mapChildren, Expr.denoted, function.2 apply typed env assigns,
      argument.2 apply typed env assigns]

/-- The same for any number of passes. -/
theorem Part.iterate_passed (f_type : f.type = .curried d.inputs d.codomain) (k : Nat) :
    ∀ {e : Expr}, d.Part o f e awaited t →
      d.Part o f (Expr.passed^[k] e) awaited t ∧ d.Alike f (Expr.passed^[k] e) e := by
  induction k with
  | zero => intro e h; exact ⟨h, .refl e⟩
  | succ k ih =>
    intro e h
    obtain ⟨part, same⟩ := h.passed f_type
    obtain ⟨after, kept⟩ := ih part
    exact ⟨after, kept.trans same⟩

/-! ## Compiled bodies -/

/-- What a compilation with the variable `bound` may make of the body. -/
structure Compiles (d : CurriedDefinition) (o : CompileOptions) (bound : Parameter) (body : Expr) :
    Prop where
  free : d.Free bound
  part : d.Part o bound body [] d.codomain
  denotes : ∀ apply, d.TypedApplication apply → ∀ args, Takes d.inputs args [] →
    body.denoted apply (d.environment bound args) =
      d.body.denoted apply (d.environment d.self args)

/-- Marked and reduced, the body is what it may be. -/
theorem compiles_marked (free : d.Free bound) (bound_type : bound.type = d.self.type)
    (sequential : o.threading = false) (allowImpure : Bool) (k : Nat) :
    d.Compiles o bound
      (Expr.passed^[k] (d.body.marked (d.parts.substitution bound o allowImpure))) := by
  let r := d.parts.substitution bound o allowImpure
  have replacement : r.replacement = .parameter bound := rfl
  have caching : r.caching = o.caching := rfl
  obtain ⟨part, same⟩ := d.part.marked rfl replacement caching rfl sequential
  obtain ⟨after, kept⟩ := part.iterate_passed (bound_type.trans d.self_type) k
  refine ⟨free, after, fun apply typed args all => ?_⟩
  rw [kept apply typed _ (free.assigns all)]
  refine same apply _ _ ?_ fun x declared => environment_eq bound d.self all declared
  rw [free.environment_self, free_self.environment_self]

end CurriedDefinition

end Knot
