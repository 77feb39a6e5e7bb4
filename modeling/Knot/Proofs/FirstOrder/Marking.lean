import Knot.Proofs.FirstOrder.Meaning
import Knot.Proofs.Marks

/-!
# What a compilation makes of a body

A compilation puts a fresh variable in the place of the defined function, marks the calls and the
splits, and reduces the result. The body stays a body of the same type (`Kernel`), and its meaning
stays what it is: through the substitution (`Kernel.marked`) and through any number of passes
(`Kernel.iterate_passed`).
-/

namespace Knot

/-! ## Substitution -/

/-- Whether no connective of a body has two calls as its operands. -/
def Expr.connectsNoCalls : Expr → Bool
  | unary _ a _ => a.connectsNoCalls
  | binary op a b _ =>
    !(op.isShortCircuit && a.isInvoke && b.isInvoke) && a.connectsNoCalls && b.connectsNoCalls
  | conditional a b c _ => a.connectsNoCalls && b.connectsNoCalls && c.connectsNoCalls
  | invoke _ [a] _ => a.connectsNoCalls
  | _ => true

/-- Two bodies answer alike on arguments of the domain, when calls answer by values of the codomain. -/
def SameMeaning (domain codomain : ValueType) (e e' : Expr) : Prop :=
  ∀ call, TypedCalls domain codomain call → ∀ a : Value, a.hasType domain = true →
    e.meaning call a = e'.meaning call a

theorem SameMeaning.trans {domain codomain : ValueType} {e e' e'' : Expr}
    (first : SameMeaning domain codomain e e') (second : SameMeaning domain codomain e' e'') :
    SameMeaning domain codomain e e'' :=
  fun call typed a fits => (first call typed a fits).trans (second call typed a fits)

namespace Kernel

variable {self bound x : Parameter} {domain codomain : ValueType} {e : Expr} {t : ValueType}

/-- A substitution that puts the variable of a compilation in the place of the function makes a
marked body of a body, with the same meaning. -/
theorem marked {o : CompileOptions} {calm : Prop} (h : Kernel .plain True self x domain codomain e t)
    {r : Substitution} (placeholder : r.placeholder = .parameter self)
    (replacement : r.replacement = .parameter bound) (caching : r.caching = o.caching)
    (threading : r.threading = o.threading) (cache : r.cache = o.cache) (pool : r.pool = o.pool)
    (apart : x ≠ self) (quiet : calm → e.connectsNoCalls = true) :
    Kernel o calm bound x domain codomain (e.marked r) t ∧
      (∀ call a, (e.marked r).meaning call a = e.meaning call a) ∧
      (e.isInvoke = true → (e.marked r).isCall = true) := by
  have function : (Expr.parameter self).marked r = .parameter bound := by
    have known : r.placeholder.parameter? = some self := by
      rw [placeholder]
      rfl
    rw [Expr.marked, if_pos known, replacement]
  induction h with
  | constant ofType => exact ⟨.constant ofType, fun _ _ => rfl, by simp [Expr.isInvoke]⟩
  | argument =>
    have other : ¬ r.placeholder.parameter? = some x := by
      rw [placeholder]
      exact fun same => apart (Option.some.inj same).symm
    rw [Expr.marked, if_neg other]
    exact ⟨.argument, fun _ _ => rfl, by simp [Expr.isInvoke]⟩
  | conversion _ conversion ih =>
    obtain ⟨body, same, -⟩ := ih quiet
    exact ⟨.conversion body conversion, fun call v => by simp only [Expr.marked, Expr.meaning, same],
      by simp [Expr.isInvoke]⟩
  | unary _ other whole number ih =>
    obtain ⟨body, same, -⟩ := ih quiet
    exact ⟨.unary body other whole number,
      fun call v => by simp only [Expr.marked, Expr.meaning, same], by simp [Expr.isInvoke]⟩
  | @binary op a b s u v _ _ other admitted left right =>
    have parts : calm → ((op.isShortCircuit = false ∨ a.isInvoke = false) ∨ b.isInvoke = false) ∧
        a.connectsNoCalls = true ∧ b.connectsNoCalls = true := by
      intro h
      simpa [Expr.connectsNoCalls, and_assoc] using quiet h
    obtain ⟨ofLeft, sameLeft, leftCall⟩ := left fun h => (parts h).2.1
    obtain ⟨ofRight, sameRight, rightCall⟩ := right fun h => (parts h).2.2
    rw [Expr.marked]
    split
    next candidate =>
      rw [Bool.and_eq_true] at candidate
      obtain ⟨on, split⟩ := candidate
      obtain ⟨_, _, _, _, shape, splittable, firstCall, secondCall⟩ := Expr.isSplit_iff.1 split
      cases shape
      -- both operands are calls, and so are their marks
      have first := Expr.isInvoke_of_isValueCall firstCall
      have second := Expr.isInvoke_of_isValueCall secondCall
      rw [pool]
      refine ⟨.parallel ofLeft ofRight splittable admitted (threading ▸ on) (leftCall first)
        (rightCall second) fun h => ?_, fun call w => ?_, by simp [Expr.isInvoke]⟩
      · simpa [first, second] using (parts h).1
      · simp only [Expr.meaning, sameLeft, sameRight]
    next =>
      exact ⟨.binary ofLeft ofRight other admitted,
        fun call w => by simp only [Expr.meaning, sameLeft, sameRight], by simp [Expr.isInvoke]⟩
  | @conditional test a b u _ _ _ tested ifTrue ifFalse =>
    have parts : calm → test.connectsNoCalls = true ∧ a.connectsNoCalls = true ∧
        b.connectsNoCalls = true := by
      intro h
      simpa [Expr.connectsNoCalls, and_assoc] using quiet h
    obtain ⟨ofTest, sameTest, -⟩ := tested fun h => (parts h).1
    obtain ⟨ofLeft, sameLeft, -⟩ := ifTrue fun h => (parts h).2.1
    obtain ⟨ofRight, sameRight, -⟩ := ifFalse fun h => (parts h).2.2
    exact ⟨.conditional ofTest ofLeft ofRight,
      fun call v => by simp only [Expr.marked, Expr.meaning, sameTest, sameLeft, sameRight],
      by simp [Expr.isInvoke]⟩
  | @invoke a _ _ ih =>
    obtain ⟨body, same, -⟩ := ih quiet
    rw [Expr.marked, function, cache]
    split
    next on =>
      exact ⟨.cached body (caching ▸ on), fun call v => by simp [Expr.meaning, same], fun _ => rfl⟩
    next off =>
      exact ⟨.invoke body (caching ▸ Bool.eq_false_iff.2 off), fun call v => by simp [Expr.meaning, same],
        fun _ => rfl⟩
  -- no tree is marked before
  | cached _ impossible => cases impossible
  | parallel _ _ _ _ impossible => cases impossible

/-- A rule at the root of a body keeps it a body of the type, and its meaning on arguments of the type
of the domain. -/
theorem rooted {o : CompileOptions} {calm : Prop} (argument_type : x.type = .value domain)
    (h : Kernel o calm self x domain codomain e t) :
    Kernel o calm self x domain codomain e.rooted t ∧
      SameMeaning domain codomain e.rooted e := by
  rcases Expr.rooted_cases e with same | conversion | condition | single | flat
  · rw [same]
    exact ⟨h, fun _ _ _ _ => rfl⟩
  · obtain ⟨op, isConversion, shape⟩ := Expr.identityConversion?_eq_some conversion
    generalize e.rooted = r at shape ⊢
    subst shape
    generalize known : r.type = type at h
    cases h with
    | @conversion _ _ s _ operand _ =>
      have same : StaticType.value s = .value t := (operand.type argument_type).symm.trans known
      cases same
      refine ⟨operand, fun call typed a fits => ?_⟩
      -- the value has the type already, and the conversion hands it on
      rcases answer : r.meaning call a with - | (fault | v)
      · simp [Expr.meaning, answer]
      · simp [Expr.meaning, answer]
      · have ofType := operand.meaning_typed typed fits answer
        cases op with
        | convert | convertChecked =>
          simp [Expr.meaning, answer, UnaryOp.apply, Value.convert, ofType]
        | _ => cases isConversion
    | unary _ other _ _ =>
      rw [isConversion] at other
      cases other
  · obtain ⟨test, a, b, v, shape, constant, chosen⟩ := Expr.constantCondition?_eq_some condition
    generalize e.rooted = r at shape chosen ⊢
    subst shape
    generalize r.type = type at h
    cases h with
    | conditional tested ifTrue ifFalse =>
      cases tested with
      | @constant w _ _ =>
        cases constant
        subst chosen
        cases truth : v.value.truthy with
        | true => exact ⟨ifTrue, fun _ _ _ _ => by simp [Expr.meaning, truth]⟩
        | false => exact ⟨ifFalse, fun _ _ _ _ => by simp [Expr.meaning, truth]⟩
      | _ => cases constant
  · have shape := (Expr.singleBlock?_eq_some single).1
    rw [shape] at h
    cases h
  · obtain ⟨vs, es, type, shape, -⟩ := Expr.flattened?_eq_some flat
    rw [shape] at h
    cases h

/-- A call stays a call when a rule is tried at its root. -/
theorem rooted_of_isCall {e : Expr} (h : e.isCall = true) : e.rooted = e := by
  cases e <;> first | rfl | cases h

/-- A pass over a body keeps it a body of the type, with its meaning, and its calls calls. -/
theorem passed {o : CompileOptions} {calm : Prop} (argument_type : x.type = .value domain)
    (h : Kernel o calm self x domain codomain e t) :
    Kernel o calm self x domain codomain e.passed t ∧
      SameMeaning domain codomain e.passed e ∧
      (e.isCall = true → e.passed.isCall = true) := by
  -- enough that the node over the passed children is a body with the same meaning
  have node : ∀ {e : Expr} {t : ValueType},
      Kernel o calm self x domain codomain (e.mapChildren Expr.passed) t →
      SameMeaning domain codomain (e.mapChildren Expr.passed) e →
      Kernel o calm self x domain codomain e.passed t ∧
      SameMeaning domain codomain e.passed e ∧
      (e.isCall = true → e.passed.isCall = true) := by
    intro e t body same
    rw [Expr.passed_eq]
    obtain ⟨after, kept⟩ := body.rooted argument_type
    refine ⟨after, kept.trans same, fun call => ?_⟩
    have still : (e.mapChildren Expr.passed).isCall = true := by
      cases e <;> first | rfl | cases call
    rw [rooted_of_isCall still]
    exact still
  induction h with
  | constant ofType => exact node (.constant ofType) fun _ _ _ _ => rfl
  | argument => exact node .argument fun _ _ _ _ => rfl
  | conversion _ conversion ih =>
    refine node (.conversion ih.1 conversion) fun call typed a fits => ?_
    simp only [Expr.mapChildren, Expr.meaning, ih.2.1 call typed a fits]
  | unary _ other whole number ih =>
    refine node (.unary ih.1 other whole number) fun call typed a fits => ?_
    simp only [Expr.mapChildren, Expr.meaning, ih.2.1 call typed a fits]
  | binary _ _ other admitted left right =>
    refine node (.binary left.1 right.1 other admitted) fun call typed a fits => ?_
    simp only [Expr.mapChildren, Expr.meaning, left.2.1 call typed a fits, right.2.1 call typed a fits]
  | conditional _ _ _ tested ifTrue ifFalse =>
    refine node (.conditional tested.1 ifTrue.1 ifFalse.1) fun call typed a fits => ?_
    simp only [Expr.mapChildren, Expr.meaning, tested.2.1 call typed a fits, ifTrue.2.1 call typed a fits,
      ifFalse.2.1 call typed a fits]
  | invoke _ uncached ih =>
    refine node (.invoke ih.1 uncached) fun call typed a fits => ?_
    simp only [Expr.mapChildren, List.map_cons, List.map_nil, Expr.meaning, ih.2.1 call typed a fits]
  | cached _ caching ih =>
    refine node (.cached ih.1 caching) fun call typed a fits => ?_
    simp only [Expr.mapChildren, Expr.meaning, ih.2.1 call typed a fits]
  | parallel _ _ splittable admitted threading leftCall rightCall quiet left right =>
    refine node (.parallel left.1 right.1 splittable admitted threading (left.2.2 leftCall)
      (right.2.2 rightCall) quiet) fun call typed a fits => ?_
    simp only [Expr.mapChildren, Expr.meaning, left.2.1 call typed a fits, right.2.1 call typed a fits]

/-- The same for any number of passes. -/
theorem iterate_passed {o : CompileOptions} {calm : Prop} (argument_type : x.type = .value domain)
    (k : Nat) : ∀ {e : Expr}, Kernel o calm self x domain codomain e t →
      Kernel o calm self x domain codomain (Expr.passed^[k] e) t ∧
      SameMeaning domain codomain (Expr.passed^[k] e) e := by
  induction k with
  | zero => intro e h; exact ⟨h, fun _ _ _ _ => rfl⟩
  | succ k ih =>
    intro e h
    obtain ⟨body, same, -⟩ := h.passed argument_type
    obtain ⟨after, kept⟩ := ih body
    exact ⟨after, kept.trans same⟩

end Kernel

end Knot
