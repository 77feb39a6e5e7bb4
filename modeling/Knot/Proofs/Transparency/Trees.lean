import Knot.Proofs.Compilation

/-!
# Trees without cached calls

`Expr.uncached` makes every cached call a plain one and leaves all else as it is. What a substitution makes
with caching is, without its cached calls, what it makes without caching (`Expr.uncached_marked`), and so it
stays in a reduction, which applies the same rules at the same places (`Expr.reduce_uncached`).

A tree is self-contained if it calls no host function, reads no member, assigns to no variable, and has no
function for a constant: what it computes then depends on its variables only.
-/

namespace Knot

namespace Expr

/-! ## Self-contained trees -/

/-- Whether a node is none of a call of a host function, a read of a member, an assignment, and a constant
that is a function. -/
def isSelfContained : Expr → Bool
  | constant v _ => !v.value.isCallable
  | binary op _ _ _ => op ≠ .assign
  | member _ _ _ | hostCall _ _ _ => false
  | _ => true

/-- Whether all nodes of a tree are such. -/
def SelfContained (e : Expr) : Prop := ∀ x ∈ e.nodes, x.isSelfContained = true

/-! ## Without cached calls -/

mutual

/-- A tree in which every cached call is a plain one. -/
def uncached : Expr → Expr
  | constant v t => constant v t
  | parameter p => parameter p
  | unary op a t => unary op a.uncached t
  | binary op a b t => binary op a.uncached b.uncached t
  | conditional a b c t => conditional a.uncached b.uncached c.uncached t
  | invoke f args t => invoke f.uncached (uncachedAll args) t
  | cached f a t _ => invoke f.uncached [a.uncached] t
  | member a n t => member a.uncached n t
  | hostCall f args t => hostCall f (uncachedAll args) t
  | block vs es t => block vs (uncachedAll es) t
  | label l d t => label l (uncachedOption d) t
  | goto k l v t => goto k l (uncachedOption v) t
  | loop a b c t => loop a.uncached b c t
  | lambda ps a t => lambda (uncachedAll ps) a.uncached t
  | parallel op a b t p => parallel op a.uncached b.uncached t p
  | strange v t => strange v t
  | bare t => bare t

def uncachedAll : List Expr → List Expr
  | [] => []
  | e :: es => e.uncached :: uncachedAll es

def uncachedOption : Option Expr → Option Expr
  | none => none
  | some e => some e.uncached

end

attribute [simp] uncached

@[simp] theorem uncachedAll_eq (es : List Expr) : uncachedAll es = es.map uncached := by
  induction es with
  | nil => rfl
  | cons e es ih => rw [uncachedAll, ih, List.map_cons]

@[simp] theorem uncachedOption_eq (d : Option Expr) : uncachedOption d = d.map uncached := by
  cases d <;> rfl

section

variable (e : Expr)

@[simp] theorem type_uncached : e.uncached.type = e.type := by
  cases e <;> rfl

@[simp] theorem isLabel_uncached : e.uncached.isLabel = e.isLabel := by
  cases e <;> rfl

@[simp] theorem parameter?_uncached : e.uncached.parameter? = e.parameter? := by
  cases e <;> rfl

@[simp] theorem constant?_uncached : e.uncached.constant? = e.constant? := by
  cases e <;> rfl

@[simp] theorem labelUid?_uncached : e.uncached.labelUid? = e.labelUid? := by
  cases e <;> rfl

/-- No cached calls are left. -/
theorem uncached_uncached : e.uncached.uncached = e.uncached := by
  induction e using of_parts with
  | node e ih =>
    cases e with
    | invoke f args t =>
      obtain ⟨callee, each⟩ := List.forall_mem_cons.1 ih
      simpa [callee] using each
    | hostCall f args t =>
      have each : ∀ c ∈ args, c.uncached.uncached = c.uncached := ih
      simpa using each
    | block vs es t =>
      have each : ∀ c ∈ es, c.uncached.uncached = c.uncached := ih
      simpa using each
    | lambda ps a t =>
      obtain ⟨each, last⟩ := List.forall_mem_append.1 ih
      simpa [last a List.mem_cons_self] using each
    | label l d t =>
      cases d with
      | none => rfl
      | some d => simp [ih d List.mem_cons_self]
    | goto k l v t =>
      cases v with
      | none => rfl
      | some v => simp [ih v List.mem_cons_self]
    | _ => simp_all [parts, children]

/-! ## Marks -/

/-- A substitution and the same one without caching. -/
structure Uncaching (r r' : Substitution) : Prop where
  placeholder : r'.placeholder = r.placeholder
  replacement : r'.replacement = r.replacement
  caching : r'.caching = false
  threading : r'.threading = r.threading
  pool : r'.pool = r.pool

/-- Whether the substitution caches calls shows in the cached calls only. -/
theorem uncached_marked {r r' : Substitution} (h : Uncaching r r') {q : Parameter}
    (replacement : r.replacement = .parameter q) (ordinary : e.Ordinary) :
    (e.marked r).uncached = e.marked r' := by
  obtain ⟨placeholder', replacement', caching', threading', pool'⟩ := h
  induction e using of_parts with
  | node e ih =>
    obtain ⟨here, parts⟩ := ordinary_iff.1 ordinary
    replace ih := fun c part => ih c part (parts c part)
    cases e with
    | constant => rfl
    | parameter p =>
      simp only [marked, placeholder', replacement', replacement]
      split <;> rfl
    | binary op a b t =>
      have left := ih a List.mem_cons_self
      have right := ih b (List.mem_cons_of_mem _ List.mem_cons_self)
      simp only [marked, threading', pool']
      split <;> simp [left, right]
    | invoke f args t =>
      obtain ⟨callee, each⟩ := List.forall_mem_cons.1 ih
      by_cases single : args.length = 1
      · obtain ⟨a, rfl⟩ := List.length_eq_one_iff.1 single
        have argument := each a List.mem_cons_self
        -- here the mark of the one and the call of the other come together
        simp only [marked, caching', Bool.false_eq_true, if_false]
        split <;> simp [callee, argument]
      · rw [marked_invoke_other f single, marked_invoke_other f single]
        simpa [callee] using each
    | hostCall f args t =>
      have each : ∀ c ∈ args, (c.marked r).uncached = c.marked r' := ih
      simpa [markedAll_eq] using each
    | block vs es t =>
      have each : ∀ c ∈ es, (c.marked r).uncached = c.marked r' := ih
      simpa [markedAll_eq] using each
    | lambda ps a t =>
      obtain ⟨each, last⟩ := List.forall_mem_append.1 ih
      simpa [markedAll_eq, last a List.mem_cons_self] using each
    | label l d t =>
      cases d with
      | none => rfl
      | some d => simp [markedOption_eq, ih d List.mem_cons_self]
    | goto k l v t =>
      cases v with
      | none => rfl
      | some v => simp [markedOption_eq, ih v List.mem_cons_self]
    | cached | parallel | strange | bare => cases here
    | conditional a b c t =>
      obtain ⟨test, others⟩ := List.forall_mem_cons.1 ih
      obtain ⟨yes, no⟩ := List.forall_mem_cons.1 others
      simp [test, yes, no c List.mem_cons_self]
    | unary | member | loop => simp [ih _ List.mem_cons_self]

/-! ## Reductions -/

theorem spliced?_uncached (outer : StaticType) (last : Bool) :
    spliced? outer last e.uncached = (spliced? outer last e).map fun es => es.map uncached := by
  have same : isLabel ∘ uncached = isLabel := funext isLabel_uncached
  cases e with
  | block vs es t =>
    cases vs with
    | nil =>
      simp only [uncached, uncachedAll_eq, spliced?, List.isEmpty_map, List.any_map, same]
      split <;> rfl
    | cons => rfl
  | _ => rfl

end

theorem splice_uncached (outer : StaticType) (es : List Expr) :
    splice outer (es.map uncached) = (splice outer es).map uncached := by
  induction es with
  | nil => rfl
  | cons e es ih =>
    rw [List.map_cons, splice, splice, ih, List.isEmpty_map, spliced?_uncached, List.map_append]
    cases spliced? outer es.isEmpty e <;> rfl

theorem canSplice_uncached (outer : StaticType) (es : List Expr) :
    canSplice outer (es.map uncached) = canSplice outer es := by
  induction es with
  | nil => rfl
  | cons e es ih =>
    rw [List.map_cons, canSplice, canSplice, ih, List.isEmpty_map, spliced?_uncached, Option.isSome_map]

section

variable (e : Expr)

/-- The rules do not tell a cached call from a plain one. -/
theorem ruleStep?_uncached :
    e.uncached.ruleStep? = (e.ruleStep?).map fun step => (step.1, step.2.uncached) := by
  have conversion : e.uncached.identityConversion? = (e.identityConversion?).map uncached := by
    cases e with
    | unary op a t =>
      simp only [uncached, identityConversion?, type_uncached]
      split <;> rfl
    | _ => rfl
  have condition : e.uncached.constantCondition? = (e.constantCondition?).map uncached := by
    cases e with
    | conditional a b c t =>
      simp only [uncached, constantCondition?, constant?_uncached]
      cases a.constant? with
      | none => rfl
      | some v =>
        by_cases chosen : v.value.truthy = true
        · by_cases same : b.type = t <;> simp [chosen, same]
        · by_cases same : c.type = t <;> simp [chosen, same]
    | _ => rfl
  have single : e.uncached.singleBlock? = (e.singleBlock?).map uncached := by
    cases e with
    | block vs es t =>
      match vs, es with
      | [], [a] =>
        simp only [uncached, uncachedAll_eq, List.map_cons, List.map_nil, singleBlock?,
          isLabel_uncached, type_uncached]
        split <;> rfl
      | [], [] | [], _ :: _ :: _ | _ :: _, _ => simp [singleBlock?]
    | _ => rfl
  have flat : e.uncached.flattened? = (e.flattened?).map uncached := by
    cases e with
    | block vs es t =>
      simp only [uncached, uncachedAll_eq, flattened?, canSplice_uncached, splice_uncached]
      split <;> simp
    | _ => rfl
  -- the first rule that applies is the same, since each applies to both or to neither
  unfold ruleStep? reductionRules
  simp only [List.findSome?_cons, List.findSome?_nil, conversion, condition, single, flat]
  cases e.identityConversion? with
  | some => rfl
  | none =>
    cases e.constantCondition? with
    | some => rfl
    | none =>
      cases e.singleBlock? with
      | some => rfl
      | none => cases e.flattened? <;> rfl

theorem reduceRoot_uncached (t : Tally ReduceCount) :
    e.uncached.reduceRoot t = ((e.reduceRoot t).1.uncached, (e.reduceRoot t).2) := by
  unfold reduceRoot
  rw [ruleStep?_uncached]
  cases e.ruleStep? <;> rfl

end

mutual

/-- A pass does the same with and without cached calls, and counts the same. -/
theorem reducePass_uncached : ∀ (e : Expr) (t : Tally ReduceCount),
    reducePass e.uncached t = ((reducePass e t).1.uncached, (reducePass e t).2)
  | constant v ty, t | parameter p, t | strange v ty, t | bare ty, t => rfl
  | unary op a ty, t => by
    simp only [uncached, reducePass, reducePass_uncached a, ← reduceRoot_uncached]
  | binary op a b ty, t => by
    simp only [uncached, reducePass, reducePass_uncached a, reducePass_uncached b, ← reduceRoot_uncached]
  | conditional a b c ty, t => by
    simp only [uncached, reducePass, reducePass_uncached a, reducePass_uncached b,
      reducePass_uncached c, ← reduceRoot_uncached]
  | invoke f args ty, t => by
    simp only [uncached, uncachedAll_eq, reducePass, reducePass_uncached f, reducePasses_uncached args,
      ← reduceRoot_uncached]
  | member a n ty, t => by
    simp only [uncached, reducePass, reducePass_uncached a, ← reduceRoot_uncached]
  | hostCall f args ty, t => by
    simp only [uncached, uncachedAll_eq, reducePass, reducePasses_uncached args, ← reduceRoot_uncached]
  | block vs es ty, t => by
    simp only [uncached, uncachedAll_eq, reducePass, reducePasses_uncached es, ← reduceRoot_uncached]
  | label l d ty, t => by
    simp only [uncached, uncachedOption_eq, reducePass, reducePassOption_uncached d,
      ← reduceRoot_uncached]
  | goto k l v ty, t => by
    simp only [uncached, uncachedOption_eq, reducePass, reducePassOption_uncached v,
      ← reduceRoot_uncached]
  | loop a b c ty, t => by
    simp only [uncached, reducePass, reducePass_uncached a, ← reduceRoot_uncached]
  | lambda ps a ty, t => by
    simp only [uncached, reducePass, reducePass_uncached a, ← reduceRoot_uncached]
  | cached f a ty c, t => by
    simp only [uncached, reducePass, reducePasses, reducePass_uncached f, reducePass_uncached a,
      ← reduceRoot_uncached]
  | parallel op a b ty p, t => by
    simp only [uncached, reducePass, reducePass_uncached a, reducePass_uncached b, ← reduceRoot_uncached]

/-- The same for several trees. -/
theorem reducePasses_uncached : ∀ (es : List Expr) (t : Tally ReduceCount),
    reducePasses (es.map uncached) t = ((reducePasses es t).1.map uncached, (reducePasses es t).2)
  | [], t => rfl
  | e :: es, t => by
    simp only [List.map_cons, reducePasses, reducePass_uncached e, reducePasses_uncached es]

/-- The same for a tree that may be absent. -/
theorem reducePassOption_uncached : ∀ (d : Option Expr) (t : Tally ReduceCount),
    reducePassOption (d.map uncached) t =
      ((reducePassOption d t).1.map uncached, (reducePassOption d t).2)
  | none, t => rfl
  | some e, t => by
    simp only [Option.map_some, reducePassOption, reducePass_uncached e]

end

/-- A reduction does the same with and without cached calls. -/
theorem reduceFrom_uncached (n : Nat) : ∀ (e : Expr) (t : Tally ReduceCount),
    (reduceFrom n e.uncached t).result = (reduceFrom n e t).result.uncached := by
  induction n with
  | zero => exact fun e t => rfl
  | succ n ih =>
    intro e t
    unfold reduceFrom
    simp only [reducePass_uncached]
    split
    · rfl
    · exact ih _ _

theorem reduce_uncached (e : Expr) (maxPasses : Int) :
    (e.uncached.reduce maxPasses).result = (e.reduce maxPasses).result.uncached :=
  reduceFrom_uncached _ e .empty

end Expr

end Knot
