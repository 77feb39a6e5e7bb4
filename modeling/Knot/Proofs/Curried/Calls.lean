import Knot.Proofs.Curried.Store
import Knot.Proofs.FirstOrder.Bodies

/-!
# Calls of curried functions

The evaluation of a part of a body follows what the part denotes, by induction on the part, if the
applications in it do (`Store.runs_part`). A call of a closure that is an application follows
the answer of the application, and with fuel `n` it answers at least what calls of depth `n` answer, by
induction on the fuel (`Store.applies_call`): an application that awaits more than one argument adds another
closure to the store, and one that awaits the last one evaluates the body.
-/

namespace Knot

/-- What an application answers on an argument when calls nest less than `n` deep. -/
def Application.approx {o : CompileOptions} (p : Application o) (n : Nat) (v : Value) : Partial :=
  p.function.definition.approx n (.list p.args) v

theorem Application.approx_below {o : CompileOptions} (p : Application o) (n : Nat) (v : Value) :
    (p.approx n v).Below (p.answer v) := CurriedDefinition.approx_below_limit n _ v

/-- The arguments of an application say what it awaits. -/
theorem Application.awaited {o : CompileOptions} (p : Application o) {x : WholeVariable}
    {rest : List WholeVariable} (takes : Takes p.function.definition.inputs p.args (x :: rest)) :
    p.next = x ∧ p.rest = rest := by
  have same : p.next :: p.rest = x :: rest := p.takes.rest_eq.trans takes.rest_eq.symm
  exact List.cons.inj same

namespace Store

variable {o : CompileOptions} {σ : Store o} {c : CompiledCurried o} {m : Machine}

/-- Calls of applications that follow what these answer, and answer at least to the depth `n`. -/
def Applies (o : CompileOptions) (n : Nat) (call : Boxed → Boxed → Run Boxed) : Prop :=
  ∀ (σ : Store o) (id : Nat) (p : Application o) (function argument : Boxed) (m : Machine),
    σ id = some p → function.value = .closure id →
    argument.value.hasType p.next.domain = true → σ.Holds m →
    σ.Runs (Follows (within p.function) (p.answer argument.value) (p.approx n argument.value))
      (call function argument) m

/-- Cached calls do so if the calls themselves do. -/
theorem Applies.cached {n : Nat} {call : Boxed → Boxed → Run Boxed} (h : Applies o n call)
    (caching : o.caching = true) :
    Applies o n fun function argument =>
      Run.lookupOrCompute (o.context.cacheFor o.cache) function argument (call function argument) := by
  intro σ id p function argument m held closure typed holds
  obtain ⟨cache, named, -⟩ := holds.cache caching
  have chosen : o.context.cacheFor o.cache = cache := by
    rw [named]
    rfl
  show σ.Runs _ (Run.lookupOrCompute (o.context.cacheFor o.cache) function argument _) m
  rw [chosen]
  exact runs_lookupOrCompute holds held named caching closure typed (p.approx_below n argument.value)
    fun τ m' more holds' _ => h τ id p function argument m' (more _ _ held) closure typed holds'

/-- An application of what one run denotes to what a second one denotes. -/
theorem runs_application {n : Nat} {call : Boxed → Boxed → Run Boxed} (applies : Applies o n call)
    {x y : Run Boxed} {next : WholeVariable} {rest : List WholeVariable}
    {function function' argument argument' : Partial} (below : function'.Below function)
    (below' : argument'.Below argument)
    (awaits : ∀ d, function = some (.ok d) →
      ∃ args, d = .list args ∧ Takes c.definition.inputs args (next :: rest))
    (typed : ∀ d, argument = some (.ok d) → d.hasType next.domain = true)
    (first : σ.Runs (Follows (within c) function function') x m)
    (second : ∀ τ m', σ.Extends τ → τ.Holds m' → Later m m' →
      τ.Runs (Follows (within c) argument argument') y m') :
    σ.Runs (Follows (within c)
        (function.andThen fun g => argument.andThen (c.definition.limit g))
        (function'.andThen fun g => argument'.andThen (c.definition.approx n g)))
      (do
        let f ← x
        let v ← y
        call f v) m := by
  refine first.andThen below fun f g τ m' known denotes more holds later => ?_
  obtain ⟨args, rfl, takes⟩ := awaits g known
  obtain ⟨id, p, closure, held, rfl, rfl⟩ := denotes.inversion
  obtain ⟨rfl, -⟩ := p.awaited takes
  refine (second τ m' more holds later.toLater).andThen below'
    fun v d υ m'' known' denotes' more' holds' _ => ?_
  have fits := typed d known'
  obtain rfl := denotes'.eq_of_hasType fits
  exact applies υ id p f v m'' (more' _ _ held) closure fits holds'

/-- An interpreter that calls applications as they answer. -/
structure Interprets (o : CompileOptions) (n : Nat) (i : Interpreter) : Prop where
  unary : i.unary = Run.applyUnary
  call : Applies o n fun function argument => i.call function [argument]

/-- What a variable stands for is found in a frame that shows it. -/
theorem runs_lookup [Host] {env : Nat → Option Value} {frame : Nat} (h : σ.Holds m)
    (shows : σ.Shows c env frame m) {p : Parameter} {v : Value} (known : env p.uid = some v)
    (i : Interpreter) (fuel : Nat) (context : Context) :
    σ.Runs (Follows (within c) (.value v) (.value v))
      ((Expr.parameter p).eval i fuel context frame) m := by
  obtain ⟨box, found, denotes⟩ := shows.shown p.uid v known
  have same : (Expr.parameter p).eval i fuel context frame m = (.value box, m) := Run.lookup_of_some found
  exact .of_eq h same ⟨v, rfl, denotes⟩

/-- A unary operator on a value, with a result of a value type. -/
theorem runs_applyUnary (h : σ.Holds m) (op : UnaryOp) (source : StaticType) (t : ValueType) (v : Boxed)
    (typed : ∀ w, op.apply v.value (.value t) = .ok w → w.hasType t = true) :
    σ.Runs (Follows (within c) (some (op.apply v.value (.value t))) (some (op.apply v.value (.value t))))
      (Run.applyUnary op source (.value t) v) m := by
  unfold Run.applyUnary
  split
  next keeps =>
    rw [Bool.and_eq_true] at keeps
    have ofType : v.value.hasType t = true := keeps.2
    have same : op.apply v.value (.value t) = .ok v.value := by
      cases op with
      | convert | convertChecked => simp [UnaryOp.apply, Value.convert, ofType]
      | _ => cases keeps.1
    rw [same]
    exact runs_pure h (.of_hasType ofType)
  next => exact runs_boxResult h typed

/-- A truth value in a new box. -/
theorem runs_truth (h : σ.Holds m) (b : Bool) :
    σ.Runs (Follows (within c) (.value (.scalar (.bool b))) (.value (.scalar (.bool b))))
      (Run.truth b) m := by
  have typed : ∀ v, (.ok (.scalar (.bool b)) : Except Fault Value) = .ok v →
      v.hasType .bool = true := by
    intro v same
    cases same
    rfl
  exact runs_boxResult h typed

/-! ## Parts -/

section

variable {n : Nat} {i : Interpreter} {fuel : Nat} {env : Nat → Option Value}

section

variable [Host] {frame : Nat} {e a b : Expr} {s t r : ValueType} {limit limit' approx approx' : Partial}

/-- A unary operator on an operand that follows what it denotes. -/
theorem runs_unary (h : Interprets o n i) (op : UnaryOp) (below : approx.Below limit)
    (suits : ∀ {v}, limit = some (.ok v) → v.hasType s = true)
    (result : ∀ {v}, (limit.andThen fun v => some (op.apply v (.value t))) = some (.ok v) →
      v.hasType t = true)
    (operand : σ.Runs (Follows (within c) limit approx) (e.eval i fuel o.context frame) m) :
    σ.Runs (Follows (within c) (limit.andThen fun v => some (op.apply v (.value t)))
        (approx.andThen fun v => some (op.apply v (.value t))))
      ((Expr.unary op e (.value t)).eval i fuel o.context frame) m := by
  rw [Expr.eval, h.unary]
  refine operand.andThen below fun v d τ m' known denotes _ holds' _ => ?_
  obtain rfl := denotes.eq_of_hasType (suits known)
  refine runs_applyUnary holds' op _ t v fun w applied => result ?_
  rw [known, Partial.andThen_ok, applied]

/-- An operator that is no connective, on operands that follow what they denote. -/
theorem runs_binary_of_strict {op : BinaryOp} (other : op ≠ .assign) (plain : op.isShortCircuit = false)
    (below : approx.Below limit) (below' : approx'.Below limit')
    (suits : ∀ {v}, limit = some (.ok v) → v.hasType s = true)
    (suits' : ∀ {v}, limit' = some (.ok v) → v.hasType t = true)
    (result : ∀ {v}, op.join limit limit' = some (.ok v) → v.hasType r = true)
    (left : σ.Runs (Follows (within c) limit approx) (a.eval i fuel o.context frame) m)
    (right : ∀ τ m', σ.Extends τ → τ.Holds m' → Later m m' →
      τ.Runs (Follows (within c) limit' approx') (b.eval i fuel o.context frame) m') :
    σ.Runs (Follows (within c) (op.join limit limit') (op.join approx approx'))
      ((Expr.binary op a b (.value r)).eval i fuel o.context frame) m := by
  rw [Expr.eval_binary_of_strict _ _ _ _ other plain, BinaryOp.join_of_strict plain,
    BinaryOp.join_of_strict plain]
  refine left.andThen below fun v d τ m' known denotes more holds' later => ?_
  refine (right τ m' more holds' later.toLater).andThen below'
    fun u d' υ m'' known' denotes' _ holds'' _ => ?_
  obtain rfl := denotes.eq_of_hasType (suits known)
  obtain rfl := denotes'.eq_of_hasType (suits' known')
  refine runs_boxResult holds'' fun w applied => result ?_
  rw [BinaryOp.join_of_strict plain, known, known', Partial.andThen_ok, Partial.andThen_ok, applied]

/-- A connective on operands that follow what they denote. -/
theorem runs_binary_of_shortCircuit {op : BinaryOp} {z : StaticType} (connective : op.isShortCircuit = true)
    (below : approx.Below limit) (below' : approx'.Below limit')
    (suits : ∀ {v}, limit = some (.ok v) → v.hasType s = true)
    (suits' : ∀ {v}, limit' = some (.ok v) → v.hasType t = true)
    (left : σ.Runs (Follows (within c) limit approx) (a.eval i fuel o.context frame) m)
    (right : ∀ τ m', σ.Extends τ → τ.Holds m' → Later m m' →
      τ.Runs (Follows (within c) limit' approx') (b.eval i fuel o.context frame) m') :
    σ.Runs (Follows (within c) (op.join limit limit') (op.join approx approx'))
      ((Expr.binary op a b z).eval i fuel o.context frame) m := by
  rw [Expr.eval_binary_of_shortCircuit connective]
  refine left.andThen below fun v d τ m' known denotes more holds' later => ?_
  obtain rfl := denotes.eq_of_hasType (suits known)
  cases decided : op.decided? v.value with
  | some decision => exact runs_truth holds' decision
  | none =>
    refine (right τ m' more holds' later.toLater).andThen below'
      fun u d' υ m'' known' denotes' _ holds'' _ => ?_
    obtain rfl := denotes'.eq_of_hasType (suits' known')
    rw [BinaryOp.apply_of_undecided connective (suits known) decided]
    exact runs_truth holds'' u.value.truthy

end

/-- The evaluation of a part follows what the part denotes, in every frame that shows what the variables
stand for. -/
theorem runs_part [Host] (h : Interprets o n i) {frame : Nat} (assigns : c.definition.Assigns c.bound env)
    {e : Expr} {awaited : List WholeVariable} {t : ValueType}
    (part : c.definition.Part o c.bound e awaited t) :
    ∀ {σ : Store o} {m : Machine}, σ.Holds m → σ.Shows c env frame m →
      σ.Runs (Follows (within c) (e.denoted c.definition.limit env)
        (e.denoted (c.definition.approx n) env)) (e.eval i fuel o.context frame) m := by
  have below : ∀ {e awaited t}, c.definition.Part o c.bound e awaited t →
      (e.denoted (c.definition.approx n) env).Below (e.denoted c.definition.limit env) :=
    fun part => part.denoted_below env (CurriedDefinition.approx_below_limit n)
  have suits : ∀ {e awaited t}, c.definition.Part o c.bound e awaited t →
      ∀ {v}, e.denoted c.definition.limit env = some (.ok v) → c.definition.Suits awaited t v :=
    fun part => part.denoted_suits assigns CurriedDefinition.limit_typed
  -- by induction on the part, for every store: each run may add applications, and the frame still shows
  -- what it has shown
  induction part with
  | constant typed =>
    intro σ m holds _
    exact runs_pure holds (.of_hasType typed)
  | @argument x declared =>
    intro σ m holds shows
    obtain ⟨v, given, -⟩ := assigns.given x declared
    rw [Expr.denoted, Expr.denoted, given]
    exact runs_lookup holds shows given i fuel o.context
  | function =>
    intro σ m holds shows
    rw [Expr.denoted, Expr.denoted, assigns.function]
    exact runs_lookup holds shows assigns.function i fuel o.context
  | @conversion op a s t operand conversion ih =>
    intro σ m holds shows
    exact runs_unary h op (below operand) (suits operand) (suits (.conversion operand conversion))
      (ih holds shows)
  | @unary op a t operand other whole number ih =>
    intro σ m holds shows
    exact runs_unary h op (below operand) (suits operand) (suits (.unary operand other whole number))
      (ih holds shows)
  | @binary op a b s t r left right other admitted first second =>
    intro σ m holds shows
    have further := fun (τ : Store o) m' (more : σ.Extends τ) (holds' : τ.Holds m') later =>
      second holds' (shows.later more later)
    cases connective : op.isShortCircuit with
    | true =>
      exact runs_binary_of_shortCircuit connective (below left) (below right) (suits left) (suits right)
        (first holds shows) further
    | false =>
      exact runs_binary_of_strict other connective (below left) (below right) (suits left) (suits right)
        (suits (.binary left right other admitted)) (first holds shows) further
  | conditional test _ _ tested first second =>
    intro σ m holds shows
    rw [Expr.eval]
    refine (tested holds shows).andThen (below test) fun v d τ m' known denotes more holds' later => ?_
    obtain rfl := denotes.eq_of_hasType (suits test known)
    split
    · exact first holds' (shows.later more later.toLater)
    · exact second holds' (shows.later more later.toLater)
  | invoke callee argument _ first second =>
    intro σ m holds shows
    simp only [Expr.eval, Expr.evalAll_one_bind]
    exact runs_application h.call (below callee) (below argument) (fun d => suits callee)
      (fun d => suits argument) (first holds shows)
      fun τ m' more holds' later => second holds' (shows.later more later)
  | cached callee argument caching first second =>
    intro σ m holds shows
    rw [Expr.eval]
    exact runs_application (h.call.cached caching) (below callee) (below argument)
      (fun d => suits callee) (fun d => suits argument) (first holds shows)
      fun τ m' more holds' later => second holds' (shows.later more later)

end

/-! ## Calls -/

open CurriedDefinition

/-- A call of an application opens a frame that shows one argument more. -/
theorem Shows.push {args : List Value} {x : WholeVariable} {rest : List WholeVariable} {frame : Nat}
    (takes : Takes c.definition.inputs args (x :: rest))
    (shows : σ.Shows c (c.definition.environment c.bound args) frame m) {argument : Boxed}
    (typed : argument.value.hasType x.domain = true) :
    σ.Shows c (c.definition.environment c.bound (args ++ [argument.value])) m.frames.frames.size
      { m with frames := (m.frames.push (some frame) [(x.parameter.uid, argument)]).2 } := by
  refine ⟨?_, fun uid v known => ?_⟩
  · show m.frames.frames.size < (m.frames.push _ _).2.frames.size
    unfold Frames.push
    simp only [Array.size_push]
    omega
  · rw [environment_append _ takes] at known
    rw [Frames.lookup_push_new shows.inside]
    split at known
    next own =>
      cases known
      refine ⟨argument, ?_, .of_hasType typed⟩
      simp [Frame.ofBindings, Frame.get?, Frame.set, Frame.bind, own]
    next other =>
      obtain ⟨box, found, denotes⟩ := shows.shown uid v known
      refine ⟨box, ?_, denotes⟩
      rw [found]
      simp [Frame.ofBindings, Frame.get?, Frame.set, Frame.bind, List.lookup_cons, List.lookup_nil,
        beq_eq_false_iff_ne.2 other]

/-- A call of an application follows its answer. With fuel `n` it answers at least what calls nested less
than `n` deep answer, whatever the cache holds. -/
theorem applies_call [Host] (o : CompileOptions) (n : Nat) :
    Applies o n fun function argument => Run.call n function [argument] := by
  -- by induction on the fuel: with `n` the calls in the body answer to the depth `n`
  induction n with
  | zero => exact fun σ id p function argument m held closure typed holds => .of_eq holds rfl rfl
  | succ n ih =>
    intro σ id p function argument m held closure typed holds
    have interprets : Interprets o n ⟨Run.call n, Run.applyUnary⟩ := ⟨rfl, ih⟩
    obtain ⟨⟨d, bound, body, compiles⟩, args, x, rest, takes⟩ := p
    obtain ⟨frame, there, shows⟩ := holds.places id _ held
    have opened := Later.push m (some frame) [(x.parameter.uid, argument)]
    have holds' := holds.later opened rfl
    have shows' := Shows.push takes shows typed
    have taken := takes.one typed
    refine Runs.of_continues (Runs.sealed ?_) (.refl σ) ⟨opened, rfl⟩ (Run.call_closure closure there n)
    cases rest with
    | nil =>
      -- the last argument: the body is evaluated, and the marks in it do not change what it denotes
      have limit : d.limit (.list args) argument.value =
          body.denoted d.limit (d.environment bound (args ++ [argument.value])) := by
        rw [limit_eq, applied_of_last _ takes, compiles.denotes _ limit_typed _ taken]
      have approx : d.approx (n + 1) (.list args) argument.value =
          body.denoted (d.approx n) (d.environment bound (args ++ [argument.value])) := by
        rw [compiles.denotes _ (approx_typed n) _ taken]
        exact applied_of_last _ takes _
      show σ.Runs (Follows _ (d.limit _ _) (d.approx _ _ _)) _ _
      rw [limit, approx]
      exact runs_part interprets (compiles.free.assigns taken) compiles.part holds' shows'
    | cons y rest =>
      -- another closure, which is the application to one argument more
      let q : Application o := ⟨⟨d, bound, body, compiles⟩, args ++ [argument.value], y, rest, taken⟩
      have limit : d.limit (.list args) argument.value = .value (.list (args ++ [argument.value])) := by
        rw [limit_eq, applied_of_more _ takes]
      have approx : d.approx (n + 1) (.list args) argument.value =
          .value (.list (args ++ [argument.value])) := applied_of_more _ takes _
      have added := Later.addFunction
        { m with frames := (m.frames.push (some frame) [(x.parameter.uid, argument)]).2 }
        (.closure [y.parameter.uid] q.body m.frames.frames.size o.context)
      have more := extends_add holds'.free q
      obtain ⟨-, holds''⟩ := holds'.add (p := q) added rfl
        ⟨_, Array.getElem?_push_size, shows'.later more added⟩
      refine ⟨σ.add m.functions.size q, more, holds'', ⟨added, rfl⟩, ?_⟩
      show ∃ e, d.limit (.list args) argument.value = some (.ok e) ∧ _
      exact ⟨_, limit, .application (add_self σ _ q) rfl⟩

end Store

end Knot
