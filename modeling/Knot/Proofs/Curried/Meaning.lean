import Knot.Proofs.Curried.Definitions
import Knot.Proofs.FirstOrder.Meaning

/-!
# The meaning of curried definitions

A part of a body denotes a value, or the function applied to some arguments, which is denoted by the
list of these arguments. `Expr.denoted` is what a part denotes, given what applications answer and
what the variables stand for.

`CurriedDefinition.approx n` is the application of the function with calls nested less than `n` deep, and
`CurriedDefinition.limit` with calls of any depth. An application to fewer arguments than the function
takes answers by the longer list; with the last argument the body is asked
(`CurriedDefinition.applied`). The limit solves this equation (`CurriedDefinition.limit_eq`), and it
answers what some approximation answers (`CurriedDefinition.limit_eq_some_iff`).
-/

namespace Knot

/-! ## Approximations -/

namespace Partial

/-- Approximations of which each answers at least what the one before answers. -/
def Increasing (s : Nat → Partial) : Prop := ∀ n, (s n).Below (s (n + 1))

/-- What some approximation answers. -/
noncomputable def limit (s : Nat → Partial) : Partial :=
  open Classical in
  if h : ∃ n r, s n = some r then some (Classical.choose (Classical.choose_spec h)) else none

theorem Increasing.below {s : Nat → Partial} (increasing : Increasing s) {n k : Nat}
    (deeper : n ≤ k) : (s n).Below (s k) := by
  induction deeper with
  | refl => exact .refl _
  | step _ ih => exact ih.trans (increasing _)

theorem Increasing.limit_eq_some_iff {s : Nat → Partial} (increasing : Increasing s)
    {r : Except Fault Value} : limit s = some r ↔ ∃ n, s n = some r := by
  -- an answer stays once it is there, so there are no two
  have unique : ∀ {n k r r'}, s n = some r → s k = some r' → r = r' := by
    intro n k r r' first second
    rcases Nat.le_total n k with deeper | deeper
    · exact Option.some.inj (((increasing.below deeper).eq_of_some first).symm.trans second)
    · exact Option.some.inj (first.symm.trans ((increasing.below deeper).eq_of_some second))
  unfold limit
  split
  next h =>
    have chosen := Classical.choose_spec (Classical.choose_spec h)
    constructor
    · intro same
      exact ⟨_, chosen.trans same⟩
    · rintro ⟨n, answer⟩
      rw [unique answer chosen]
  next h =>
    constructor
    · intro impossible
      cases impossible
    · rintro ⟨n, answer⟩
      exact absurd ⟨n, r, answer⟩ h

theorem Increasing.below_limit {s : Nat → Partial} (increasing : Increasing s) (n : Nat) :
    (s n).Below (limit s) := by
  cases answer : s n with
  | none => exact .of_none _
  | some r => exact .inr (increasing.limit_eq_some_iff.2 ⟨n, answer⟩).symm

/-- From some depth on the approximations answer as a computation does. -/
def Settles (s : Nat → Partial) (x : Partial) : Prop := ∃ n, ∀ k ≥ n, s k = x

theorem Settles.const (x : Partial) : Settles (fun _ => x) x := ⟨0, fun _ _ => rfl⟩

theorem Increasing.settles {s : Nat → Partial} (increasing : Increasing s) :
    Settles s (limit s) := by
  cases answer : limit s with
  | none =>
    refine ⟨0, fun k _ => ?_⟩
    rcases increasing.below_limit k with none_yet | same
    · exact none_yet
    · rw [same, answer]
  | some r =>
    obtain ⟨n, found⟩ := increasing.limit_eq_some_iff.1 answer
    exact ⟨n, fun k deeper => (increasing.below deeper).eq_of_some found⟩

/-- One computation after another settles if both do. -/
theorem Settles.andThen {s : Nat → Partial} {x : Partial} {f : Nat → Value → Partial}
    {g : Value → Partial} (first : Settles s x)
    (second : ∀ v, x = some (.ok v) → Settles (fun k => f k v) (g v)) :
    Settles (fun k => (s k).andThen (f k)) (x.andThen g) := by
  obtain ⟨n, settled⟩ := first
  rcases x with - | (e | v)
  · exact ⟨n, fun k deep => by simp only [settled k deep, andThen_none]⟩
  · exact ⟨n, fun k deep => by simp only [settled k deep, andThen_error]⟩
  · obtain ⟨n', settled'⟩ := second v rfl
    refine ⟨max n n', fun k deep => ?_⟩
    simp only [settled k (by omega), andThen_ok]
    exact settled' k (by omega)

/-- So do the two operands of an operator. -/
theorem Settles.join (op : BinaryOp) {s s' : Nat → Partial} {x y : Partial} (left : Settles s x)
    (right : Settles s' y) : Settles (fun k => op.join (s k) (s' k)) (op.join x y) := by
  refine left.andThen fun v _ => ?_
  split
  · exact .const _
  · exact right.andThen fun w _ => .const _

end Partial

/-! ## Arguments -/

/-- Values for the first of some variables, in their order, and the variables that still await one. -/
inductive Takes (xs : List WholeVariable) : List Value → List WholeVariable → Prop
  | none : Takes xs [] xs
  | one {args x rest v} (before : Takes xs args (x :: rest)) (typed : v.hasType x.domain = true) :
      Takes xs (args ++ [v]) rest

namespace Takes

variable {xs rest : List WholeVariable} {args : List Value}

theorem split (h : Takes xs args rest) : ∃ taken, xs = taken ++ rest ∧ taken.length = args.length := by
  induction h with
  | none => exact ⟨[], rfl, rfl⟩
  | @one args x rest v _ _ ih =>
    obtain ⟨taken, rfl, counted⟩ := ih
    exact ⟨taken ++ [x], by rw [List.append_assoc, List.singleton_append], by simp [counted]⟩

/-- The arguments say what is awaited. -/
theorem rest_eq (h : Takes xs args rest) : rest = xs.drop args.length := by
  obtain ⟨taken, rfl, counted⟩ := h.split
  rw [← counted, List.drop_left]

theorem length (h : Takes xs args rest) : args.length + rest.length = xs.length := by
  obtain ⟨taken, rfl, counted⟩ := h.split
  rw [← counted, List.length_append]

theorem awaited_mem (h : Takes xs args rest) {x : WholeVariable} (awaited : x ∈ rest) : x ∈ xs := by
  obtain ⟨taken, rfl, -⟩ := h.split
  exact List.mem_append_right taken awaited

end Takes

/-- The value that a variable of some number has been given; of several the last one counts. -/
def givenTo (xs : List WholeVariable) (args : List Value) (uid : Nat) : Option Value :=
  ((xs.zip args).reverse.find? fun b => decide (b.1.parameter.uid = uid)).map fun b => b.2

theorem givenTo_append {xs rest : List WholeVariable} {args : List Value} {x : WholeVariable}
    (h : Takes xs args (x :: rest)) (v : Value) (uid : Nat) :
    givenTo xs (args ++ [v]) uid = if uid = x.parameter.uid then some v else givenTo xs args uid := by
  obtain ⟨taken, rfl, counted⟩ := h.split
  have both : ∀ vs : List Value, (taken ++ x :: rest).zip (args ++ vs) =
      taken.zip args ++ (x :: rest).zip vs := fun vs => List.zip_append counted
  have before : (taken ++ x :: rest).zip args = taken.zip args := by simpa using both []
  have after : (taken ++ x :: rest).zip (args ++ [v]) = taken.zip args ++ [(x, v)] := by
    simpa using both [v]
  unfold givenTo
  rw [before, after, List.reverse_append]
  by_cases same : uid = x.parameter.uid
  · simp [same]
  · simp [same, Ne.symm same]

namespace CurriedDefinition

variable (d : CurriedDefinition)

/-- Each variable awaits its argument or has been given a value of its domain. -/
theorem given_or_awaited {args : List Value} {rest : List WholeVariable} (h : Takes d.inputs args rest) :
    ∀ x ∈ d.inputs, (∃ v, givenTo d.inputs args x.parameter.uid = some v ∧
      v.hasType x.domain = true) ∨ x ∈ rest := by
  induction h with
  | none => exact fun x declared => .inr declared
  | @one args y rest w before typed ih =>
    intro x declared
    rw [givenTo_append before]
    by_cases same : x.parameter.uid = y.parameter.uid
    · have domain := d.domain_eq declared (before.awaited_mem List.mem_cons_self) same
      exact .inl ⟨w, if_pos same, by rw [domain]; exact typed⟩
    · rw [if_neg same]
      rcases ih x declared with given | awaited
      · exact .inl given
      · rcases List.mem_cons.1 awaited with rfl | later
        · exact absurd rfl same
        · exact .inr later

/-! ## Denotations -/

/-- What the variables stand for once the function `f` has been given some arguments. The function
itself has been given none. -/
def environment (f : Parameter) (args : List Value) (uid : Nat) : Option Value :=
  (givenTo d.inputs args uid).or (if uid = f.uid then some (.list []) else none)

theorem environment_append {f : Parameter} {args : List Value} {x : WholeVariable}
    {rest : List WholeVariable} (h : Takes d.inputs args (x :: rest)) (v : Value) (uid : Nat) :
    d.environment f (args ++ [v]) uid =
      if uid = x.parameter.uid then some v else d.environment f args uid := by
  unfold environment
  rw [givenTo_append h]
  split <;> rfl

/-- The function stands for itself, and every variable for a value of its domain. -/
structure Assigns (f : Parameter) (env : Nat → Option Value) : Prop where
  function : env f.uid = some (.list [])
  given : ∀ x ∈ d.inputs, ∃ v, env x.parameter.uid = some v ∧ v.hasType x.domain = true

/-- A variable that is none of the inputs can stand for the function. -/
def Free (f : Parameter) : Prop := ∀ x ∈ d.inputs, x.parameter.uid ≠ f.uid

variable {d}

theorem Free.environment_self {f : Parameter} (free : d.Free f) (args : List Value) :
    d.environment f args f.uid = some (.list []) := by
  have none_given : givenTo d.inputs args f.uid = none := by
    unfold givenTo
    rw [Option.map_eq_none_iff, List.find?_eq_none]
    intro b inside
    have declared : b.1 ∈ d.inputs := (List.of_mem_zip (List.mem_reverse.1 inside)).1
    simpa using free b.1 declared
  unfold environment
  rw [none_given, if_pos rfl]
  rfl

theorem Free.assigns {f : Parameter} (free : d.Free f) {args : List Value}
    (all : Takes d.inputs args []) : d.Assigns f (d.environment f args) where
  function := free.environment_self args
  given x declared := by
    rcases d.given_or_awaited all x declared with ⟨v, given, typed⟩ | awaited
    · refine ⟨v, ?_, typed⟩
      unfold environment
      rw [given]
      rfl
    · cases awaited

/-- The variables stand for the same, whichever variable stands for the function. -/
theorem environment_eq (f g : Parameter) {args : List Value} (all : Takes d.inputs args [])
    {x : WholeVariable} (declared : x ∈ d.inputs) :
    d.environment f args x.parameter.uid = d.environment g args x.parameter.uid := by
  rcases d.given_or_awaited all x declared with ⟨v, given, -⟩ | awaited
  · unfold environment
    rw [given]
    rfl
  · cases awaited

theorem free_self : d.Free d.self := fun _ declared => d.apart_self declared

end CurriedDefinition

/-- What a part of a body denotes, given what the application of a function to an argument answers and
what the variables stand for. -/
def Expr.denoted (apply : Value → Value → Partial) (env : Nat → Option Value) : Expr → Partial
  | constant v _ => .value v.value
  | parameter p => (env p.uid).map .ok
  | unary op a t => (a.denoted apply env).andThen fun v => some (op.apply v t)
  | binary op a b _ => op.join (a.denoted apply env) (b.denoted apply env)
  | conditional a b c _ =>
    (a.denoted apply env).andThen fun v =>
      if v.truthy then b.denoted apply env else c.denoted apply env
  | invoke f [a] _ | cached f a _ _ =>
    (f.denoted apply env).andThen fun g => (a.denoted apply env).andThen (apply g)
  | _ => none

namespace CurriedDefinition

variable (d : CurriedDefinition)

/-- What the application of a function to an argument answers, given what the applications in the body
answer. With the last argument that is the body. -/
def applied (apply : Value → Value → Partial) (g v : Value) : Partial :=
  match g with
  | .list args =>
    if args.length + 1 < d.inputs.length then .value (.list (args ++ [v]))
    else d.body.denoted apply (d.environment d.self (args ++ [v]))
  | _ => some (.error .wrongKind)

/-- An application when calls nest less than `n` deep. -/
def approx : Nat → Value → Value → Partial
  | 0, _, _ => none
  | n + 1, g, v => d.applied (approx n) g v

/-- An application when calls nest to any depth. -/
noncomputable def limit (g v : Value) : Partial := .limit fun n => d.approx n g v

/-- What a part that awaits some variables can denote: a value of its type if these are none, or else
the function applied to arguments for the variables before them. -/
def Suits (awaited : List WholeVariable) (t : ValueType) (v : Value) : Prop :=
  match awaited with
  | [] => v.hasType t = true
  | _ :: _ => ∃ args, v = .list args ∧ Takes d.inputs args awaited

/-- Applications that answer by what suits the type of the function, when the argument does. -/
def TypedApplication (apply : Value → Value → Partial) : Prop :=
  ∀ args x rest v r, Takes d.inputs args (x :: rest) → v.hasType x.domain = true →
    apply (.list args) v = some (.ok r) → d.Suits rest d.codomain r

variable {d} {o : CompileOptions} {f : Parameter} {e : Expr} {awaited : List WholeVariable}
  {t : ValueType}

/-- A part denotes what suits its type. -/
theorem Part.denoted_suits (h : d.Part o f e awaited t) {env : Nat → Option Value}
    (assigns : d.Assigns f env) {apply : Value → Value → Partial} (typed : d.TypedApplication apply) :
    ∀ {v}, e.denoted apply env = some (.ok v) → d.Suits awaited t v := by
  induction h with
  | constant ofType => intro v answer; cases answer; exact ofType
  | argument declared =>
    intro v answer
    obtain ⟨w, given, ofType⟩ := assigns.given _ declared
    rw [Expr.denoted, given] at answer
    cases answer
    exact ofType
  | function =>
    intro v answer
    rw [Expr.denoted, assigns.function] at answer
    cases answer
    exact ⟨[], rfl, .none⟩
  | @conversion op a s t operand conversion ih =>
    intro w answer
    obtain ⟨v, operand, applied⟩ := Partial.andThen_eq_ok.1 answer
    have yields := UnaryOp.apply_yields_of_conversion conversion (ih operand) t
    rw [Option.some.inj applied] at yields
    exact yields
  | unary _ other whole number ih =>
    intro w answer
    obtain ⟨v, operand, applied⟩ := Partial.andThen_eq_ok.1 answer
    have yields := UnaryOp.apply_yields other (ih operand) whole number
    rw [Option.some.inj applied] at yields
    exact yields
  | binary _ _ other admitted left right =>
    intro w answer
    exact BinaryOp.join_typed other admitted left right answer
  | conditional _ _ _ _ ifTrue ifFalse =>
    intro w answer
    obtain ⟨v, -, chosen⟩ := Partial.andThen_eq_ok.1 answer
    split at chosen
    · exact ifTrue chosen
    · exact ifFalse chosen
  | @invoke g a x rest _ _ _ function argument | @cached g a x rest _ _ _ function argument =>
    intro r answer
    obtain ⟨g, callee, answer⟩ := Partial.andThen_eq_ok.1 answer
    obtain ⟨v, given, called⟩ := Partial.andThen_eq_ok.1 answer
    -- what is called is a list of arguments that waits for this one
    obtain ⟨args, rfl, takes⟩ := function callee
    exact typed args x rest v r takes (argument given) called

/-- The more the applications answer, the more a part denotes. -/
theorem Part.denoted_below (h : d.Part o f e awaited t) (env : Nat → Option Value)
    {apply more : Value → Value → Partial} (below : ∀ g v, (apply g v).Below (more g v)) :
    (e.denoted apply env).Below (e.denoted more env) := by
  induction h with
  | constant | argument | function => exact .refl _
  | conversion _ _ ih | unary _ _ _ _ ih => exact ih.andThen fun v _ => .refl _
  | binary _ _ _ _ left right => exact BinaryOp.join_below _ left right
  | conditional _ _ _ tested ifTrue ifFalse =>
    refine tested.andThen fun v _ => ?_
    split
    · exact ifTrue
    · exact ifFalse
  | invoke _ _ _ function argument | cached _ _ _ function argument =>
    exact function.andThen fun g _ => argument.andThen fun v _ => below g v

/-- A part asks for finitely many applications, so that what it denotes settles if they do. -/
theorem Part.denoted_settles (h : d.Part o f e awaited t) (env : Nat → Option Value)
    {apply : Nat → Value → Value → Partial} {all : Value → Value → Partial}
    (settles : ∀ g v, Partial.Settles (fun n => apply n g v) (all g v)) :
    Partial.Settles (fun n => e.denoted (apply n) env) (e.denoted all env) := by
  induction h with
  | constant | argument | function => exact .const _
  | conversion _ _ ih | unary _ _ _ _ ih => exact ih.andThen fun v _ => .const _
  | binary _ _ _ _ left right => exact .join _ left right
  | conditional _ _ _ tested ifTrue ifFalse =>
    refine tested.andThen fun v _ => ?_
    split
    · exact ifTrue
    · exact ifFalse
  | invoke _ _ _ function argument | cached _ _ _ function argument =>
    exact function.andThen fun g _ => argument.andThen fun v _ => settles g v

/-! ## Recursion -/

theorem applied_below {apply more : Value → Value → Partial}
    (below : ∀ g v, (apply g v).Below (more g v)) (g v : Value) :
    (d.applied apply g v).Below (d.applied more g v) := by
  cases g with
  | list args =>
    simp only [applied]
    split
    · exact .refl _
    · exact d.part.denoted_below _ below
  | _ => exact .refl _

theorem applied_settles {apply : Nat → Value → Value → Partial} {all : Value → Value → Partial}
    (settles : ∀ g v, Partial.Settles (fun n => apply n g v) (all g v)) (g v : Value) :
    Partial.Settles (fun n => d.applied (apply n) g v) (d.applied all g v) := by
  cases g with
  | list args =>
    simp only [applied]
    split
    · exact .const _
    · exact d.part.denoted_settles _ settles
  | _ => exact .const _

/-- An application to fewer arguments than the function takes collects them. -/
theorem applied_of_more (apply : Value → Value → Partial) {args : List Value} {x y : WholeVariable}
    {rest : List WholeVariable} (takes : Takes d.inputs args (x :: y :: rest)) (v : Value) :
    d.applied apply (.list args) v = .value (.list (args ++ [v])) := by
  have counted := takes.length
  simp only [List.length_cons] at counted
  exact if_pos (by omega)

/-- With the last argument the body is asked. -/
theorem applied_of_last (apply : Value → Value → Partial) {args : List Value} {x : WholeVariable}
    (takes : Takes d.inputs args [x]) (v : Value) :
    d.applied apply (.list args) v =
      d.body.denoted apply (d.environment d.self (args ++ [v])) := by
  have counted := takes.length
  simp only [List.length_cons, List.length_nil] at counted
  exact if_neg (by omega)

theorem TypedApplication.applied {apply : Value → Value → Partial} (h : d.TypedApplication apply) :
    d.TypedApplication (d.applied apply) := by
  intro args x rest v r takes typed answer
  cases rest with
  | nil =>
    rw [applied_of_last apply takes] at answer
    exact d.part.denoted_suits (free_self.assigns (takes.one typed)) h answer
  | cons y rest =>
    rw [applied_of_more apply takes] at answer
    cases answer
    exact ⟨args ++ [v], rfl, takes.one typed⟩

/-- Deeper calls answer more. -/
theorem approx_increasing (g v : Value) : Partial.Increasing fun n => d.approx n g v := by
  intro n
  induction n generalizing g v with
  | zero => exact .of_none _
  | succ n ih => exact d.applied_below ih g v

theorem approx_below_limit (n : Nat) (g v : Value) : (d.approx n g v).Below (d.limit g v) :=
  (d.approx_increasing g v).below_limit n

/-- The limit answers what some approximation answers. -/
theorem limit_eq_some_iff {g v : Value} {r : Except Fault Value} :
    d.limit g v = some r ↔ ∃ n, d.approx n g v = some r :=
  (d.approx_increasing g v).limit_eq_some_iff

theorem approx_settles (g v : Value) : Partial.Settles (fun n => d.approx n g v) (d.limit g v) :=
  (d.approx_increasing g v).settles

theorem approx_typed (n : Nat) : d.TypedApplication (d.approx n) := by
  induction n with
  | zero => intro args x rest v r _ _ answer; cases answer
  | succ n ih => exact ih.applied

theorem limit_typed : d.TypedApplication d.limit := by
  intro args x rest v r takes typed answer
  obtain ⟨n, answer⟩ := limit_eq_some_iff.1 answer
  exact d.approx_typed n args x rest v r takes typed answer

/-- The limit solves the equation of the definition. -/
theorem limit_eq (g v : Value) : d.limit g v = d.applied d.limit g v := by
  obtain ⟨n, deep⟩ := d.approx_settles g v
  obtain ⟨n', settled⟩ := d.applied_settles d.approx_settles g v
  calc d.limit g v = d.approx (max n n' + 1) g v := (deep _ (by omega)).symm
    _ = d.applied (d.approx (max n n')) g v := rfl
    _ = d.applied d.limit g v := settled _ (by omega)

end CurriedDefinition

/-! ## Fibonacci numbers with a seed -/

namespace SeededFibonacci

open Fibonacci (word number)

theorem isFloat_int32 : ValueType.int32.isFloat = false := rfl

/-- The seed. -/
def seed : WholeVariable := ⟨⟨"x", .value .int32, 1⟩, .int32, rfl, isFloat_int32⟩

/-- The index. -/
def index : WholeVariable := ⟨⟨"n", .value .int32, 2⟩, .int32, rfl, isFloat_int32⟩

/-- The function. -/
def self : Parameter := ⟨"fib", .curried [seed, index] .int32, 3⟩

/-- `n < 2` -/
def small : Expr := .binary .lessThan (.parameter index.parameter) (number 2) (.value .bool)

/-- `fib(x)(n - v)` -/
def earlier (v : Int) : Expr :=
  .invoke (.invoke (.parameter self) [.parameter seed.parameter] (.curried [index] .int32))
    [.binary .subtract (.parameter index.parameter) (number v) (.value .int32)] (.value .int32)

/-- `fib(x)(n - 1) + fib(x)(n - 2)` -/
def sum : Expr := .binary .add (earlier 1) (earlier 2) (.value .int32)

theorem curriedBody_number (v : Int) : CurriedBody self [seed, index] (number v) [] := by
  have built : Build.constant ⟨word v, 0⟩ (some (.value .int32)) = .ok (number v) := rfl
  exact .constant built rfl

theorem curriedBody_earlier (v : Int) : CurriedBody self [seed, index] (earlier v) [] := by
  have built : Build.binary .subtract (.parameter index.parameter) (number v) =
      .ok (.binary .subtract (.parameter index.parameter) (number v) (.value .int32)) := rfl
  have seeded : CurriedBody self [seed, index]
      (.invoke (.parameter self) [.parameter seed.parameter] (.curried [index] .int32)) [index] :=
    .apply .function (.argument (x := seed) (by simp)) rfl
  exact .apply seeded
    (.binary (.argument (x := index) (by simp)) (curriedBody_number v) (by decide) built) rfl

/-- `(fib) => (x) => (n) => n < 2 ? x : fib(x)(n - 1) + fib(x)(n - 2)` -/
def definition : CurriedDefinition where
  self := self
  first := seed
  rest := [index]
  body := .conditional small (.parameter seed.parameter) sum (.value .int32)
  codomain := .int32
  self_type := rfl
  body_type := rfl
  numbered := by decide
  curried_body := by
    have test : Build.binary .lessThan (.parameter index.parameter) (number 2) = .ok small := rfl
    have added : Build.binary .add (earlier 1) (earlier 2) = .ok sum := rfl
    have choice : Build.condition small (.parameter seed.parameter) sum none =
        .ok (.conditional small (.parameter seed.parameter) sum (.value .int32)) := rfl
    exact .conditional
      (.binary (.argument (x := index) (by simp)) (curriedBody_number 2) (by decide) test)
      (.argument (x := seed) (by simp))
      (.binary (curriedBody_earlier 1) (curriedBody_earlier 2) (by decide) added) choice

/-- With the seed three the fifth number is reached at a depth of seven. -/
theorem limit_three_five :
    definition.limit (.list [word 3]) (word 5) = some (.ok (word 24)) := by
  have deep : definition.approx 7 (.list [word 3]) (word 5) = some (.ok (word 24)) := rfl
  exact CurriedDefinition.limit_eq_some_iff.2 ⟨7, deep⟩

end SeededFibonacci

end Knot
