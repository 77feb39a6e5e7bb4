import Knot.Proofs.Isolation.Correspondence

/-!
# Calls that do not disturb one another

The functions of an isolated tree keep to their own variables. So a call of one of them, however deep calls
nest and however it ends, changes no frame that there was when it began; and if the tree has no cached
calls, two such calls have the same two outcomes in either order, up to the numbers of the functions and
the frames that they make (`Expr.Isolated.calls_apart`). A memo cache answers by keys, and values of
different types may have one key; so with cached calls the order may show
(`sharedCache_shows_order`).
-/

namespace Knot

/-! ## Sessions -/

namespace Run

/-- Evaluates a tree as `Run.evaluate` does, but calls functions from a number on only. -/
def evaluateWithin [Host] (start fuel : Nat) (context : Context) (e : Expr) : Run Boxed :=
  match e.obstacle? with
  | some f => fail f
  | none => do
    let frame ← openFrame none []
    e.eval ⟨callWithin start fuel, applyUnary⟩ fuel context frame

end Run

/-- A call that is to be made. -/
structure Invocation where
  fuel : Nat
  function : Boxed
  arguments : List Boxed

namespace Invocation

/-- The call. -/
def run [Host] (c : Invocation) : Run Boxed := Run.call c.fuel c.function c.arguments

/-- The functions that it names are there. -/
def Known (c : Invocation) (m : Machine) : Prop := ∀ v ∈ c.function :: c.arguments, m.Has v

/-- From a machine it calls functions from a number on only: to leave out all others makes no difference. -/
def Owns [Host] (c : Invocation) (start : Nat) (m : Machine) : Prop :=
  Run.callWithin start c.fuel c.function c.arguments m = c.run m

/-- A call that ends though it calls no other functions calls none. -/
theorem Owns.of_ended [Host] {c : Invocation} {start : Nat} {m : Machine}
    (ended : (Run.callWithin start c.fuel c.function c.arguments m).1 ≠ .exhausted) : c.Owns start m :=
  (Run.Below.callWithin start c.fuel c.function c.arguments m ended).symm

end Invocation

namespace Expr

/-- The machines that are reached by an evaluation of a tree and by calls after it, if nothing but the
functions that come of the tree is called. -/
inductive Reaches [Host] (e : Expr) (context : Context) (m : Machine) : Machine → Prop
  | evaluated (fuel : Nat)
      (own : Run.evaluateWithin m.functions.size fuel context e m = Run.evaluate fuel context e m) :
      e.Reaches context m (Run.evaluate fuel context e m).2
  | called {m' : Machine} (before : e.Reaches context m m') (c : Invocation) (known : c.Known m')
      (own : c.Owns m.functions.size m') : e.Reaches context m (c.run m').2

/-- A tree without cached calls, of which the pools and the functions that it names are there, and the pools
have whole slots. -/
structure Grounded (e : Expr) (context : Context) (m : Machine) : Prop where
  uncached : ∀ f a t c, cached f a t c ∉ e.nodes
  constants : ∀ v t, constant v t ∈ e.nodes → m.Has v
  named : ∀ op a b t pool, parallel op a b t pool ∈ e.nodes →
    ∀ p, pool.or context.pool = some p → p < m.pools.size
  pools : m.PoolsWhole m.pools.size

end Expr

/-- The realm of what comes of a tree on a machine. -/
def Machine.realm (m : Machine) (clean : Prop) : Realm :=
  ⟨m.functions.size, m.frames.frames.size, m.pools.size, clean⟩

/-- Before anything is evaluated there is nothing in the realm. -/
theorem Machine.holds_realm {m : Machine} {clean : Prop} (whole : clean → m.PoolsWhole m.pools.size) :
    (m.realm clean).Holds m where
  functions := Nat.le_refl _
  frames := Nat.le_refl _
  closures _ _ above found :=
    absurd (Array.getElem?_eq_some_iff.1 found).1 (Nat.not_lt_of_le above)
  bound _ _ above found := absurd (Frames.lt_size_of_get? found) (Nat.not_lt_of_le above)
  pools := whole

/-- A tree may be evaluated in the realm. -/
theorem Expr.Isolated.allowed {e : Expr} {context : Context} {m : Machine} {clean : Prop}
    (isolated : e.Isolated) (grounded : clean → e.Grounded context m) :
    ∀ x ∈ e.nodes, (m.realm clean).Allows context x := by
  intro x inside
  have native := isolated.native x inside
  cases x with
  | hostCall | member => cases native
  | cached f a t c => exact fun clean => (grounded clean).uncached f a t c inside
  | parallel op a b t pool => exact fun clean => (grounded clean).named op a b t pool inside
  | constant v t => exact fun clean => (grounded clean).constants v t inside
  | _ => trivial

/-- The evaluation of the tree keeps the realm. -/
theorem Expr.Isolated.holds_evaluateWithin [Host] {e : Expr} {context : Context} {m : Machine} {clean : Prop}
    (isolated : e.Isolated) (grounded : clean → e.Grounded context m) (fuel : Nat) :
    (m.realm clean).Holds (Run.evaluateWithin m.functions.size fuel context e m).2 := by
  have holds : (m.realm clean).Holds m := Machine.holds_realm fun clean => (grounded clean).pools
  unfold Run.evaluateWithin
  cases e.obstacle? with
  | some f => exact holds
  | none =>
    let opened : Machine := { m with frames := (m.frames.push none []).2 }
    have size : opened.frames.frames.size = m.frames.frames.size + 1 := by
      simp [opened, Frames.push]
    have inside : m.frames.frames.size < opened.frames.frames.size := by
      rw [size]
      exact Nat.lt_succ_self _
    have fits : (m.realm clean).Scoped m.frames.frames.size opened m.frames.frames.size context e := by
      refine ⟨Nat.le_of_lt inside, inside, Nat.le_refl _, isolated.assigns.imp fun u _ home found => ?_,
        isolated.allowed grounded⟩
      -- nothing is found from the new frame, which has no bindings and no parent
      unfold Frames.home? Frames.homeFrom at found
      rw [Frames.get?_push, if_pos rfl] at found
      cases found
    have evaluated : Run.Confines (m.realm clean) m.frames.frames.size opened (m.realm clean).Knows
        (e.eval ⟨Run.callWithin m.functions.size fuel, Run.applyUnary⟩ fuel context
          m.frames.frames.size) :=
      .eval (Run.Confines.callWithin (w := m.realm clean) fuel) fits
    have started : (m.realm clean).Holds opened := holds.push (by simp) (List.forall_mem_nil _)
    exact (evaluated opened (.refl opened) started).holds

/-- Calls keep it. -/
theorem Expr.Isolated.holds_reached [Host] {e : Expr} {context : Context} {m m' : Machine} {clean : Prop}
    (isolated : e.Isolated) (grounded : clean → e.Grounded context m) (reached : e.Reaches context m m') :
    (m.realm clean).Holds m' := by
  induction reached with
  | evaluated fuel own =>
    rw [← own]
    exact isolated.holds_evaluateWithin grounded fuel
  | @called m' _ c known own ih =>
    rw [← own]
    have called : Run.Confines (m.realm clean) 0 m' (m.realm clean).Knows
        (Run.callWithin m.functions.size c.fuel c.function c.arguments) :=
      .callWithin c.fuel c.function c.arguments (Nat.zero_le _) fun v member _ =>
        known v (List.mem_cons_of_mem _ member)
    exact (called m' (.refl m') ih).holds

/-! ## Calls -/

/-- A call of functions of an isolated tree changes no frame that there was when it began, however deep
calls nest and however it ends. So two such calls, if they end, have the same outcomes in either order, if
the tree has no cached calls: some link, by which all that there was stands for itself, joins the machines
that they lead to, and by it the outcomes are alike. -/
theorem Expr.Isolated.calls_apart [Host] {e : Expr} {context : Context} {m m' : Machine}
    (isolated : e.Isolated) (reached : e.Reaches context m m') :
    (∀ c : Invocation, c.Owns m.functions.size m' →
      ∀ f < m'.frames.frames.size, (c.run m').2.frames.get? f = m'.frames.get? f) ∧
    (e.Grounded context m → ∀ c d : Invocation, c.Known m' → d.Known m' →
      c.Owns m.functions.size m' → d.Owns m.functions.size (c.run m').2 →
      (c.run m').1 ≠ .exhausted → (d.run (c.run m').2).1 ≠ .exhausted →
      ∃ β : Link, (Link.identity (m.realm True) m').Within β ∧
        β.Joins (m.realm True) (d.run (c.run m').2).2 (c.run (d.run m').2).2 ∧
        β.Outcomes β.Values (c.run m').1 (c.run (d.run m').2).1 ∧
        β.Outcomes β.Values (d.run (c.run m').2).1 (d.run m').1) := by
  constructor
  · intro c own
    have holds : (m.realm False).Holds m' := isolated.holds_reached (fun clean => clean.elim) reached
    have called : Run.Confines (m.realm False) m'.frames.frames.size m' (m.realm False).Knows
        (Run.callWithin m.functions.size c.fuel c.function c.arguments) :=
      .callWithin c.fuel c.function c.arguments (Nat.le_refl _) fun _ _ clean => clean.elim
    rw [← own]
    exact (called m' (.refl m') holds).kept
  · intro grounded c d known known' own ownAfter ended ended'
    have holds : (m.realm True).Holds m' := isolated.holds_reached (fun _ => grounded) reached
    have joins := Link.joins_identity holds trivial
    have steady (c : Invocation) (known : c.Known m') : Run.Steady (m.realm True)
        (Link.identity (m.realm True) m')
        (Run.callWithin m.functions.size c.fuel c.function c.arguments)
        (Run.callWithin m.functions.size c.fuel c.function c.arguments) :=
      Run.steady_callWithin (w := m.realm True) trivial c.fuel
        (.identity (known _ List.mem_cons_self))
        (List.forall₂_same.2 fun v member => .identity (known v (List.mem_cons_of_mem _ member)))
    obtain ⟨β, o, o', after, last, ran, ran', grows, joined, -, -, alike, alike'⟩ :=
      Run.Agrees.commute (steady c known) (steady d known') (.refl _) joins own ended ownAfter ended'
    -- in the other order, too, the calls end and so call no other functions
    have own' : d.Owns m.functions.size m' := .of_ended (by
      rw [ran]
      exact alike'.ended.2)
    have second : d.run m' = (o', after) := own'.symm.trans ran
    have ownAfter' : c.Owns m.functions.size after := .of_ended (by
      rw [ran']
      exact alike.ended.2)
    have last' : c.run (d.run m').2 = (o, last) := by
      rw [second]
      exact ownAfter'.symm.trans ran'
    refine ⟨β, grows.toWithin, ?_⟩
    rw [last', second]
    exact ⟨joined, alike, alike'⟩

/-! ## Trees -/

/-- The static type of any value. -/
def anyType : StaticType := .reference "object"

/-- The static type of a function of any value. -/
def anyFunction : StaticType := .func [anyType] anyType

/-- A function that keeps its argument in a variable of its own, and gives a function that shows it. -/
def Keeping.function : Expr :=
  let x : Parameter := ⟨"x", anyType, 1⟩
  let y : Parameter := ⟨"y", anyType, 2⟩
  let kept : Parameter := ⟨"kept", anyType, 3⟩
  let showing : Expr := .lambda [.parameter y] (.parameter kept) anyFunction
  .lambda [.parameter x]
    (.block [kept] [.binary .assign (.parameter kept) (.parameter x) anyType, showing] anyFunction)
    (.func [anyType] anyFunction)

theorem isolated_keeping : Keeping.function.Isolated := by
  refine ⟨.lambda (.block (List.forall_mem_cons.2 ⟨.assign ?_ (.leaf _), List.forall_mem_singleton.2 ?_⟩)), ?_⟩
  · exact .inr ⟨_, List.mem_cons_self, rfl⟩
  · exact .lambda (.leaf _)
  · simp [Keeping.function, Expr.nodes_eq, Expr.parts, Expr.children, Expr.isForeign]

theorem grounded_keeping : Keeping.function.Grounded .empty (Machine.initial 1) where
  uncached f a t c := by simp [Keeping.function, Expr.nodes_eq, Expr.parts, Expr.children]
  constants v t := by simp [Keeping.function, Expr.nodes_eq, Expr.parts, Expr.children]
  named op a b t pool := by simp [Keeping.function, Expr.nodes_eq, Expr.parts, Expr.children]
  pools := ⟨Nat.le_refl 0, nofun, nofun, 1, rfl⟩

/-- A call of a function with one argument that is no function. -/
def Invocation.ofScalar (id : Nat) (s : Scalar) : Invocation := ⟨3, ⟨.closure id, 0⟩, [⟨.scalar s, 0⟩]⟩

theorem Invocation.known_ofScalar {id : Nat} {s : Scalar} {m : Machine} (there : id < m.functions.size) :
    (Invocation.ofScalar id s).Known m := by
  refine List.forall_mem_cons.2 ⟨?_, List.forall_mem_singleton.2 ?_⟩
  · rintro _ ⟨⟩
    exact there
  · rintro _ ⟨⟩

/-- The machine on which the function that keeps its argument has been made. -/
def Keeping.machine : Machine := (Run.evaluate 2 .empty Keeping.function (Machine.initial 1)).2

def Keeping.callOne : Invocation := .ofScalar 0 (.wrapped ⟨true, .w32⟩ 1)

def Keeping.callTrue : Invocation := .ofScalar 0 (.bool true)

open Keeping (callOne callTrue)

/-- The function that keeps its argument may be called with one and with true, in either order. -/
theorem Expr.Isolated.calls_apart_keeping :
    Keeping.function.Reaches .empty (Machine.initial 1) Keeping.machine ∧
      (∀ f < Keeping.machine.frames.frames.size,
        (callOne.run Keeping.machine).2.frames.get? f = Keeping.machine.frames.get? f) ∧
      ∃ β : Link, (Link.identity ((Machine.initial 1).realm True) Keeping.machine).Within β ∧
        β.Joins ((Machine.initial 1).realm True) (callTrue.run (callOne.run Keeping.machine).2).2
          (callOne.run (callTrue.run Keeping.machine).2).2 ∧
        β.Outcomes β.Values (callOne.run Keeping.machine).1 (callOne.run (callTrue.run Keeping.machine).2).1 ∧
        β.Outcomes β.Values (callTrue.run (callOne.run Keeping.machine).2).1
          (callTrue.run Keeping.machine).1 := by
  have reached : Keeping.function.Reaches .empty (Machine.initial 1) Keeping.machine := .evaluated 2 rfl
  have apart := isolated_keeping.calls_apart reached
  have there : 0 < Keeping.machine.functions.size := by decide +kernel
  exact ⟨reached, apart.1 callOne rfl, apart.2 grounded_keeping callOne callTrue
    (Invocation.known_ofScalar there) (Invocation.known_ofScalar there) rfl rfl nofun nofun⟩

/-! ## Cached calls -/

/-- A choice of two functions that ask one cache for the results of a third one. -/
def SharedCache.choice : Expr :=
  let f : Parameter := ⟨"f", anyFunction, 1⟩
  let g : Parameter := ⟨"g", anyFunction, 2⟩
  let h : Parameter := ⟨"h", anyFunction, 3⟩
  let x : Parameter := ⟨"x", anyType, 4⟩
  let y : Parameter := ⟨"y", anyType, 5⟩
  let z : Parameter := ⟨"z", anyType, 6⟩
  let b : Parameter := ⟨"b", .value .bool, 7⟩
  let ask (a : Parameter) : Expr :=
    .lambda [.parameter a] (.cached (.parameter f) (.parameter a) anyType none) anyFunction
  let set (p : Parameter) (e : Expr) : Expr := .binary .assign (.parameter p) e anyFunction
  .block [f, g, h]
    [set f (.lambda [.parameter x] (.parameter x) anyFunction), set g (ask y), set h (ask z),
      .lambda [.parameter b] (.conditional (.parameter b) (.parameter g) (.parameter h) anyFunction)
        (.func [.value .bool] anyFunction)]
    (.func [.value .bool] anyFunction)

theorem isolated_sharedCache : SharedCache.choice.Isolated := by
  have ask {T : Nat → Prop} {a f : Parameter} {t t' : StaticType} : (Expr.lambda [.parameter a]
      (.cached (.parameter f) (.parameter a) t none) t').AssignsWithin T := by
    refine .lambda (.node rfl (by rintro z ⟨⟩) ?_)
    exact List.forall_mem_cons.2 ⟨.leaf f, List.forall_mem_singleton.2 (.leaf a)⟩
  refine ⟨.block ?_, ?_⟩
  · simp only [List.forall_mem_cons]
    refine ⟨.assign (by simp) (.lambda (.leaf _)), .assign (by simp) ask, .assign (by simp) ask,
      .lambda (.node rfl ?_ ?_), List.forall_mem_nil _⟩
    · rintro z ⟨⟩
    · exact List.forall_mem_cons.2 ⟨.leaf _, List.forall_mem_cons.2 ⟨.leaf _,
        List.forall_mem_singleton.2 (.leaf _)⟩⟩
  · simp [SharedCache.choice, Expr.nodes_eq, Expr.parts, Expr.children, Expr.isForeign]

/-- The machine on which the two functions have been made. -/
def SharedCache.machine : Machine := (Run.evaluate 1 .empty SharedCache.choice (Machine.initial 1)).2

def SharedCache.askOne : Invocation := .ofScalar 1 (.wrapped ⟨true, .w32⟩ 1)

def SharedCache.askTrue : Invocation := .ofScalar 2 (.bool true)

/-- The scalar that a run has ended in. -/
def Outcome.scalar? : Outcome Boxed → Option Scalar
  | .value ⟨.scalar s, _⟩ => some s
  | _ => none

theorem Invocation.Owns.of_scalar [Host] {c : Invocation} {start : Nat} {m : Machine}
    (ended : (Run.callWithin start c.fuel c.function c.arguments m).1.scalar?.isSome = true) :
    c.Owns start m := .of_ended fun out => by
  rw [out] at ended
  cases ended

open SharedCache (askOne askTrue)

/-- With cached calls the order may show: the result that the cache keeps for one is also its answer for
true, and the other way round. -/
theorem sharedCache_shows_order :
    SharedCache.choice.Isolated ∧ SharedCache.choice.Reaches .empty (Machine.initial 1) SharedCache.machine ∧
      askOne.Known SharedCache.machine ∧ askTrue.Known SharedCache.machine ∧
      askOne.Owns 0 SharedCache.machine ∧ askTrue.Owns 0 (askOne.run SharedCache.machine).2 ∧
      askTrue.Owns 0 SharedCache.machine ∧ askOne.Owns 0 (askTrue.run SharedCache.machine).2 ∧
      (askOne.run SharedCache.machine).1.scalar? = some (.wrapped ⟨true, .w32⟩ 1) ∧
      (askTrue.run (askOne.run SharedCache.machine).2).1.scalar? = some (.wrapped ⟨true, .w32⟩ 1) ∧
      (askTrue.run SharedCache.machine).1.scalar? = some (.bool true) ∧
      (askOne.run (askTrue.run SharedCache.machine).2).1.scalar? = some (.bool true) := by
  refine ⟨isolated_sharedCache, .evaluated 1 rfl, ?_, ?_, .of_scalar (by decide +kernel),
    .of_scalar (by decide +kernel), .of_scalar (by decide +kernel), .of_scalar (by decide +kernel),
    by decide +kernel, by decide +kernel, by decide +kernel, by decide +kernel⟩
  · exact Invocation.known_ofScalar (by decide +kernel)
  · exact Invocation.known_ofScalar (by decide +kernel)

end Knot
