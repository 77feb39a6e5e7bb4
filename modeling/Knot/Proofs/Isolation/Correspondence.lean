import Knot.Proofs.Isolation.Agreement

/-!
# Evaluation on machines that stand for one another

A tree of a clean realm, evaluated in frames that stand for one another, does the same on both machines
(`Run.Agrees.eval`), if calls do; and calls of functions that stand for one another do
(`Run.steady_callWithin`). As such calls change no frame that there was, two of them may be made in either
order.
-/

namespace Knot

namespace Link

/-- Two calls that are put off, of functions and arguments that are alike. -/
inductive Pending (β : Link) : Deferred → Deferred → Prop
  | call {f f' : Boxed} {args args' : List Boxed} (callee : β.Values f f')
      (arguments : List.Forall₂ β.Values args args') : β.Pending (.call f args) (.call f' args')

theorem Pending.later {β γ : Link} {c c' : Deferred} (h : β.Pending c c') (within : β.Within γ) :
    γ.Pending c c' := by
  cases h with
  | call callee arguments =>
    exact .call (callee.later within) (arguments.imp fun _ _ alike => alike.later within)

/-- Variables that are bound to values that are alike. -/
theorem bindings_zip {β : Link} {vs vs' : List Boxed} (us : List Nat)
    (alike : List.Forall₂ β.Values vs vs') : List.Forall₂ β.Bindings (us.zip vs) (us.zip vs') := by
  induction alike generalizing us with
  | nil =>
    rw [List.zip_nil_right]
    exact .nil
  | cons first _ ih =>
    cases us with
    | nil => exact .nil
    | cons u us => exact .cons ⟨rfl, first⟩ (ih us)

end Link

/-- A tree that a realm can evaluate in whatever frame of it. -/
structure Realm.Suits (w : Realm) (context : Context) (e : Expr) : Prop where
  assigns : ∃ T, e.AssignsWithin T
  allowed : ∀ x ∈ e.nodes, w.Allows context x

namespace Realm.Suits

variable {w : Realm} {context : Context} {e : Expr} (h : w.Suits context e)
include h

theorem allowed_self : w.Allows context e := h.allowed e e.mem_nodes_self

theorem allowed_child {c : Expr} (child : c ∈ e.children) : ∀ x ∈ c.nodes, w.Allows context x :=
  fun x inside => h.allowed x (Expr.mem_nodes_of_part (Expr.mem_parts_of_mem_children child) inside)

theorem child : ∀ c ∈ e.children, w.Suits context c := by
  intro c child
  refine ⟨?_, h.allowed_child child⟩
  obtain ⟨T, assigns⟩ := h.assigns
  cases e with
  | block vs es t => exact ⟨_, assigns.steps c child⟩
  | lambda ps a t =>
    obtain rfl := List.mem_singleton.1 child
    exact ⟨_, assigns.body⟩
  | _ => exact ⟨T, assigns.children rfl c child⟩

end Realm.Suits

namespace Run.Agrees

open Link (Values Pending)

variable {w : Realm}

section

variable [Host] {β : Link} {f g : FrameId} {i : Interpreter} {fuel : Nat} {context : Context}

theorem evalAll {es : List Expr}
    (each : ∀ e ∈ es, Agrees w β Values (e.eval i fuel context f) (e.eval i fuel context g)) :
    Agrees w β (fun γ => List.Forall₂ γ.Values) (Expr.evalAll i fuel context f es)
      (Expr.evalAll i fuel context g es) := by
  induction es with
  | nil => exact of_pure fun _ _ => .nil
  | cons e es ih =>
    obtain ⟨first, rest⟩ := List.forall_mem_cons.1 each
    refine first.bind fun γ v v' within alike => ((ih rest).later within).bind fun δ vs vs' larger all => ?_
    exact of_pure fun ε more => .cons (alike.later (larger.trans more))
      (all.imp fun _ _ both => both.later more)

theorem evalOption {d : Option Expr}
    (each : ∀ e ∈ d.toList, Agrees w β Values (e.eval i fuel context f) (e.eval i fuel context g)) :
    Agrees w β Values (Expr.evalOption i fuel context f d) (Expr.evalOption i fuel context g d) := by
  cases d with
  | none => exact of_pure fun _ _ => .none
  | some e => exact each e List.mem_cons_self

theorem runBlock {es : List Expr}
    (each : ∀ e ∈ es, Agrees w β Values (e.eval i fuel context f) (e.eval i fuel context g)) :
    Agrees w β Values (Step.runBlock fuel (Expr.steps i fuel context f es))
      (Step.runBlock fuel (Expr.steps i fuel context g es)) := by
  have steps : List.Forall₂ (Steps w β) (Expr.steps i fuel context f es)
      (Expr.steps i fuel context g es) := by
    rw [Expr.steps_eq_map, Expr.steps_eq_map, List.forall₂_map_left_iff, List.forall₂_map_right_iff]
    exact List.forall₂_same.2 fun e member => ⟨rfl, each e member⟩
  exact runFrom fuel steps steps .none

/-- What is evaluated of a call that is put off. -/
theorem putOff {e : Expr} (clean : w.clean) (allowed : w.Allows context e)
    (each : ∀ c ∈ e.children, Agrees w β Values (c.eval i fuel context f) (c.eval i fuel context g)) :
    Agrees w β Pending (e.putOff i fuel context f) (e.putOff i fuel context g) := by
  cases e with
  | invoke h args t =>
    have callee := each h List.mem_cons_self
    have arguments := evalAll fun a member => each a (List.mem_cons_of_mem _ member)
    refine callee.bind fun γ v v' within alike => (arguments.later within).bind fun δ vs vs' larger all => ?_
    exact of_pure fun ε more => .call (alike.later (larger.trans more))
      (all.imp fun _ _ both => both.later more)
  | cached => exact absurd clean allowed
  | _ => exact fail _

omit [Host] in
/-- A closure keeps to its own variables. -/
theorem closure {ps : List Expr} {a : Expr} {t : StaticType} (linked : β.frames f g)
    (suits : w.Suits context (.lambda ps a t)) :
    Agrees w β Values (Run.closure context f ps a) (Run.closure context g ps a) := by
  unfold Run.closure
  split
  next xs parameters =>
    obtain ⟨T, assigns⟩ := suits.assigns
    refine newFunction linked ⟨assigns.body.imp ?_, suits.allowed_child List.mem_cons_self⟩
    rintro u ⟨x, declared, rfl⟩
    exact List.mem_map.2 ⟨x, Expr.mem_of_mapM_parameter? parameters declared, rfl⟩
  next => exact fail _

omit [Host] in
/-- A constant names no function of the realm. -/
theorem constant {v : Boxed} (old : ∀ id, v.value = .closure id → id < w.functions) :
    Agrees w β Values (pure v) (pure v) := by
  refine of_still (fun m => .refl m) (fun m => .refl m) fun γ m m' _ joins _ => .value ?_
  obtain ⟨value, a⟩ := v
  by_cases function : ∃ id, value = .closure id
  · obtain ⟨id, rfl⟩ := function
    exact .closure (joins.old id (old id rfl))
  · exact .plain rfl fun id names => function ⟨id, names⟩

end

section

variable {call : Caller} (clean : w.clean) (calls : ∀ {β : Link} {f f' : Boxed} {args args' : List Boxed},
    β.Values f f' → List.Forall₂ β.Values args args' → Steady w β (call f args) (call f' args'))
include clean calls

omit clean in
theorem deferred {β : Link} {c c' : Deferred} (alike : β.Pending c c') :
    Steady w β (c.run ⟨call, Run.applyUnary⟩) (c'.run ⟨call, Run.applyUnary⟩) := by
  cases alike with
  | call callee arguments => exact calls callee arguments

/-- A node does the same if its children do, also where a child is put off. -/
theorem node [Host] {β : Link} {f g : FrameId} {fuel : Nat} {context : Context} {e : Expr}
    (linked : β.frames f g) (suits : w.Suits context e)
    (inside : ∀ c ∈ e.children, ∀ {γ : Link} {f g}, γ.frames f g →
      Agrees w γ Values (c.eval ⟨call, Run.applyUnary⟩ fuel context f)
        (c.eval ⟨call, Run.applyUnary⟩ fuel context g))
    (later : ∀ c ∈ e.children, ∀ {γ : Link}, γ.frames f g →
      Agrees w γ Pending (c.putOff ⟨call, Run.applyUnary⟩ fuel context f)
        (c.putOff ⟨call, Run.applyUnary⟩ fuel context g)) :
    Agrees w β Values (e.eval ⟨call, Run.applyUnary⟩ fuel context f)
      (e.eval ⟨call, Run.applyUnary⟩ fuel context g) := by
  have allowed := suits.allowed_self
  have below : ∀ c ∈ e.children, Agrees w β Values (c.eval ⟨call, Run.applyUnary⟩ fuel context f)
      (c.eval ⟨call, Run.applyUnary⟩ fuel context g) := fun c child => inside c child linked
  -- The link grows with what either side makes, so each part is met with the link that the parts before
  -- it have left, and what was alike by a smaller link still is.
  cases e with
  | constant v t => exact constant (allowed clean)
  | parameter x => exact lookup x linked
  | unary op a t =>
    exact (below a List.mem_cons_self).bind fun γ v v' _ alike => applyUnary op a.type t alike
  | binary op a c t =>
    have left := below a List.mem_cons_self
    have right := below c (List.mem_cons_of_mem _ List.mem_cons_self)
    by_cases assignment : op = .assign
    · subst assignment
      cases a with
      | parameter x =>
        refine right.bind fun γ v v' within alike => ?_
        refine (assign (within.frames linked) alike).bind fun δ _ _ larger _ => ?_
        exact of_pure fun ε more => alike.later (larger.trans more)
      | _ => exact fail _
    · cases strict : op.isShortCircuit with
      | false =>
        rw [Expr.eval_binary_of_strict _ _ _ _ assignment strict,
          Expr.eval_binary_of_strict _ _ _ _ assignment strict]
        refine left.bind fun γ v v' within alike => (right.later within).bind fun δ u u' larger alike' => ?_
        exact applyBinary op (alike.later larger) alike'
      | true =>
        have second {γ : Link} (within : β.Within γ) : Agrees w γ Values
            (c.eval ⟨call, Run.applyUnary⟩ fuel context f >>= fun u => Run.truth u.value.truthy)
            (c.eval ⟨call, Run.applyUnary⟩ fuel context g >>= fun u => Run.truth u.value.truthy) :=
          (right.later within).bind fun δ u u' _ alike => by
            rw [alike.truthy]
            exact truth _
        cases op with
        | andAlso =>
          refine left.bind fun γ v v' within alike => ?_
          rw [alike.truthy]
          exact ite (second within) (truth _)
        | orElse =>
          refine left.bind fun γ v v' within alike => ?_
          rw [alike.truthy]
          exact ite (truth _) (second within)
        | _ => cases strict
  | conditional a c d t =>
    have ifTrue := below c (by simp [Expr.children])
    have ifFalse := below d (by simp [Expr.children])
    refine (below a List.mem_cons_self).bind fun γ v v' within alike => ?_
    rw [alike.truthy]
    exact ite (ifTrue.later within) (ifFalse.later within)
  | invoke h args t =>
    have callee := below h List.mem_cons_self
    have arguments := evalAll fun a member => below a (List.mem_cons_of_mem _ member)
    refine callee.bind fun γ v v' within alike => ?_
    refine (arguments.later within).bind fun δ vs vs' larger all => ?_
    exact (calls (alike.later larger) all).agrees
  -- nothing of the host is in an isolated tree
  | member a name t => exact absurd allowed id
  | hostCall h args t => exact absurd allowed id
  | block vs es t =>
    exact blockFrame_bind linked fun γ inner inner' _ there => runBlock fun c member =>
      inside c member there
  | label l d t => exact evalOption below
  | goto k l v t =>
    exact (evalOption below).bind fun γ u u' _ alike =>
      done (.jump l.uid u) (.jump l.uid u') fun δ larger => .jump l.uid (alike.later larger)
  | loop a c d t => exact loop _ _ fuel (below a List.mem_cons_self)
  | lambda ps a t => exact closure linked suits
  -- in a clean realm nothing is cached, as the cache would tell one order from the other
  | cached h a t cache => exact absurd clean allowed
  | parallel op a c t pool =>
    have last : c ∈ (Expr.parallel op a c t pool).children := List.mem_cons_of_mem _ List.mem_cons_self
    rw [Expr.eval_parallel, Expr.eval_parallel]
    refine (later a List.mem_cons_self linked).bind fun γ x x' within alike => ?_
    refine (later c last (within.frames linked)).bind fun δ y y' larger alike' => ?_
    exact splitBinary op (allowed clean) (deferred calls (alike.later larger)) (deferred calls alike')
  | strange v t => exact fail _
  | bare t => exact fail _

/-- The evaluation of a tree in frames that stand for one another. -/
theorem eval [Host] {β : Link} {f g : FrameId} {fuel : Nat} {context : Context} {e : Expr}
    (linked : β.frames f g) (suits : w.Suits context e) :
    Agrees w β Values (e.eval ⟨call, Run.applyUnary⟩ fuel context f)
      (e.eval ⟨call, Run.applyUnary⟩ fuel context g) := by
  -- a split evaluates the parts of the calls that it has for operands, so both are proved together
  suffices both : ∀ {β : Link} {f g}, β.frames f g →
      Agrees w β Values (e.eval ⟨call, Run.applyUnary⟩ fuel context f)
        (e.eval ⟨call, Run.applyUnary⟩ fuel context g) ∧
      Agrees w β Pending (e.putOff ⟨call, Run.applyUnary⟩ fuel context f)
        (e.putOff ⟨call, Run.applyUnary⟩ fuel context g)
    from (both linked).1
  clear linked
  induction e using Expr.of_children with
  | node e ih =>
    intro β f g linked
    have inside : ∀ c ∈ e.children, ∀ {γ : Link} {f g}, γ.frames f g →
        Agrees w γ Values (c.eval ⟨call, Run.applyUnary⟩ fuel context f)
          (c.eval ⟨call, Run.applyUnary⟩ fuel context g) :=
      fun c child _ _ _ there => (ih c child (suits.child c child) there).1
    exact ⟨node clean calls linked suits inside fun c child _ there =>
        (ih c child (suits.child c child) there).2,
      putOff clean suits.allowed_self fun c child => inside c child linked⟩

/-- A call of functions of one body in frames that stand for one another. -/
theorem apply [Host] {β : Link} {fuel : Nat} {ps : List Nat} {body : Expr} {f g : FrameId} {context : Context}
    {args args' : List Boxed} (linked : β.frames f g) (keeps : w.Keeps ps body context)
    (alike : List.Forall₂ β.Values args args') :
    Agrees w β Values (Run.apply ⟨call, Run.applyUnary⟩ fuel (.closure ps body f context) args)
      (Run.apply ⟨call, Run.applyUnary⟩ fuel (.closure ps body g context) args') := by
  rw [Run.apply, Run.apply, alike.length_eq]
  split
  next =>
    exact openFrame_bind linked (Link.bindings_zip ps alike) fun γ inner inner' _ there =>
      sealed (eval clean calls there ⟨⟨_, keeps.assigns⟩, keeps.allowed⟩)
  next => exact fail _

end

end Run.Agrees

/-- Calls of functions that stand for one another agree and change no frame that there was, by induction on
how deep calls nest. -/
theorem Run.steady_callWithin [Host] {w : Realm} (clean : w.clean) (fuel : Nat) :
    ∀ {β : Link} {f f' : Boxed} {args args' : List Boxed}, β.Values f f' →
      List.Forall₂ β.Values args args' → Steady w β (Run.callWithin w.functions fuel f args)
        (Run.callWithin w.functions fuel f' args') := by
  induction fuel with
  | zero =>
    exact fun _ _ => ⟨.exhausted, fun _ _ => .exhausted, fun _ _ => .exhausted⟩
  | succ fuel ih =>
    intro β f f' args args' callee alike
    have known {γ : Link} {m m' : Machine} (within : β.Within γ) (joins : γ.Joins w m m') :
        (∀ v ∈ args, w.Knows m v) ∧ ∀ v ∈ args', w.Knows m' v :=
      forall_mem_of_forall₂ alike fun both =>
        (joins.known (both.later within)).imp (fun known _ => known) fun known _ => known
    refine ⟨fun γ m m' within joins ended => ?_,
      fun within joins => Confines.callWithin _ f args (Nat.le_refl _) (known within joins).1,
      fun within joins => Confines.callWithin _ f' args' (Nat.le_refl _) (known within joins).2⟩
    cases callee with
    -- only a closure runs: anything else is left out, and does not end
    | plain same noFunction =>
      obtain ⟨value, a⟩ := f
      cases value with
      | closure id => exact absurd rfl (noFunction id)
      | _ => exact absurd rfl ended
    | @closure i j a b linked =>
      simp only [Run.callWithin] at ended ⊢
      rcases joins.functions (within.functions linked) with
        ⟨rfl, before⟩ | ⟨above, above', c, d, found, found', same⟩
      -- a function from before the realm is left out as well
      · rw [if_neg (Nat.not_le_of_lt before)] at ended
        exact absurd rfl ended
      · rw [if_pos above, Run.bind_of_value (Run.callable_of_some found)] at ended ⊢
        rw [if_pos above', Run.bind_of_value (Run.callable_of_some found')]
        obtain ⟨ps, body, frame, context, rfl, keeps, -⟩ := joins.left.closures i c above found
        cases same with
        | closure there =>
          exact Agrees.apply clean ih there keeps (alike.imp fun _ _ both => both.later within) γ m m'
            (.refl γ) joins ended

end Knot
