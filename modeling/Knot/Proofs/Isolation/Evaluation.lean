import Knot.Proofs.Isolation.Confinement
import Knot.Proofs.Isolation.Restriction

/-!
# Evaluation that leaves older frames alone

A tree whose functions keep to their own variables is confined when it is evaluated in a frame of a realm
(`Run.Confines.eval`): it assigns to the variables that its frame owns, and to those of frames that are
made on the way. What is called are the functions of the realm; calls of anything else are left out
(`Run.callWithin`). A call of such a function assigns to variables of new frames only, so that all frames
that there were stay as they are (`Run.Confines.callWithin`).
-/

namespace Knot

namespace Realm

variable {w : Realm} {n : Nat} {m m' : Machine} {f : FrameId} {context : Context} {e : Expr}

/-- Whether a tree can be evaluated in a frame: from `n` on are the frames that it may change. -/
structure Scoped (w : Realm) (n : Nat) (m : Machine) (f : FrameId) (context : Context) (e : Expr) :
    Prop where
  above : n ≤ m.frames.frames.size
  inside : f < m.frames.frames.size
  base : w.frames ≤ f
  assigns : e.AssignsWithin (m.Owns n f)
  allowed : ∀ x ∈ e.nodes, w.Allows context x

namespace Scoped

theorem allowed_self (h : w.Scoped n m f context e) : w.Allows context e := h.allowed e e.mem_nodes_self

/-- What is allowed for in a tree is so in its parts. -/
theorem allowed_part (h : w.Scoped n m f context e) {c : Expr} (part : c ∈ e.parts) :
    ∀ x ∈ c.nodes, w.Allows context x := fun x inside => h.allowed x (Expr.mem_nodes_of_part part inside)

theorem child (h : w.Scoped n m f context e) (other : e.opensScope = false) :
    ∀ c ∈ e.children, w.Scoped n m f context c := fun c child =>
  ⟨h.above, h.inside, h.base, h.assigns.children other c child,
    h.allowed_part (Expr.mem_parts_of_mem_children child)⟩

theorem later (h : w.Scoped n m f context e) (later : m.Extends m') : w.Scoped n m' f context e := by
  refine ⟨Nat.le_trans h.above later.frames, Nat.lt_of_lt_of_le h.inside later.frames, h.base,
    h.assigns.imp fun u own home found => ?_, h.allowed⟩
  rw [later.home f h.inside] at found
  exact own home found

end Scoped

/-- A call that is put off, of which the arguments are known. -/
def KnowsCall (w : Realm) (m : Machine) : Deferred → Prop
  | .call _ values => ∀ v ∈ values, w.Knows m v
  | .cached _ _ _ => ¬ w.clean

theorem KnowsCall.later {call : Deferred} (h : w.KnowsCall m call) (later : m.Extends m') :
    w.KnowsCall m' call := by
  cases call with
  | call function values => exact fun v member => (h v member).later later
  | cached => exact h

end Realm

namespace Run.Confines

open Realm

variable {w : Realm} {n : Nat}

section

variable [Host] {start : Machine} {frame : FrameId} {i : Interpreter} {fuel : Nat} {context : Context}

theorem evalAll {es : List Expr}
    (each : ∀ e ∈ es, Confines w n start w.Knows (e.eval i fuel context frame)) :
    Confines w n start (fun m vs => ∀ v ∈ vs, w.Knows m v) (Expr.evalAll i fuel context frame es) := by
  induction es with
  | nil => exact of_pure fun _ _ => List.forall_mem_nil _
  | cons e es ih =>
    obtain ⟨first, rest⟩ := List.forall_mem_cons.1 each
    refine first.bind fun next v later known => ((ih rest).later later).bind fun last vs further all => ?_
    exact of_pure fun m more => List.forall_mem_cons.2
      ⟨known.later (further.trans more), fun v member => (all v member).later more⟩

theorem evalOption {d : Option Expr}
    (each : ∀ e ∈ d.toList, Confines w n start w.Knows (e.eval i fuel context frame)) :
    Confines w n start w.Knows (Expr.evalOption i fuel context frame d) := by
  cases d with
  | none => exact of_pure fun m _ => knows_none m
  | some e => exact each e List.mem_cons_self

theorem runBlock {es : List Expr}
    (each : ∀ e ∈ es, Confines w n start w.Knows (e.eval i fuel context frame)) :
    Confines w n start w.Knows (Step.runBlock fuel (Expr.steps i fuel context frame es)) := by
  have steps : ∀ s ∈ Expr.steps i fuel context frame es, Confines w n start w.Knows s.run := by
    intro s inside
    rw [Expr.steps_eq_map] at inside
    obtain ⟨e, member, rfl⟩ := List.mem_map.1 inside
    exact each e member
  exact runFrom fuel steps steps (knows_none start)

/-- What is evaluated of a call that is put off. -/
theorem putOff {e : Expr} (allowed : w.Allows context e)
    (each : ∀ c ∈ e.children, Confines w n start w.Knows (c.eval i fuel context frame)) :
    Confines w n start w.KnowsCall (e.putOff i fuel context frame) := by
  cases e with
  | invoke f args t =>
    have callee := each f List.mem_cons_self
    have arguments := evalAll fun a member => each a (List.mem_cons_of_mem _ member)
    refine callee.bind fun next function later _ => (arguments.later later).bind fun last vs _ all => ?_
    exact of_pure fun m more v member => (all v member).later more
  | cached f a t cache =>
    have callee := each f List.mem_cons_self
    have argument := each a (List.mem_cons_of_mem _ List.mem_cons_self)
    exact callee.andThen fun function => argument.andThen fun v => of_pure fun _ _ => allowed
  | _ => exact fail _

omit [Host] in
/-- A closure keeps to its own variables. -/
theorem closure {ps : List Expr} {a : Expr} {t : StaticType}
    (fits : w.Scoped n start frame context (.lambda ps a t)) :
    Confines w n start w.Knows (Run.closure context frame ps a) := by
  unfold Run.closure
  split
  next xs parameters =>
    refine newFunction ⟨_, _, _, _, rfl, ⟨fits.assigns.body.imp ?_, ?_⟩, fits.base, fits.inside⟩
    · rintro u ⟨x, declared, rfl⟩
      exact List.mem_map.2 ⟨x, Expr.mem_of_mapM_parameter? parameters declared, rfl⟩
    · exact fits.allowed_part (Expr.mem_parts_of_mem_children List.mem_cons_self)
  next => exact fail _

end

section

variable {call : Caller} (calls : ∀ {start : Machine} (f : Boxed) (args : List Boxed),
    n ≤ start.frames.frames.size → (∀ v ∈ args, w.Knows start v) →
      Confines w n start w.Knows (call f args))
include calls

theorem deferred {start : Machine} (above : n ≤ start.frames.frames.size) {c : Deferred}
    (known : w.KnowsCall start c) : Confines w n start w.Knows (c.run ⟨call, Run.applyUnary⟩) := by
  cases c with
  | call function values => exact calls function values above known
  | cached cache function argument =>
    exact lookupOrCompute known (calls function [argument] above fun _ _ clean => absurd clean known)

/-- A node is confined if its children are, also where a child is put off. -/
theorem node [Host] {start : Machine} {fuel : Nat} {context : Context} {frame : FrameId} {e : Expr}
    (fits : w.Scoped n start frame context e)
    (inside : ∀ c ∈ e.children, ∀ {next inner}, w.Scoped n next inner context c →
      Confines w n next w.Knows (c.eval ⟨call, Run.applyUnary⟩ fuel context inner))
    (later : ∀ c ∈ e.children, ∀ {next}, w.Scoped n next frame context c →
      Confines w n next w.KnowsCall (c.putOff ⟨call, Run.applyUnary⟩ fuel context frame)) :
    Confines w n start w.Knows (e.eval ⟨call, Run.applyUnary⟩ fuel context frame) := by
  have allowed := fits.allowed_self
  have below (other : e.opensScope = false) : ∀ c ∈ e.children,
      Confines w n start w.Knows (c.eval ⟨call, Run.applyUnary⟩ fuel context frame) :=
    fun c child => inside c child (fits.child other c child)
  cases e with
  | constant v t =>
    refine of_still (fun m => .refl m) fun m _ holds clean id names => ?_
    exact Nat.lt_of_lt_of_le (allowed clean id names) holds.functions
  | parameter x => exact lookup x fits.base
  | unary op a t =>
    exact (below rfl a List.mem_cons_self).bind fun next v _ known => applyUnary op a.type t known
  | binary op a c t =>
    have left := below rfl a List.mem_cons_self
    have right := below rfl c (List.mem_cons_of_mem _ List.mem_cons_self)
    by_cases assignment : op = .assign
    · subst assignment
      cases a with
      | parameter x =>
        refine right.bind fun next v later known => ?_
        -- the variable is found in a frame of the realm, since the tree assigns only its own
        have there := fits.later later
        refine (assign there.inside there.assigns.target known).bind fun last _ further _ => ?_
        exact of_pure fun m more => known.later (further.trans more)
      | _ => exact fail _
    · cases strict : op.isShortCircuit with
      | false =>
        rw [Expr.eval_binary_of_strict _ _ _ _ assignment strict]
        exact left.andThen fun v => right.andThen fun w => applyBinary op v w
      | true =>
        cases op with
        | andAlso => exact left.andThen fun v => ite (right.andThen fun w => truth _) (truth _)
        | orElse => exact left.andThen fun v => ite (truth _) (right.andThen fun w => truth _)
        | _ => cases strict
  | conditional a c d t =>
    have ifTrue := below rfl c (by simp [Expr.children])
    have ifFalse := below rfl d (by simp [Expr.children])
    exact (below rfl a List.mem_cons_self).andThen fun v => ite ifTrue ifFalse
  | invoke f args t =>
    have callee := below rfl f List.mem_cons_self
    have arguments := evalAll fun a member => below rfl a (List.mem_cons_of_mem _ member)
    refine callee.bind fun next function later _ => ?_
    refine (arguments.later later).bind fun last values further known => ?_
    exact calls function values (fits.later (later.trans further)).above known
  | member a name t => exact absurd allowed id
  | hostCall f args t => exact absurd allowed id
  | block vs es t =>
    refine blockFrame_bind fits.inside fits.base fits.above fun next inner later new base owns =>
      runBlock fun c member => ?_
    -- the variables that the block declares are found in its frame, which is new
    refine inside c member ⟨Nat.le_trans fits.above later.frames, new, base,
      (fits.assigns.steps c member).imp owns, ?_⟩
    exact fits.allowed_part (Expr.mem_parts_of_mem_children member)
  | label l d t => exact evalOption (below rfl)
  | goto k l v t =>
    exact (evalOption (below rfl)).bind fun next w _ known =>
      done (o := .jump l.uid w) fun m more => Realm.Knows.later known more
  | loop a c d t => exact loop _ _ fuel (below rfl a List.mem_cons_self)
  | lambda ps a t => exact closure fits
  | cached f a t cache =>
    have callee := below rfl f List.mem_cons_self
    have argument := below rfl a (List.mem_cons_of_mem _ List.mem_cons_self)
    refine callee.bind fun next function later _ => ?_
    refine (argument.later later).bind fun last v further known => ?_
    exact lookupOrCompute allowed (calls function [v] (fits.later (later.trans further)).above
      (List.forall_mem_singleton.2 known))
  | parallel op a c t pool =>
    have first : a ∈ (Expr.parallel op a c t pool).children := List.mem_cons_self
    have last : c ∈ (Expr.parallel op a c t pool).children := List.mem_cons_of_mem _ List.mem_cons_self
    rw [Expr.eval_parallel]
    refine (later a first (fits.child rfl a first)).bind fun next call grown known => ?_
    refine (later c last ((fits.later grown).child rfl c last)).bind fun end' call' more known' => ?_
    have above := (fits.later (grown.trans more)).above
    exact splitBinary allowed (deferred calls above (known.later more)) (deferred calls above known')
  | strange v t => exact fail _
  | bare t => exact fail _

/-- The evaluation of a tree in a frame of the realm. -/
theorem eval [Host] {start : Machine} {fuel : Nat} {context : Context} {frame : FrameId} {e : Expr}
    (fits : w.Scoped n start frame context e) :
    Confines w n start w.Knows (e.eval ⟨call, Run.applyUnary⟩ fuel context frame) := by
  -- a split evaluates the parts of the calls that it has for operands, so both are proved together
  suffices both : ∀ {start frame}, w.Scoped n start frame context e →
      Confines w n start w.Knows (e.eval ⟨call, Run.applyUnary⟩ fuel context frame) ∧
      (e.opensScope = false →
        Confines w n start w.KnowsCall (e.putOff ⟨call, Run.applyUnary⟩ fuel context frame))
    from (both fits).1
  clear fits
  induction e using Expr.of_children with
  | node e ih =>
    intro start frame fits
    have inside : ∀ c ∈ e.children, ∀ {next inner}, w.Scoped n next inner context c →
        Confines w n next w.Knows (c.eval ⟨call, Run.applyUnary⟩ fuel context inner) :=
      fun c child _ _ there => (ih c child there).1
    refine ⟨node calls fits inside fun c child next there => ?_, fun other =>
      putOff fits.allowed_self fun c child => inside c child (fits.child other c child)⟩
    cases opens : c.opensScope with
    | false => exact (ih c child there).2 opens
    | true =>
      cases c with
      | block | lambda => exact fail _
      | _ => cases opens

/-- A call of a function of the realm, in which only new frames are changed. -/
theorem apply [Host] {start : Machine} {fuel : Nat} {c : Callable} (own : w.Contains start c)
    {args : List Boxed} (above : n ≤ start.frames.frames.size) (known : ∀ v ∈ args, w.Knows start v) :
    Confines w n start w.Knows (Run.apply ⟨call, Run.applyUnary⟩ fuel c args) := by
  obtain ⟨ps, body, frame, context, rfl, keeps, base, inside⟩ := own
  rw [Run.apply]
  split
  next counted =>
    refine openFrame_bind inside base above (fun b member => known b.2 (List.of_mem_zip member).2)
      fun next inner later new there owns => sealed (eval calls ?_)
    refine ⟨Nat.le_trans above later.frames, new, there, keeps.assigns.imp fun u parameter => ?_,
      keeps.allowed⟩
    refine owns u (.inl ?_)
    rw [List.map_fst_zip (Nat.le_of_eq counted.symm)]
    exact parameter
  next => exact fail _

end

/-- A call changes no frame that there was, however deep calls nest, by induction on that. -/
theorem callWithin [Host] (fuel : Nat) : ∀ {start : Machine} (f : Boxed) (args : List Boxed),
    n ≤ start.frames.frames.size → (∀ v ∈ args, w.Knows start v) →
      Confines w n start w.Knows (Run.callWithin w.functions fuel f args) := by
  induction fuel with
  | zero => exact fun f args _ _ => exhausted
  | succ fuel ih =>
    intro start f args above known
    unfold Run.callWithin
    split
    next id names =>
      split
      next own =>
        refine callable_bind own fun next c later contained => ?_
        exact apply ih contained (Nat.le_trans above later.frames) fun v member =>
          (known v member).later later
      next => exact exhausted
    next => exact exhausted

end Run.Confines

end Knot
