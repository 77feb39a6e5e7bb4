import Knot.Proofs.Apart
import Knot.Proofs.Binding.Trees
import Knot.Proofs.Endings
import Knot.Proofs.Scopes
import Mathlib.Data.List.Induction

/-!
# Runs that keep a variable bound

A frame binds a variable to a value (`Binding`), and no function of the machine can assign to it: where
the variable is seen, a body spares it (`Binding.Holds`). A run keeps that so, on a machine that only
grows (`Run.Keeps`), if each of its steps does; the judgement passes through the ways to compose runs.
-/

namespace Knot

/-! ## Machines that grow -/

namespace Frames

/-- A variable has its home in a new frame that binds it, and else where its parent sees it. -/
theorem home?_push_new {h : Frames} {parent : Nat} (existing : parent < h.frames.size)
    (bindings : List (Nat × Boxed)) (u : Nat) :
    (h.push (some parent) bindings).2.home? h.frames.size u =
      if (Frame.ofBindings (some parent) bindings).declares u then some h.frames.size
      else h.home? parent u := by
  have here : (h.push (some parent) bindings).2.get? h.frames.size =
      some (Frame.ofBindings (some parent) bindings) := by
    rw [get?_push, if_pos rfl]
    simp only [Frames.existing, Option.filter, existing, decide_true, if_true]
  have above : (h.push (some parent) bindings).2.homeFrom u h.frames.size parent =
      h.home? parent u := (homeFrom_push _ _ existing).trans (homeFrom_of_lt existing)
  unfold home? homeFrom
  rw [here]
  simp only [Frame.parent_ofBindings, above]
  rfl

end Frames

/-- A frame binds what it is made with. -/
theorem Frame.declares_ofBindings (parent : Option FrameId) (bindings : List (Nat × Boxed)) (u : Nat) :
    (ofBindings parent bindings).declares u = true ↔ u ∈ bindings.map Prod.fst := by
  induction bindings using List.reverseRecOn with
  | nil => simp [ofBindings, declares, get?]
  | append_singleton front b ih =>
    unfold ofBindings at ih ⊢
    rw [List.foldl_append, List.foldl_cons, List.foldl_nil, declares_set, Bool.or_eq_true, ih]
    simp [or_comm]

/-- What a machine has, a later one has as well: the functions, and the frames, from which a variable is
found where it was found. -/
structure Machine.Extends (m m' : Machine) : Prop where
  functions : ∀ (id : Nat) c, m.functions[id]? = some c → m'.functions[id]? = some c
  frames : m.frames.frames.size ≤ m'.frames.frames.size
  home : ∀ f < m.frames.frames.size, ∀ u, m'.frames.home? f u = m.frames.home? f u

namespace Machine.Extends

variable {m m' m'' : Machine}

theorem of_eq (functions : m'.functions = m.functions) (frames : m'.frames = m.frames) :
    m.Extends m' := by
  refine ⟨?_, ?_, ?_⟩
  · simp [functions]
  · simp [frames]
  · simp [frames]

theorem refl (m : Machine) : m.Extends m := of_eq rfl rfl

theorem trans (first : m.Extends m') (second : m'.Extends m'') : m.Extends m'' where
  functions id c found := second.functions id c (first.functions id c found)
  frames := Nat.le_trans first.frames second.frames
  home f old u :=
    (second.home f (Nat.lt_of_lt_of_le old first.frames) u).trans (first.home f old u)

/-- An assignment moves no variable. -/
theorem assign {f : FrameId} {u : Nat} {v : Boxed} {frames : Frames}
    (done : m.frames.assign f u v = some frames) : m.Extends { m with frames := frames } := by
  unfold Frames.assign at done
  obtain ⟨home, found, rfl⟩ := Option.map_eq_some_iff.1 done
  obtain ⟨frame, here, declared⟩ := Frames.homeFrom_declares found
  refine ⟨fun _ _ => id, ?_, fun g _ w => Frames.homeFrom_set here declared v w (g + 1) g⟩
  simp [Frames.set]

/-- No old frame notices a new one. -/
theorem push (m : Machine) (parent : Option FrameId) (bindings : List (Nat × Boxed)) :
    m.Extends { m with frames := (m.frames.push parent bindings).2 } where
  functions _ _ := id
  frames := by
    unfold Frames.push
    simp only [Array.size_push]
    omega
  home _ old _ := Frames.homeFrom_push parent bindings old

theorem addFunction (m : Machine) (c : Callable) :
    m.Extends { m with functions := m.functions.push c } where
  functions id c found := by
    have inside := (Array.getElem?_eq_some_iff.1 found).1
    rw [Array.getElem?_push, if_neg (Nat.ne_of_lt inside), found]
  frames := Nat.le_refl _
  home _ _ _ := rfl

end Machine.Extends

/-! ## Bindings -/

/-- A variable, the frame that declares it, and the value that it has there. -/
structure Binding where
  frame : FrameId
  uid : Nat
  value : Boxed

namespace Binding

variable {b : Binding} {m m' : Machine} {f : FrameId} {e : Expr} {c : Callable}

/-- Whether the variable, looked up from a frame, is found in the frame of the binding. -/
def Seen (b : Binding) (m : Machine) (f : FrameId) : Prop := m.frames.home? f b.uid = some b.frame

/-- Whether the tree, evaluated in a frame, assigns to other variables only. -/
structure Spared (b : Binding) (m : Machine) (f : FrameId) (e : Expr) : Prop where
  inside : f < m.frames.frames.size
  tree : b.Seen m f → e.Spares (·.uid = b.uid)

/-- Whether the body of a function assigns to other variables only. -/
def SparedBy (b : Binding) (m : Machine) : Callable → Prop
  | .closure ps body frame _ =>
    frame < m.frames.frames.size ∧ (b.uid ∉ ps → b.Seen m frame → body.Spares (·.uid = b.uid))
  | .collector _ _ | .thunk _ | .wrapper _ => True

/-- The frame binds the variable to the value, and no function can change that. -/
structure Holds (b : Binding) (m : Machine) : Prop where
  bound : (m.frames.get? b.frame).bind (fun frame => frame.get? b.uid) = some b.value
  functions : ∀ c ∈ m.functions, b.SparedBy m c

theorem seen_iff (later : m.Extends m') (inside : f < m.frames.frames.size) :
    b.Seen m' f ↔ b.Seen m f := by
  unfold Seen
  rw [later.home f inside]

theorem SparedBy.later (h : b.SparedBy m c) (later : m.Extends m') : b.SparedBy m' c := by
  cases c with
  | closure ps body frame context =>
    exact ⟨Nat.lt_of_lt_of_le h.1 later.frames, fun unbound seen =>
      h.2 unbound ((seen_iff later h.1).1 seen)⟩
  | _ => trivial

/-- What is spared in a tree is spared in its children, but for the body of a function. -/
theorem Spared.child (h : b.Spared m f e) (other : ∀ ps a t, e ≠ .lambda ps a t) :
    ∀ c ∈ e.children, b.Spared m f c :=
  fun c child => ⟨h.inside, fun seen => (h.tree seen).children other c child⟩

namespace Holds

/-- Wherever the variable is seen it has the value. -/
theorem lookup (h : b.Holds m) (seen : b.Seen m f) : m.frames.lookup f b.uid = some b.value :=
  (Frames.lookup_of_home seen).trans h.bound

theorem inside (h : b.Holds m) : b.frame < m.frames.frames.size := by
  obtain ⟨frame, found, -⟩ := Option.bind_eq_some_iff.1 h.bound
  exact Frames.lt_size_of_get? found

/-- The frame itself sees the variable. -/
theorem seen (h : b.Holds m) : b.Seen m b.frame := by
  obtain ⟨frame, found, value⟩ := Option.bind_eq_some_iff.1 h.bound
  unfold Seen Frames.home? Frames.homeFrom
  rw [found]
  simp [Frame.declares, value]

/-- A machine with the frames and the functions of another. -/
theorem of_eq (h : b.Holds m) (functions : m'.functions = m.functions) (frames : m'.frames = m.frames) :
    b.Holds m' := by
  refine ⟨by rw [frames]; exact h.bound, fun c member => ?_⟩
  rw [functions] at member
  exact (h.functions c member).later (.of_eq functions frames)

/-- An assignment to another variable, or where the variable is not seen. -/
theorem assign (h : b.Holds m) {u : Nat} {v : Boxed} {frames : Frames}
    (done : m.frames.assign f u v = some frames) (other : b.Seen m f → u ≠ b.uid) :
    b.Holds { m with frames := frames } := by
  have later := Machine.Extends.assign done
  refine ⟨?_, fun c member => (h.functions c member).later later⟩
  unfold Frames.assign at done
  obtain ⟨home, found, rfl⟩ := Option.map_eq_some_iff.1 done
  obtain ⟨frame, there, value⟩ := Option.bind_eq_some_iff.1 h.bound
  show ((m.frames.set home u v).get? b.frame).bind _ = _
  rw [Frames.get?_set, there]
  by_cases same : b.frame = home
  · have apart : b.uid ≠ u := by
      rintro rfl
      exact other (found.trans (congrArg some same.symm)) rfl
    rw [if_pos same]
    show (frame.set u v).get? b.uid = _
    rw [Frame.get?_set, if_neg apart, value]
  · rw [if_neg same]
    exact value

theorem push (h : b.Holds m) (parent : Option FrameId) (bindings : List (Nat × Boxed)) :
    b.Holds { m with frames := (m.frames.push parent bindings).2 } := by
  refine ⟨?_, fun c member => (h.functions c member).later (.push m parent bindings)⟩
  show ((m.frames.push parent bindings).2.get? b.frame).bind _ = _
  rw [Frames.get?_push, if_neg (Nat.ne_of_lt h.inside)]
  exact h.bound

theorem addFunction (h : b.Holds m) (new : b.SparedBy m c) :
    b.Holds { m with functions := m.functions.push c } := by
  have later := Machine.Extends.addFunction m c
  refine ⟨h.bound, fun d member => ?_⟩
  rcases Array.mem_push.1 member with old | rfl
  · exact (h.functions d old).later later
  · exact new.later later

end Holds

end Binding

/-! ## The judgement -/

namespace Run

/-- From a machine that has what `start` has, with the binding, to a later one with the binding. -/
def Keeps {α : Type} (b : Binding) (start : Machine) (x : Run α) : Prop :=
  ∀ m, start.Extends m → b.Holds m → m.Extends (x m).2 ∧ b.Holds (x m).2

namespace Keeps

variable {α β : Type} {b : Binding} {start : Machine} {frame : FrameId}

/-- A run that leaves the frames and the functions as they are. -/
theorem of_eq {x : Run α} (functions : ∀ m, (x m).2.functions = m.functions)
    (frames : ∀ m, (x m).2.frames = m.frames) : Keeps b start x :=
  fun m _ holds => ⟨.of_eq (functions m) (frames m), holds.of_eq (functions m) (frames m)⟩

theorem of_apart {x : Run α} (apart : x.Apart) : Keeps b start x :=
  of_eq apart.functions apart.frames

theorem of_pure (a : α) : Keeps b start (pure a) := of_apart (.of_pure a)

theorem fail (f : Fault) : Keeps b start (Run.fail f : Run α) := of_apart (.fail f)

theorem done (o : Outcome α) : Keeps b start (Run.done o) := of_apart fun _ _ _ => rfl

/-- A run that is followed by others. -/
theorem onward {x : Run α} {f : Outcome α → Run β} (first : Keeps b start x)
    (second : ∀ o, Keeps b start (f o)) : Keeps b start (x.onward f) := by
  intro m later holds
  obtain ⟨grown, kept⟩ := first m later holds
  unfold Run.onward
  generalize x m = r at grown kept ⊢
  obtain ⟨o, after⟩ := r
  cases o with
  | exhausted => exact ⟨grown, kept⟩
  | value | fault | jump =>
    obtain ⟨further, rest⟩ := second _ after (later.trans grown) kept
    exact ⟨grown.trans further, rest⟩

/-- One run after another. -/
theorem bind {x : Run α} {f : α → Run β} (first : Keeps b start x)
    (second : ∀ a, Keeps b start (f a)) : Keeps b start (x >>= f) := by
  rw [Run.bind_eq_onward]
  refine onward first fun o => ?_
  cases o with
  | value a => exact second a
  | fault | jump | exhausted => exact done _

theorem ite {c : Prop} [Decidable c] {x y : Run α} (left : Keeps b start x)
    (right : Keeps b start y) : Keeps b start (if c then x else y) := by
  split
  · exact left
  · exact right

theorem sealed {x : Run Boxed} (h : Keeps b start x) : Keeps b start x.sealed := by
  rw [Run.sealed_eq_onward]
  refine onward h fun o => ?_
  cases o with
  | jump => exact fail _
  | value | fault | exhausted => exact done _

/-! ## Frames -/

theorem lookup (x : Parameter) : Keeps b start (Run.lookup frame x) := by
  refine of_eq (fun m => ?_) fun m => ?_ <;>
    · unfold Run.lookup
      split <;> rfl

theorem assign {x : Parameter} (inside : frame < start.frames.frames.size)
    (other : b.Seen start frame → x.uid ≠ b.uid) (v : Boxed) :
    Keeps b start (Run.assign frame x v) := by
  intro m later holds
  unfold Run.assign
  cases done : m.frames.assign frame x.uid v with
  | some frames =>
    exact ⟨.assign done, holds.assign done fun seen => other ((Binding.seen_iff later inside).1 seen)⟩
  | none => exact ⟨.refl m, holds⟩

/-- A frame in a frame, and what is done in it. From the new frame the variable is seen if the new frame
does not bind it and it is seen from the old one. -/
theorem openFrame_bind {bindings : List (Nat × Boxed)} {f : FrameId → Run β}
    (inside : frame < start.frames.frames.size)
    (second : ∀ next inner, start.Extends next → inner < next.frames.frames.size →
      (b.Seen next inner → b.uid ∉ bindings.map Prod.fst ∧ b.Seen start frame) →
      Keeps b next (f inner)) :
    Keeps b start (Run.openFrame (some frame) bindings >>= f) := by
  intro m later holds
  let next : Machine := { m with frames := (m.frames.push (some frame) bindings).2 }
  have grown : m.Extends next := .push m (some frame) bindings
  have there : frame < m.frames.frames.size := Nat.lt_of_lt_of_le inside later.frames
  have new : m.frames.frames.size < next.frames.frames.size := by
    simp [next, Frames.push]
  have outer : b.Seen next m.frames.frames.size →
      b.uid ∉ bindings.map Prod.fst ∧ b.Seen start frame := by
    intro seen
    unfold Binding.Seen at seen
    rw [Frames.home?_push_new there] at seen
    split at seen
    next => exact absurd (Option.some.inj seen) (Nat.ne_of_gt holds.inside)
    next unbound =>
      rw [Frame.declares_ofBindings] at unbound
      exact ⟨unbound, (Binding.seen_iff later inside).1 seen⟩
  obtain ⟨further, kept⟩ := second next m.frames.frames.size (later.trans grown) new outer next
    (.refl next) (holds.push (some frame) bindings)
  exact ⟨grown.trans further, kept⟩

/-- The frame of a block, and what is done in it. -/
theorem blockFrame_bind {locals : List Parameter} {f : FrameId → Run β}
    (inside : frame < start.frames.frames.size)
    (second : ∀ next inner, start.Extends next → inner < next.frames.frames.size →
      (b.Seen next inner → b.Seen start frame) → Keeps b next (f inner)) :
    Keeps b start (Run.blockFrame frame locals >>= f) := by
  unfold Run.blockFrame
  split
  · exact second start frame (.refl start) inside id
  · exact openFrame_bind inside fun next inner later new seen =>
      second next inner later new fun here => (seen here).2

/-! ## Functions -/

theorem addFunction {c : Callable} (new : b.SparedBy start c) : Keeps b start (Run.addFunction c) :=
  fun m later holds => ⟨.addFunction m c, holds.addFunction (new.later later)⟩

theorem newFunction {c : Callable} (new : b.SparedBy start c) : Keeps b start (Run.newFunction c) :=
  (addFunction new).bind fun _ => of_pure _

/-- A host function. -/
theorem of_apart_or_collects {x : Run Boxed} (h : x.ApartOrCollects) : Keeps b start x := by
  rcases h with apart | ⟨collected, k, rfl⟩
  · exact of_apart apart
  · exact newFunction trivial

theorem callable (id : Nat) : Keeps b start (Run.callable id) := by
  refine of_eq (fun m => ?_) fun m => ?_ <;>
    · unfold Run.callable
      split <;> rfl

/-- A function that is looked up, and what is done with it. -/
theorem callable_bind {id : Nat} {f : Callable → Run β}
    (second : ∀ next c, start.Extends next → b.SparedBy next c → Keeps b next (f c)) :
    Keeps b start (Run.callable id >>= f) := by
  intro m later holds
  show m.Extends (Run.bind (Run.callable id) f m).2 ∧ b.Holds (Run.bind (Run.callable id) f m).2
  unfold Run.bind Run.callable
  cases found : m.functions[id]? with
  | none => exact ⟨.refl m, holds⟩
  | some c =>
    exact second m c later (holds.functions c (Array.mem_of_getElem? found)) m (.refl m) holds

theorem functionMember (owner : Value) (name : String) :
    Keeps b start (Run.functionMember owner name) := by
  unfold Run.functionMember
  split
  · exact (callable _).bind fun c => of_apart (.box _)
  · refine (callable _).bind fun c => ?_
    split
    · exact of_pure _
    · exact fail _
  · exact fail _

theorem member (owner : Boxed) (name : String) : Keeps b start (Run.member owner name) := by
  unfold Run.member
  refine (of_apart (.read fun _ _ _ => rfl)).bind fun given => ?_
  split
  · exact of_pure _
  · split
    · exact of_pure _
    · exact of_apart (.box _)
    · exact of_apart (.box _)
    · exact fail _
    · exact functionMember _ _

theorem wrapResult (f : PureFunction) (v : Boxed) : Keeps b start (Run.wrapResult f v) := by
  unfold Run.wrapResult
  split
  · split
    · exact (addFunction (c := .wrapper v) trivial).bind fun _ => of_pure _
    · exact of_pure _
  · exact of_pure _

/-! ## Caches and splits -/

theorem lookupOrCompute {c : CacheId} {function argument : Boxed} {x : Run Boxed}
    (compute : Keeps b start x) : Keeps b start (Run.lookupOrCompute c function argument x) := by
  unfold Run.lookupOrCompute
  refine (of_apart (.onCache _ _)).bind fun begun => ?_
  cases begun with
  | bypassed => exact compute
  | hit result => exact of_pure result
  | pending ticket => exact compute.bind fun _ => of_apart (.onCache _ _)

theorem splitBinary {op : BinaryOp} {x y : Run Boxed} {pool : Option PoolId}
    (left : Keeps b start x) (right : Keeps b start y) :
    Keeps b start (Run.splitBinary op x y pool) := by
  unfold Run.splitBinary
  refine ite (bind ?_ fun _ => of_apart (.boxResult _)) (fail _)
  unfold Run.operands
  refine (of_apart (.resolvePool pool)).bind fun place => ?_
  refine (of_apart (.reserve place _)).bind fun reserved => ite ?_ ?_
  · unfold Run.split
    refine (of_apart (.read fun _ _ _ => rfl)).bind fun rightFirst => ?_
    refine (of_apart (.onPool place _)).bind fun _ => ?_
    rw [Run.releasing_eq_onward]
    refine onward ((of_apart (.tryPool place _)).bind fun _ => ?_) fun o =>
      (of_apart (.tryPool _ _)).bind fun _ => done o
    rw [Run.both_eq_onward]
    split
    · exact onward right fun b => onward left fun a => done _
    · exact onward left fun a => onward right fun b => done _
  · unfold Run.sequential
    refine (of_apart (.onPool place _)).bind fun _ => ?_
    exact left.bind fun a => right.bind fun b => of_pure (a, b)

/-! ## Blocks and loops -/

theorem runAll {steps : List Step} (each : ∀ s ∈ steps, Keeps b start s.run) (v : Boxed) :
    Keeps b start (Step.runAll steps v) := by
  induction steps generalizing v with
  | nil => exact of_pure v
  | cons s rest ih =>
    obtain ⟨first, others⟩ := List.forall_mem_cons.1 each
    exact first.bind fun w => ih others w

theorem runFrom {all : List Step} (whole : ∀ s ∈ all, Keeps b start s.run) (fuel : Nat) :
    ∀ {rest : List Step} (v : Boxed), (∀ s ∈ rest, Keeps b start s.run) →
      Keeps b start (Step.runFrom all fuel rest v) := by
  induction fuel with
  | zero => exact fun _ _ => done .exhausted
  | succ fuel ih =>
    intro rest v each
    rw [Step.runFrom_succ]
    refine onward (runAll each v) fun o => ?_
    cases o with
    | value | fault | exhausted => exact done _
    | jump target w =>
      simp only
      cases found : Step.after? target all with
      | none => exact done _
      | some behind =>
        -- the steps behind a label are steps of the block
        obtain ⟨before, s, rfl, -⟩ := Step.after?_eq_some found
        exact ih w fun s inside => whole s
          (List.mem_append_right _ (List.mem_cons_of_mem _ inside))

theorem loop {x : Run Boxed} (turn : Keeps b start x) (breakLabel continueLabel : Option Nat)
    (fuel : Nat) : Keeps b start (Run.loop x breakLabel continueLabel fuel) := by
  induction fuel with
  | zero => exact done .exhausted
  | succ fuel ih =>
    rw [Run.loop_succ]
    refine onward turn fun o => ?_
    cases o with
    | value v => exact ih
    | jump target v => exact ite (of_pure v) (ite ih (done _))
    | fault | exhausted => exact done _

end Keeps

end Run

end Knot
