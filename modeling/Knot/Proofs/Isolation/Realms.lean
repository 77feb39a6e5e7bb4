import Knot.Proofs.Binding.Runs
import Knot.Proofs.Isolation.Pools
import Knot.Proofs.Isolation.Trees

/-!
# Realms

A realm is what the evaluation of one tree makes: the functions and the frames from certain numbers on
(`Realm`). On its machines every function of the realm keeps to its own variables, and the frames of the
realm have their parents in it (`Realm.Holds`). In a clean realm, of trees without cached calls, the
values of the variables moreover name functions of the machine only. New frames, new functions and
assignments keep that so.
-/

namespace Knot

namespace Machine

/-- From the frame a variable is found in a frame from `n` on, if it is found. -/
def Owns (m : Machine) (n : Nat) (f : FrameId) (u : Nat) : Prop :=
  ∀ home, m.frames.home? f u = some home → n ≤ home

/-- The function that a value names, if it names one, is there. -/
def Has (m : Machine) (v : Boxed) : Prop := ∀ id, v.value = .closure id → id < m.functions.size

/-- A machine that differs from another one in its boxes, caches and journals only. -/
structure Still (m m' : Machine) : Prop where
  frames : m'.frames = m.frames
  functions : m'.functions = m.functions
  pools : m'.pools = m.pools
  default : m'.defaultPool = m.defaultPool
  settings : m'.settings = m.settings
  processors : m'.processors = m.processors

theorem Still.refl (m : Machine) : m.Still m := ⟨rfl, rfl, rfl, rfl, rfl, rfl⟩

theorem Extends.functions_size {m m' : Machine} (later : m.Extends m') :
    m.functions.size ≤ m'.functions.size := by
  by_contra fewer
  have there : m'.functions.size < m.functions.size := Nat.lt_of_not_le fewer
  have kept := later.functions _ _ (Array.getElem?_eq_getElem there)
  exact absurd (Array.getElem?_eq_some_iff.1 kept).1 (Nat.lt_irrefl _)

theorem Has.later {m m' : Machine} {v : Boxed} (h : m.Has v) (later : m.Extends m') : m'.Has v :=
  fun id names => Nat.lt_of_lt_of_le (h id names) later.functions_size

end Machine

/-- What is bound in a frame is one of the values that it was made with. -/
theorem Frame.exists_of_get?_ofBindings {parent : Option FrameId} {bindings : List (Nat × Boxed)}
    {u : Nat} {v : Boxed} (found : (ofBindings parent bindings).get? u = some v) :
    ∃ b ∈ bindings, b.2 = v := by
  induction bindings using List.reverseRecOn with
  | nil => cases found
  | append_singleton front b ih =>
    unfold ofBindings at ih found
    rw [List.foldl_append, List.foldl_cons, List.foldl_nil, get?_set] at found
    split at found
    next =>
      cases found
      exact ⟨b, List.mem_append_right _ List.mem_cons_self, rfl⟩
    next =>
      obtain ⟨c, member, same⟩ := ih found
      exact ⟨c, List.mem_append_left _ member, same⟩

/-! ## Realms -/

/-- What the evaluation of a tree makes: the functions from a number on and the frames from a number on. Of
the pools, the tree may name the first ones. -/
structure Realm where
  functions : Nat
  frames : Nat
  pools : Nat
  /-- Whether the trees are without cached calls, and the pools and functions that they name exist. -/
  clean : Prop

namespace Realm

variable (w : Realm)

/-- What a tree of a realm may hold. -/
def Allows (context : Context) : Expr → Prop
  | .hostCall _ _ _ | .member _ _ _ => False
  | .cached _ _ _ _ => ¬ w.clean
  | .parallel _ _ _ _ pool => w.clean → ∀ p, pool.or context.pool = some p → p < w.pools
  | .constant v _ => w.clean → ∀ id, v.value = .closure id → id < w.functions
  | _ => True

/-- A body that keeps to the variables of its function. -/
structure Keeps (ps : List Nat) (body : Expr) (context : Context) : Prop where
  assigns : body.AssignsWithin (· ∈ ps)
  allowed : ∀ x ∈ body.nodes, w.Allows context x

/-- A value that names a function of the machine, if it names one; in a clean realm only. -/
def Knows (m : Machine) (v : Boxed) : Prop := w.clean → m.Has v

/-- A frame of the realm: so is its parent, and its values are known. -/
structure Binds (m : Machine) (frame : Frame) : Prop where
  parent : ∀ p, frame.parent = some p → w.frames ≤ p
  values : ∀ u v, frame.get? u = some v → w.Knows m v

/-- A function of the realm. -/
def Contains (m : Machine) (c : Callable) : Prop :=
  ∃ ps body frame context, c = .closure ps body frame context ∧ w.Keeps ps body context ∧
    w.frames ≤ frame ∧ frame < m.frames.frames.size

/-- A machine on which there is the realm. -/
structure Holds (m : Machine) : Prop where
  functions : w.functions ≤ m.functions.size
  frames : w.frames ≤ m.frames.frames.size
  closures : ∀ (id : Nat) c, w.functions ≤ id → m.functions[id]? = some c → w.Contains m c
  bound : ∀ (f : Nat) frame, w.frames ≤ f → m.frames.get? f = some frame → w.Binds m frame
  pools : w.clean → m.PoolsWhole w.pools

variable {w} {m m' : Machine} {v : Boxed} {f : FrameId} {frame : Frame}

theorem Knows.later (h : w.Knows m v) (later : m.Extends m') : w.Knows m' v :=
  fun clean => (h clean).later later

/-- A value that names no function is known. -/
theorem knows_of_scalar (m : Machine) (s : Scalar) (id : Nat) : w.Knows m ⟨.scalar s, id⟩ := by
  rintro - id ⟨⟩

theorem knows_none (m : Machine) : w.Knows m Boxed.none := by
  rintro - id ⟨⟩

theorem Binds.later (h : w.Binds m frame) (later : m.Extends m') : w.Binds m' frame :=
  ⟨h.parent, fun u v bound => (h.values u v bound).later later⟩

theorem Contains.later {c : Callable} (h : w.Contains m c) (later : m.Extends m') : w.Contains m' c := by
  obtain ⟨ps, body, frame, context, same, keeps, old, inside⟩ := h
  exact ⟨ps, body, frame, context, same, keeps, old, Nat.lt_of_lt_of_le inside later.frames⟩

namespace Holds

variable (h : w.Holds m)
include h

/-- A machine with the same frames and functions, on which the pools are whole. -/
theorem of_eq (frames : m'.frames = m.frames) (functions : m'.functions = m.functions)
    (pools : w.clean → m'.PoolsWhole w.pools) : w.Holds m' := by
  have later : m.Extends m' := .of_eq functions frames
  refine ⟨?_, ?_, fun id c old found => ?_, fun f frame old found => ?_, pools⟩
  · exact Nat.le_trans h.functions later.functions_size
  · exact Nat.le_trans h.frames later.frames
  · rw [functions] at found
    exact (h.closures id c old found).later later
  · rw [frames] at found
    exact (h.bound f frame old found).later later

theorem of_still (still : m.Still m') : w.Holds m' := by
  refine h.of_eq still.frames still.functions fun clean => ?_
  exact (h.pools clean).of_eq still.pools still.default still.settings still.processors

/-- The chain of frames from a frame of the realm stays in it. -/
theorem homeFrom {u k : Nat} {home : Nat} (base : w.frames ≤ f)
    (found : m.frames.homeFrom u k f = some home) : w.frames ≤ home := by
  induction k generalizing f with
  | zero => cases found
  | succ k ih =>
    unfold Frames.homeFrom at found
    split at found
    next => cases found
    next frame here =>
      split at found
      next =>
        cases found
        exact base
      next =>
        split at found
        next => cases found
        next p up => exact ih ((h.bound f frame base here).parent p up) found

/-- A variable of a frame of the realm has a known value. -/
theorem lookup {u : Nat} (base : w.frames ≤ f) (found : m.frames.lookup f u = some v) : w.Knows m v := by
  cases place : m.frames.home? f u with
  | none => simp [Frames.lookup, place] at found
  | some home =>
    rw [Frames.lookup_of_home place] at found
    obtain ⟨frame, here, value⟩ := Option.bind_eq_some_iff.1 found
    exact (h.bound home frame (h.homeFrom base place) here).values u v value

/-- An assignment of a known value. -/
theorem assign {u : Nat} {frames : Frames} (done : m.frames.assign f u v = some frames)
    (known : w.Knows m v) : w.Holds { m with frames := frames } := by
  have later := Machine.Extends.assign done
  unfold Frames.assign at done
  obtain ⟨home, -, rfl⟩ := Option.map_eq_some_iff.1 done
  -- only the values of one frame change, so the parents and all else stay known
  refine ⟨h.functions, Nat.le_trans h.frames later.frames, fun id c old found => ?_,
    fun g frame old found => ?_, fun clean => ?_⟩
  · exact (h.closures id c old found).later later
  · rw [Frames.get?_set] at found
    split at found
    next =>
      obtain ⟨before, here, rfl⟩ := Option.map_eq_some_iff.1 found
      have binds := h.bound g before old here
      refine ⟨binds.parent, fun x y value => ?_⟩
      rw [Frame.get?_set] at value
      split at value
      next =>
        cases value
        exact known.later later
      next => exact (binds.values x y value).later later
    next => exact (h.bound g frame old found).later later
  · exact (h.pools clean).of_eq rfl rfl rfl rfl

/-- A new frame, at the root or in a frame of the realm, that binds known values. -/
theorem push {parent : Option FrameId} {bindings : List (Nat × Boxed)}
    (base : ∀ p, parent = some p → w.frames ≤ p) (known : ∀ b ∈ bindings, w.Knows m b.2) :
    w.Holds { m with frames := (m.frames.push parent bindings).2 } := by
  have later := Machine.Extends.push m parent bindings
  refine ⟨h.functions, Nat.le_trans h.frames later.frames, fun id c old found => ?_,
    fun g frame old found => ?_, fun clean => ?_⟩
  · exact (h.closures id c old found).later later
  · rw [Frames.get?_push] at found
    split at found
    next =>
      cases found
      refine ⟨fun p up => ?_, fun x y value => ?_⟩
      · rw [Frame.parent_ofBindings] at up
        exact base p (Option.filter_eq_some_iff.1 up).1
      · obtain ⟨b, member, rfl⟩ := Frame.exists_of_get?_ofBindings value
        exact (known b member).later later
    next => exact (h.bound g frame old found).later later
  · exact (h.pools clean).of_eq rfl rfl rfl rfl

/-- A new function of the realm. -/
theorem addFunction {c : Callable} (new : w.Contains m c) :
    w.Holds { m with functions := m.functions.push c } := by
  have later := Machine.Extends.addFunction m c
  refine ⟨Nat.le_trans h.functions later.functions_size, h.frames, fun id d old found => ?_,
    fun g frame old found => (h.bound g frame old found).later later, fun clean => ?_⟩
  · rw [Array.getElem?_push] at found
    split at found
    next =>
      cases found
      exact new.later later
    next => exact (h.closures id d old found).later later
  · exact (h.pools clean).of_eq rfl rfl rfl rfl

end Holds

end Realm

end Knot
