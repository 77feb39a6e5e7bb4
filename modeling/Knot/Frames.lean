import Knot.Value

/-!
# Frames

The scopes of variable values. A frame binds variables, by their numbers, and has a parent, the
frame around it; frames share parents. All frames live in one heap, where a parent is older than
its children, so that every chain of parents ends.

A variable is looked up in the nearest frame of the chain that declares it (`home?`). `lookup`
reads there and `assign` writes there; nothing else changes.
-/

namespace Knot

/-- The place of a frame in the heap. -/
abbrev FrameId := Nat

/-- One scope. -/
structure Frame where
  values : List (Nat × Boxed)
  parent : Option FrameId

namespace Frame

/-- The value that the frame itself binds to a variable. -/
def get? (f : Frame) (uid : Nat) : Option Boxed := f.values.lookup uid

/-- Whether the frame itself binds a variable. -/
def declares (f : Frame) (uid : Nat) : Bool := (f.get? uid).isSome

/-- A list of bindings with one more; an old binding of the variable is replaced in its place. -/
def bind (uid : Nat) (v : Boxed) : List (Nat × Boxed) → List (Nat × Boxed)
  | [] => [(uid, v)]
  | (u, w) :: rest => if uid = u then (uid, v) :: rest else (u, w) :: bind uid v rest

/-- The frame with a variable bound to a value. -/
def set (f : Frame) (uid : Nat) (v : Boxed) : Frame := { f with values := bind uid v f.values }

/-- A frame with the given bindings; of several bindings of a variable the last one counts. -/
def ofBindings (parent : Option FrameId) (bindings : List (Nat × Boxed)) : Frame :=
  bindings.foldl (fun f b => f.set b.1 b.2) ⟨[], parent⟩

theorem lookup_bind (uid u : Nat) (v : Boxed) (values : List (Nat × Boxed)) :
    (bind uid v values).lookup u = if u = uid then some v else values.lookup u := by
  induction values with
  | nil =>
    by_cases h : u = uid
    · simp [bind, h]
    · simp [bind, List.lookup_cons, beq_eq_false_iff_ne.2 h, h]
  | cons head rest ih =>
    obtain ⟨w, x⟩ := head
    by_cases h : uid = w
    · subst h
      by_cases k : u = uid
      · simp [bind, k]
      · simp [bind, List.lookup_cons, beq_eq_false_iff_ne.2 k, k]
    · by_cases k : u = w
      · subst k
        have apart : u ≠ uid := fun same => h same.symm
        simp [bind, h, apart]
      · simp [bind, List.lookup_cons, h, beq_eq_false_iff_ne.2 k, ih]

/-- After a variable is set, it has the new value, and the others keep theirs. -/
@[simp] theorem get?_set (f : Frame) (uid u : Nat) (v : Boxed) :
    (f.set uid v).get? u = if u = uid then some v else f.get? u := lookup_bind uid u v f.values

@[simp] theorem parent_set (f : Frame) (uid : Nat) (v : Boxed) : (f.set uid v).parent = f.parent :=
  rfl

theorem parent_ofBindings (parent : Option FrameId) (bindings : List (Nat × Boxed)) :
    (ofBindings parent bindings).parent = parent := by
  have step : ∀ (f : Frame), (bindings.foldl (fun f b => f.set b.1 b.2) f).parent = f.parent := by
    induction bindings with
    | nil => intro f; rfl
    | cons b rest ih => intro f; simp [ih]
  exact step ⟨[], parent⟩

end Frame

/-- A heap of frames in which every parent is older than its child. -/
structure Frames where
  frames : Array Frame
  older : ∀ (i p : Nat) (f : Frame), frames[i]? = some f → f.parent = some p → p < i

namespace Frames

/-- The heap without frames. -/
def empty : Frames := ⟨#[], by simp⟩

/-- The frame at a place. -/
def get? (h : Frames) (f : FrameId) : Option Frame := h.frames[f]?

/-- A parent that exists. -/
def existing (h : Frames) (parent : Option FrameId) : Option FrameId :=
  parent.filter (· < h.frames.size)

theorem lt_of_existing {h : Frames} {parent : Option FrameId} {p : FrameId}
    (found : h.existing parent = some p) : p < h.frames.size := by
  have := (Option.filter_eq_some_iff.1 found).2
  simpa using this

/-- The heap with a new frame, and the place of that frame. -/
def push (h : Frames) (parent : Option FrameId) (bindings : List (Nat × Boxed)) :
    FrameId × Frames :=
  (h.frames.size,
    { frames := h.frames.push (Frame.ofBindings (h.existing parent) bindings)
      older := by
        intro i p f at_i up
        rw [Array.getElem?_push] at at_i
        split at at_i
        · rename_i last
          cases at_i
          rw [Frame.parent_ofBindings] at up
          exact last ▸ lt_of_existing up
        · exact h.older i p f at_i up })

/-- The heap with a frame changed, its parent kept. -/
def set (h : Frames) (f : FrameId) (uid : Nat) (v : Boxed) : Frames :=
  { frames := h.frames.modify f fun frame => frame.set uid v
    older := by
      intro i p frame at_i up
      rw [Array.getElem?_modify] at at_i
      split at at_i
      · obtain ⟨old, found, rfl⟩ := Option.map_eq_some_iff.1 at_i
        exact h.older i p old found up
      · exact h.older i p frame at_i up }

/-- The nearest frame that declares a variable, among `fuel` frames of a chain. -/
def homeFrom (h : Frames) (uid : Nat) : Nat → FrameId → Option FrameId
  | 0, _ => none
  | fuel + 1, f =>
    match h.get? f with
    | none => none
    | some frame =>
      if frame.declares uid then some f
      else match frame.parent with
        | none => none
        | some p => homeFrom h uid fuel p

/-- The nearest frame on the chain of `f` that declares a variable. The chain has at most
`f + 1` frames, since parents are older. -/
def home? (h : Frames) (f : FrameId) (uid : Nat) : Option FrameId := h.homeFrom uid (f + 1) f

/-- The value of a variable as seen from a frame. -/
def lookup (h : Frames) (f : FrameId) (uid : Nat) : Option Boxed := do
  let home ← h.home? f uid
  let frame ← h.get? home
  frame.get? uid

/-- The heap after an assignment seen from a frame, if the variable is declared there. -/
def assign (h : Frames) (f : FrameId) (uid : Nat) (v : Boxed) : Option Frames :=
  (h.home? f uid).map fun home => h.set home uid v

end Frames

end Knot
