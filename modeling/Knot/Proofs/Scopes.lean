import Knot.Run

/-!
# Variables in scope

Reading and writing along a chain of frames. An assignment changes the value of its variable, seen
from where it is made, and of no other (`Frames.lookup_assign`), and it succeeds just when the
variable has a value (`Frames.assign_of_lookup`). A new frame binds its own variables and shows the
others as its parent does (`Frames.lookup_push_new`), and no older frame notices it
(`Frames.lookup_push_old`).
-/

namespace Knot

namespace Frame

theorem declares_set (f : Frame) (uid u : Nat) (v : Boxed) :
    (f.set uid v).declares u = (decide (u = uid) || f.declares u) := by
  unfold declares
  rw [get?_set]
  by_cases h : u = uid <;> simp [h]

end Frame

namespace Frames

theorem get?_set (h : Frames) (f g : FrameId) (uid : Nat) (v : Boxed) :
    (h.set f uid v).get? g = if g = f then (h.get? g).map fun x => x.set uid v else h.get? g := by
  unfold set get?
  simp only [Array.getElem?_modify, eq_comm (a := f)]

/-! ## Assignment -/

/-- Setting a variable where it is declared already moves no variable to another frame. -/
theorem homeFrom_set {h : Frames} {f : FrameId} {frame : Frame} {uid : Nat}
    (found : h.get? f = some frame) (declared : frame.declares uid = true) (v : Boxed) (u : Nat) :
    ∀ (fuel : Nat) (g : FrameId), (h.set f uid v).homeFrom u fuel g = h.homeFrom u fuel g := by
  intro fuel
  induction fuel with
  | zero => intro g; rfl
  | succ fuel ih =>
    intro g
    unfold homeFrom
    rw [get?_set]
    by_cases here : g = f
    · subst here
      have kept : (decide (u = uid) || frame.declares u) = frame.declares u := by
        by_cases same : u = uid
        · subst same; simp [declared]
        · simp [same]
      simp only [if_true, found, Option.map_some, Frame.declares_set, kept, Frame.parent_set, ih]
    · simp only [here, if_false, ih]

/-- The frame that a variable is found in declares it. -/
theorem homeFrom_declares {h : Frames} {u : Nat} :
    ∀ {fuel : Nat} {f home : FrameId}, h.homeFrom u fuel f = some home →
      ∃ frame, h.get? home = some frame ∧ frame.declares u = true := by
  intro fuel
  induction fuel with
  | zero => intro f home found; cases found
  | succ fuel ih =>
    intro f home found
    unfold homeFrom at found
    split at found
    next => cases found
    next frame here =>
      split at found
      next declared =>
        cases found
        exact ⟨frame, here, declared⟩
      next =>
        split at found
        next => cases found
        next p up => exact ih found

/-- The value of a variable is the one in its home. -/
theorem lookup_of_home {h : Frames} {f home : FrameId} {uid : Nat}
    (found : h.home? f uid = some home) :
    h.lookup f uid = (h.get? home).bind fun frame => frame.get? uid := by
  simp only [lookup, found, bind, Option.bind]

/-- After an assignment the variable has the new value and all others have the one they had. -/
theorem lookup_assign {h assigned : Frames} {f : FrameId} {uid : Nat} {v : Boxed}
    (done : h.assign f uid v = some assigned) (u : Nat) :
    assigned.lookup f u = if u = uid then some v else h.lookup f u := by
  unfold assign at done
  obtain ⟨home, found, rfl⟩ := Option.map_eq_some_iff.1 done
  obtain ⟨frame, here, declared⟩ := homeFrom_declares found
  -- an assignment sets a variable where it is declared, so every variable is found where it was
  have homes : (h.set home uid v).home? f u = h.home? f u :=
    homeFrom_set here declared v u (f + 1) f
  cases place : h.home? f u with
  | none =>
    rw [place] at homes
    have apart : u ≠ uid := by
      rintro rfl
      rw [found] at place
      cases place
    simp only [lookup, homes, place, bind, Option.bind, apart, if_false]
  | some other =>
    rw [place] at homes
    rw [lookup_of_home homes, lookup_of_home place, get?_set]
    by_cases same : u = uid
    · subst same
      rw [found] at place
      cases place
      simp [here]
    · by_cases there : other = home
      · subst there
        simp [here, same]
      · simp [there, same]

/-- A variable that has a value can be assigned to. -/
theorem assign_of_lookup {h : Frames} {f : FrameId} {uid : Nat} {old : Boxed}
    (bound : h.lookup f uid = some old) (v : Boxed) : ∃ assigned, h.assign f uid v = some assigned := by
  unfold lookup at bound
  cases found : h.home? f uid with
  | none => simp [found] at bound
  | some home => exact ⟨h.set home uid v, by rw [assign, found]; rfl⟩

/-! ## New frames -/

theorem get?_push (h : Frames) (parent : Option FrameId) (bindings : List (Nat × Boxed))
    (g : Nat) :
    (h.push parent bindings).2.get? g =
      if g = h.frames.size then some (Frame.ofBindings (h.existing parent) bindings)
      else h.get? g := by
  unfold push get?
  rw [Array.getElem?_push]

theorem lt_size_of_get? {h : Frames} {f : Nat} {frame : Frame} (found : h.get? f = some frame) :
    f < h.frames.size := by
  unfold get? at found
  exact (Array.getElem?_eq_some_iff.1 found).1

/-- A chain has at most as many frames as its first frame has a number. -/
theorem homeFrom_of_lt {h : Frames} {u : Nat} :
    ∀ {n : Nat} {f : Nat}, f < n → h.homeFrom u n f = h.home? f u := by
  intro n
  induction n using Nat.strongRecOn with
  | ind n ih =>
    intro f below
    cases n with
    | zero => omega
    | succ n =>
      unfold home? homeFrom
      cases found : h.get? f with
      | none => rfl
      | some frame =>
        simp only
        split
        · rfl
        · cases up : frame.parent with
          | none => rfl
          | some p =>
            have older : @LT.lt Nat _ p f := h.older f p frame found up
            simp only
            rw [ih n (by omega) (Nat.lt_of_lt_of_le older (by omega)), ih f below older]

/-- An old chain does not notice a new frame. -/
theorem homeFrom_push {h : Frames} (parent : Option FrameId) (bindings : List (Nat × Boxed))
    {u : Nat} : ∀ {n : Nat} {f : Nat}, f < h.frames.size →
      (h.push parent bindings).2.homeFrom u n f = h.homeFrom u n f := by
  intro n
  induction n with
  | zero => intro f _; rfl
  | succ n ih =>
    intro f old
    unfold homeFrom
    rw [get?_push, if_neg (by omega)]
    cases found : h.get? f with
    | none => rfl
    | some frame =>
      simp only
      split
      · rfl
      · cases up : frame.parent with
        | none => rfl
        | some p =>
          have older : @LT.lt Nat _ p f := h.older f p frame found up
          exact ih (by omega)

/-- An old frame shows what it has shown. -/
theorem lookup_push_old {h : Frames} (parent : Option FrameId) (bindings : List (Nat × Boxed))
    {f : Nat} (old : f < h.frames.size) (u : Nat) :
    (h.push parent bindings).2.lookup f u = h.lookup f u := by
  have homes : (h.push parent bindings).2.home? f u = h.home? f u := homeFrom_push parent bindings old
  cases place : h.home? f u with
  | none => simp only [lookup, homes, place, bind, Option.bind]
  | some home =>
    obtain ⟨frame, found, -⟩ := homeFrom_declares place
    have inside : @LT.lt Nat _ home h.frames.size := lt_size_of_get? found
    rw [place] at homes
    rw [lookup_of_home homes, lookup_of_home place, get?_push, if_neg (Nat.ne_of_lt inside)]

/-- A new frame shows its own variables, and the others as its parent shows them. -/
theorem lookup_push_new {h : Frames} {parent : Nat} (existing : parent < h.frames.size)
    (bindings : List (Nat × Boxed)) (u : Nat) :
    (h.push (some parent) bindings).2.lookup h.frames.size u =
      ((Frame.ofBindings (some parent) bindings).get? u).or (h.lookup parent u) := by
  have here : (h.push (some parent) bindings).2.get? h.frames.size =
      some (Frame.ofBindings (some parent) bindings) := by
    rw [get?_push, if_pos rfl]
    simp only [Frames.existing, Option.filter, existing, decide_true, if_true]
  cases own : (Frame.ofBindings (some parent) bindings).get? u with
  | some v =>
    have home : (h.push (some parent) bindings).2.home? h.frames.size u = some h.frames.size := by
      unfold home? homeFrom
      rw [here]
      simp [Frame.declares, own]
    rw [lookup_of_home home, here]
    simpa using own
  -- what the new frame does not declare is found from its parent, as before the frame was there
  | none =>
    have homes : (h.push (some parent) bindings).2.home? h.frames.size u =
        (h.push (some parent) bindings).2.home? parent u := by
      unfold home?
      rw [homeFrom, here]
      simp only [Frame.declares, own, Option.isSome_none, Bool.false_eq_true, if_false,
        Frame.parent_ofBindings]
      exact homeFrom_of_lt existing
    have old := lookup_push_old (h := h) (some parent) bindings existing u
    rw [Option.none_or, ← old]
    simp only [lookup, homes]

/-- A frame that declares a variable is its home. -/
theorem home?_of_declares {h : Frames} {f : FrameId} {frame : Frame} {uid : Nat}
    (found : h.get? f = some frame) (declared : frame.declares uid = true) :
    h.home? f uid = some f := by
  unfold home? homeFrom
  rw [found]
  simp [declared]

/-- It is where an assignment to the variable goes. -/
theorem assign_of_declares {h : Frames} {f : FrameId} {frame : Frame} (uid : Nat)
    (found : h.get? f = some frame) (declared : frame.declares uid = true) (v : Boxed) :
    h.assign f uid v = some (h.set f uid v) := by
  rw [assign, home?_of_declares found declared]
  rfl

/-- It shows the value that it binds to the variable. -/
theorem lookup_of_get? {h : Frames} {f : FrameId} {uid : Nat} {v : Boxed}
    (bound : ((h.get? f).bind fun frame => frame.get? uid) = some v) : h.lookup f uid = some v := by
  obtain ⟨frame, found, here⟩ := Option.bind_eq_some_iff.1 bound
  have declared : frame.declares uid = true := by
    unfold Frame.declares
    rw [here]
    rfl
  rw [lookup_of_home (home?_of_declares found declared), bound]

/-- An older chain does not notice a change of a newer frame. -/
theorem homeFrom_set_newer {h : Frames} {g : Nat} {uid : Nat} {v : Boxed} {u : Nat} :
    ∀ {n : Nat} {f : Nat}, f < g → (h.set g uid v).homeFrom u n f = h.homeFrom u n f := by
  intro n
  induction n with
  | zero => intro f _; rfl
  | succ n ih =>
    intro f older
    unfold homeFrom
    rw [get?_set, if_neg (Nat.ne_of_lt older)]
    cases found : h.get? f with
    | none => rfl
    | some frame =>
      simp only
      split
      · rfl
      · cases up : frame.parent with
        | none => rfl
        | some p =>
          have above : @LT.lt Nat _ p f := h.older f p frame found up
          exact ih (by omega)

/-- The home of a variable is no newer than the frame it is looked up from. -/
theorem homeFrom_le {h : Frames} {u : Nat} :
    ∀ {n : Nat} {f home : Nat}, h.homeFrom u n f = some home → home ≤ f := by
  intro n
  induction n with
  | zero => intro f home found; cases found
  | succ n ih =>
    intro f home found
    unfold homeFrom at found
    split at found
    next => cases found
    next frame here =>
      split at found
      next =>
        cases found
        exact Nat.le_refl f
      next =>
        split at found
        next => cases found
        next p up =>
          have above : @LT.lt Nat _ p f := h.older f p frame here up
          have below := ih found
          omega

/-- An older frame shows what it has shown. -/
theorem lookup_set_newer {h : Frames} {f g : Nat} (older : f < g) (uid : Nat) (v : Boxed) (u : Nat) :
    (h.set g uid v).lookup f u = h.lookup f u := by
  have homes : (h.set g uid v).home? f u = h.home? f u := homeFrom_set_newer older
  cases place : h.home? f u with
  | none => simp only [lookup, homes, place, bind, Option.bind]
  | some home =>
    have below : @LE.le Nat _ home f := homeFrom_le place
    rw [place] at homes
    rw [lookup_of_home homes, lookup_of_home place, get?_set,
      if_neg (Nat.ne_of_lt (Nat.lt_of_le_of_lt below older))]

end Frames

end Knot
