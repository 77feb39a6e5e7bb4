import Knot.Proofs.Renaming.Trees
import Knot.Proofs.Scopes
import Mathlib.Data.List.Induction

/-!
# Frames with a variable renamed

Two heaps of frames correspond if they have the same frames, and each frame has a name under which it
knows the variable `p` in the second heap (`Frames.Renamed`). Inward a name is kept, and where it changes
outward the frame declares the variable, so nobody looks for it under the wrong name. Then what is seen of
a variable from a frame is the same in both heaps (`Frames.Renamed.lookup`), and it stays so when a
variable is given a value (`Frames.Renamed.assign`) and when a frame is opened (`Frames.Renamed.push`).
-/

namespace Knot

/-! ## One frame -/

namespace Frame

/-- A variable is bound to what the last binding says. -/
theorem get?_ofBindings_append (parent : Option FrameId) (bindings : List (Nat × Boxed)) (uid : Nat)
    (v : Boxed) (u : Nat) :
    (ofBindings parent (bindings ++ [(uid, v)])).get? u =
      if u = uid then some v else (ofBindings parent bindings).get? u := by
  unfold ofBindings
  rw [List.foldl_append]
  exact get?_set _ uid u v

/-- The second frame is the first one with `p` called `n`. -/
structure Renamed (p n : Parameter) (f f' : Frame) : Prop where
  parent : f'.parent = f.parent
  values : ∀ u, Parameter.Free p n u → f'.get? (Parameter.renamedUid p n u) = f.get? u

variable {p n : Parameter} {f f' : Frame} {u : Nat}

theorem Renamed.declares (h : f.Renamed p n f') (free : Parameter.Free p n u) :
    f'.declares (Parameter.renamedUid p n u) = f.declares u := by
  unfold Frame.declares
  rw [h.values u free]

theorem Renamed.set (h : f.Renamed p n f') (free : Parameter.Free p n u) (v : Boxed) :
    (f.set u v).Renamed p n (f'.set (Parameter.renamedUid p n u) v) := by
  refine ⟨h.parent, fun w avoided => ?_⟩
  rw [get?_set, get?_set, h.values w avoided]
  simp only [Parameter.renamedUid_inj avoided free]

/-- Bindings of renamed variables. -/
theorem Renamed.ofBindings (parent : Option FrameId) {bindings : List (Nat × Boxed)}
    (free : ∀ b ∈ bindings, Parameter.Free p n b.1) :
    (ofBindings parent bindings).Renamed p n
      (ofBindings parent (bindings.map (Prod.map (Parameter.renamedUid p n) id))) := by
  refine ⟨by rw [parent_ofBindings, parent_ofBindings], fun w avoided => ?_⟩
  induction bindings using List.reverseRecOn with
  | nil => rfl
  | append_singleton front b ih =>
    have here : Parameter.Free p n b.1 := free b (by simp)
    have before := ih fun c inside => free c (by simp [inside])
    obtain ⟨u, v⟩ := b
    rw [List.map_append, List.map_singleton, Prod.map_apply, id, get?_ofBindings_append,
      get?_ofBindings_append, before]
    simp only [Parameter.renamedUid_inj avoided here]

/-- A frame that binds `p` or `n` besides the same other variables. -/
theorem Renamed.bound (other : n ≠ p) (parent : Option FrameId) (bindings : List (Nat × Boxed))
    (v : Boxed) :
    (Frame.ofBindings parent (bindings ++ [(p.uid, v)])).Renamed p n
      (Frame.ofBindings parent (bindings ++ [(n.uid, v)])) := by
  refine ⟨by rw [parent_ofBindings, parent_ofBindings], fun w avoided => ?_⟩
  rw [get?_ofBindings_append, get?_ofBindings_append]
  by_cases here : w = p.uid
  · subst here
    simp [Parameter.renamedUid]
  · rw [Parameter.renamedUid_of_ne here, if_neg here, if_neg (avoided other)]

end Frame

/-! ## Heaps -/

/-- Every frame keeps its name, and frames may have been added. -/
def Grown (names names' : Array Parameter) : Prop :=
  ∀ (g : Nat) (n : Parameter), names[g]? = some n → names'[g]? = some n

namespace Grown

variable {names names' names'' : Array Parameter}

theorem refl (names : Array Parameter) : Grown names names := fun _ _ => id

theorem trans (h : Grown names names') (h' : Grown names' names'') : Grown names names'' :=
  fun g n known => h' g n (h g n known)

theorem push (names : Array Parameter) (n : Parameter) : Grown names (names.push n) := by
  intro g x known
  have inside : g < names.size := (Array.getElem?_eq_some_iff.1 known).1
  rw [Array.getElem?_push, if_neg (Nat.ne_of_lt inside)]
  exact known

end Grown

namespace Frames

/-- In the second heap the variable `p` goes by the name that the frame has for it. -/
structure Renamed (p : Parameter) (names : Array Parameter) (h h' : Frames) : Prop where
  size : h.frames.size = names.size
  size' : h'.frames.size = names.size
  at_place : ∀ (g : FrameId) (n : Parameter) (f f' : Frame), names[g]? = some n →
    h.get? g = some f → h'.get? g = some f' → f.Renamed p n f'
  /-- The frame around a frame has the same name, unless the variable is declared in between. -/
  outward : ∀ (g : FrameId) (n : Parameter) (f : Frame) (a : FrameId), names[g]? = some n →
    h.get? g = some f → f.parent = some a →
      names[a]? = some n ∨ (names[a]? = some p ∧ f.declares p.uid = true)
  /-- A chain of frames on which the variable has a new name declares it. -/
  outermost : ∀ (g : FrameId) (n : Parameter) (f : Frame), names[g]? = some n →
    h.get? g = some f → f.parent = none → n = p ∨ f.declares p.uid = true

namespace Renamed

variable {p n : Parameter} {names : Array Parameter} {h h' : Frames} {g : FrameId} {u : Nat}

/-- A frame with a name exists in both heaps. -/
theorem exists_frames (r : Renamed p names h h') (known : names[g]? = some n) :
    ∃ f f', h.get? g = some f ∧ h'.get? g = some f' ∧ f.Renamed p n f' := by
  have inside : g < names.size := (Array.getElem?_eq_some_iff.1 known).1
  obtain ⟨f, found⟩ : ∃ f, h.get? g = some f := ⟨_, Array.getElem?_eq_getElem (r.size ▸ inside)⟩
  obtain ⟨f', found'⟩ : ∃ f', h'.get? g = some f' := ⟨_, Array.getElem?_eq_getElem (r.size' ▸ inside)⟩
  exact ⟨f, f', found, found', r.at_place g n f f' known found found'⟩

/-- A variable has its home in the same frame of both heaps, and the same name there. -/
theorem homeFrom (r : Renamed p names h h') : ∀ (fuel : Nat) {g : FrameId} {n : Parameter},
    names[g]? = some n → Parameter.Free p n u →
      h'.homeFrom (Parameter.renamedUid p n u) fuel g = h.homeFrom u fuel g ∧
      ∀ a, h.homeFrom u fuel g = some a → ∃ n', names[a]? = some n' ∧ Parameter.Free p n' u ∧
        Parameter.renamedUid p n' u = Parameter.renamedUid p n u := by
  intro fuel
  induction fuel with
  | zero => exact fun _ _ => ⟨rfl, by rintro a ⟨⟩⟩
  | succ fuel ih =>
    intro g n known free
    obtain ⟨f, f', found, found', frames⟩ := r.exists_frames known
    unfold Frames.homeFrom
    rw [found, found']
    simp only [frames.declares free, frames.parent]
    by_cases declared : f.declares u = true
    · rw [if_pos declared, if_pos declared]
      refine ⟨rfl, ?_⟩
      rintro a ⟨⟩
      exact ⟨n, known, free, rfl⟩
    · rw [if_neg declared, if_neg declared]
      cases up : f.parent with
      | none => exact ⟨rfl, by rintro a ⟨⟩⟩
      | some a =>
        rcases r.outward g n f a known found up with same | ⟨old, here⟩
        · exact ih same free
        · -- the variable is not `p`, so it is called the same whatever the name of `p`
          have other : u ≠ p.uid := by
            rintro rfl
            exact declared here
          have above := ih old (Parameter.free_self p u)
          rw [Parameter.renamedUid_self] at above
          rw [Parameter.renamedUid_of_ne other]
          exact above

/-- Under a new name the variable `p` has a home. -/
theorem exists_home (r : Renamed p names h h') (other : n ≠ p) : ∀ (fuel : Nat) {g : FrameId},
    g < fuel → names[g]? = some n → ∃ a, h.homeFrom p.uid fuel g = some a := by
  intro fuel
  induction fuel with
  | zero => exact fun less => absurd less (Nat.not_lt_zero _)
  | succ fuel ih =>
    intro g less known
    obtain ⟨f, -, found, -, -⟩ := r.exists_frames known
    unfold Frames.homeFrom
    rw [found]
    by_cases declared : f.declares p.uid = true
    · exact ⟨g, if_pos declared⟩
    · simp only [declared, Bool.false_eq_true, if_false]
      cases up : f.parent with
      | none =>
        rcases r.outermost g n f known found up with same | here
        · exact absurd same other
        · exact absurd here declared
      | some a =>
        rcases r.outward g n f a known found up with same | ⟨-, here⟩
        -- parents are older than their frames, so the fuel lasts to the outermost one
        · have older : a < g := h.older g a f found up
          exact ih (Nat.lt_of_lt_of_le older (Nat.le_of_lt_succ less)) same
        · exact absurd here declared

/-- What is seen of a variable is the same. -/
theorem lookup (r : Renamed p names h h') (known : names[g]? = some n)
    (free : Parameter.Free p n u) :
    h'.lookup g (Parameter.renamedUid p n u) = h.lookup g u := by
  obtain ⟨same, named⟩ := r.homeFrom (u := u) (g + 1) known free
  unfold Frames.lookup Frames.home?
  rw [same]
  cases home : h.homeFrom u (g + 1) g with
  | none => rfl
  | some a =>
    obtain ⟨n', here, free', called⟩ := named a home
    obtain ⟨f, f', found, found', frames⟩ := r.exists_frames here
    simp only [Option.bind_eq_bind, Option.bind_some, found, found']
    rw [← called, frames.values u free']

/-- Under a new name the variable `p` has a value. -/
theorem exists_value (r : Renamed p names h h') (known : names[g]? = some n) (other : n ≠ p) :
    ∃ v, h.lookup g p.uid = some v := by
  obtain ⟨a, home⟩ := r.exists_home other (g + 1) (Nat.lt_succ_self g) known
  obtain ⟨f, found, here⟩ := homeFrom_declares home
  obtain ⟨v, bound⟩ := Option.isSome_iff_exists.1 here
  exact ⟨v, by rw [lookup_of_home home, found]; exact bound⟩

/-! ## Changes -/

/-- A variable that is given a value in a frame. -/
theorem set (r : Renamed p names h h') (known : names[g]? = some n) (free : Parameter.Free p n u)
    (v : Boxed) :
    Renamed p names (h.set g u v) (h'.set g (Parameter.renamedUid p n u) v) := by
  -- apart from their values the frames are what they were
  have before : ∀ {k f}, (h.set g u v).get? k = some f → ∃ e, h.get? k = some e ∧
      f.parent = e.parent ∧ (e.declares p.uid = true → f.declares p.uid = true) := by
    intro k f found
    rw [get?_set] at found
    split at found
    · obtain ⟨e, old, rfl⟩ := Option.map_eq_some_iff.1 found
      refine ⟨e, old, rfl, fun declared => ?_⟩
      rw [Frame.declares_set, declared, Bool.or_true]
    · exact ⟨f, found, rfl, id⟩
  constructor
  case size => rw [← r.size]; exact Array.size_modify
  case size' => rw [← r.size']; exact Array.size_modify
  case at_place =>
    intro k x f f' name found found'
    rw [get?_set] at found found'
    by_cases here : k = g
    · subst here
      rw [if_pos rfl] at found found'
      obtain ⟨e, old, rfl⟩ := Option.map_eq_some_iff.1 found
      obtain ⟨e', old', rfl⟩ := Option.map_eq_some_iff.1 found'
      rw [known] at name
      cases name
      exact (r.at_place k n e e' known old old').set free v
    · rw [if_neg here] at found found'
      exact r.at_place k x f f' name found found'
  case outward =>
    intro k x f a name found up
    obtain ⟨e, old, parent, kept⟩ := before found
    exact (r.outward k x e a name old (parent ▸ up)).imp id fun ⟨outer, here⟩ => ⟨outer, kept here⟩
  case outermost =>
    intro k x f name found up
    obtain ⟨e, old, parent, kept⟩ := before found
    exact (r.outermost k x e name old (parent ▸ up)).imp id kept

/-- An assignment takes place in both heaps or in none. -/
theorem assign (r : Renamed p names h h') (known : names[g]? = some n)
    (free : Parameter.Free p n u) (v : Boxed) :
    (h.assign g u v = none ∧ h'.assign g (Parameter.renamedUid p n u) v = none) ∨
    ∃ k k', h.assign g u v = some k ∧ h'.assign g (Parameter.renamedUid p n u) v = some k' ∧
      Renamed p names k k' := by
  obtain ⟨same, named⟩ := r.homeFrom (u := u) (g + 1) known free
  unfold Frames.assign Frames.home?
  rw [same]
  cases home : h.homeFrom u (g + 1) g with
  | none => exact .inl ⟨rfl, rfl⟩
  | some a =>
    obtain ⟨n', here, free', called⟩ := named a home
    rw [← called]
    exact .inr ⟨_, _, rfl, rfl, r.set here free' v⟩

theorem existing (r : Renamed p names h h') (parent : Option FrameId) :
    h'.existing parent = h.existing parent := by
  unfold Frames.existing
  rw [r.size, r.size']

/-- A frame that is opened on frames that correspond. -/
theorem push (r : Renamed p names h h') {parent : Option FrameId}
    {bindings bindings' : List (Nat × Boxed)}
    (frames : (Frame.ofBindings (h.existing parent) bindings).Renamed p n
      (Frame.ofBindings (h.existing parent) bindings'))
    (outward : ∀ a, h.existing parent = some a → names[a]? = some n ∨ (names[a]? = some p ∧
      (Frame.ofBindings (h.existing parent) bindings).declares p.uid = true))
    (outermost : h.existing parent = none → n = p ∨
      (Frame.ofBindings (h.existing parent) bindings).declares p.uid = true) :
    Renamed p (names.push n) (h.push parent bindings).2 (h'.push parent bindings').2 := by
  -- a frame is the new one or was there before
  have before : ∀ {k f x}, (h.push parent bindings).2.get? k = some f →
      (names.push n)[k]? = some x →
        (k = names.size ∧ x = n ∧ f = Frame.ofBindings (h.existing parent) bindings) ∨
        (h.get? k = some f ∧ names[k]? = some x) := by
    intro k f x found name
    rw [get?_push, r.size] at found
    rw [Array.getElem?_push] at name
    split at found
    next last =>
      rw [if_pos last] at name
      cases found
      cases name
      exact .inl ⟨last, rfl, rfl⟩
    next earlier =>
      rw [if_neg earlier] at name
      exact .inr ⟨found, name⟩
  constructor
  case size => simp [Frames.push, r.size]
  case size' => simp [Frames.push, r.size']
  case at_place =>
    intro k x f f' name found found'
    rw [get?_push, r.size', r.existing] at found'
    rcases before found name with ⟨rfl, rfl, rfl⟩ | ⟨old, known⟩
    · rw [if_pos rfl] at found'
      cases found'
      exact frames
    · have inside : k < names.size := (Array.getElem?_eq_some_iff.1 known).1
      rw [if_neg (Nat.ne_of_lt inside)] at found'
      exact r.at_place k x f f' known old found'
  case outward =>
    intro k x f a name found up
    rcases before found name with ⟨-, rfl, rfl⟩ | ⟨old, known⟩
    · rw [Frame.parent_ofBindings] at up
      exact (outward a up).imp (Grown.push names x a x) fun ⟨outer, here⟩ =>
        ⟨Grown.push names x a p outer, here⟩
    · exact (r.outward k x f a known old up).imp (Grown.push names n a x) fun ⟨outer, here⟩ =>
        ⟨Grown.push names n a p outer, here⟩
  case outermost =>
    intro k x f name found up
    rcases before found name with ⟨-, rfl, rfl⟩ | ⟨old, known⟩
    · rw [Frame.parent_ofBindings] at up
      exact outermost up
    · exact r.outermost k x f known old up

/-- A frame in a frame has the same name for the variable. -/
theorem push_inside (r : Renamed p names h h') (known : names[g]? = some n)
    {bindings : List (Nat × Boxed)} (free : ∀ b ∈ bindings, Parameter.Free p n b.1) :
    Renamed p (names.push n) (h.push (some g) bindings).2
      (h'.push (some g) (bindings.map (Prod.map (Parameter.renamedUid p n) id))).2 := by
  have inside : h.existing (some g) = some g := by
    have less : g < h.frames.size := r.size ▸ (Array.getElem?_eq_some_iff.1 known).1
    simp [Frames.existing, less]
  refine r.push (.ofBindings _ free) (fun a found => .inl ?_) fun none => ?_
  · rw [inside] at found
    cases found
    exact known
  · rw [inside] at none
    cases none

end Renamed

end Frames

end Knot
