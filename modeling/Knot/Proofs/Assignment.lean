import Knot.Proofs.Scopes
import Mathlib.Data.Finset.Sort
import Mathlib.Order.Extension.Well

/-!
# Assignments seen from all frames

The frames of a heap share parents, so their chains (`Frames.chain`) share ends. To read a variable is to go
along the chain to the first value that there is for it (`Frames.lookup_eq_findSome?`), and to assign to it
is to go along the chain to the first frame that declares it (`Frames.assign_eq`). Both stop at the same
frame.

So an assignment is refused just when a reading is. If it is not, one entry of one frame changes, and it is
seen from the frames whose chain leads to that frame before another one that declares the variable
(`Run.assign_changes`).

That parents are older than their children is no loss: a heap in which all chains of parents end can be
numbered like that (`Frames.exists_numbering`).
-/

namespace Knot

namespace Frame

/-- To bind a variable again changes no variable that is bound. -/
theorem keys_bind {u : Nat} {old : Boxed} {values : List (Nat × Boxed)} (v : Boxed)
    (bound : values.lookup u = some old) : (bind u v values).map Prod.fst = values.map Prod.fst := by
  induction values with
  | nil => cases bound
  | cons head rest ih =>
    obtain ⟨w, x⟩ := head
    unfold bind
    split
    next same => rw [same]; rfl
    next apart =>
      rw [List.lookup_cons, beq_eq_false_iff_ne.2 apart] at bound
      rw [List.map_cons, List.map_cons, ih bound]

end Frame

namespace Frames

/-! ## Chains -/

/-- A frame, its parent, the parent of that, and so on. -/
def chain (h : Frames) (f : FrameId) : List FrameId :=
  match found : h.get? f with
  | none => []
  | some frame =>
    match up : frame.parent with
    | none => [f]
    | some p =>
      have : p < f := h.older f p frame found up
      f :: h.chain p
termination_by f

/-- What a frame itself binds a variable to. -/
def value? (h : Frames) (u : Nat) (f : FrameId) : Option Boxed :=
  (h.get? f).bind fun frame => frame.get? u

/-- Whether a frame itself binds a variable. -/
def declares (h : Frames) (u : Nat) (f : FrameId) : Bool := (h.value? u f).isSome

/-- The variables that a frame itself binds. -/
def declared (h : Frames) (f : FrameId) : List Nat :=
  ((h.get? f).map fun frame => frame.values.map Prod.fst).getD []

/-- The first frame on the chain of another that declares a variable. -/
def nearest? (h : Frames) (u : Nat) (f : FrameId) : Option FrameId := (h.chain f).find? (h.declares u)

variable {h : Frames} {f : FrameId} {u : Nat}

theorem declares_of_get? {frame : Frame} (found : h.get? f = some frame) :
    h.declares u f = frame.declares u := by
  unfold declares value?
  rw [found]
  rfl

theorem chain_of_none (missing : h.get? f = none) : h.chain f = [] := by
  unfold chain
  split
  · rfl
  · next frame found => rw [missing] at found; cases found

/-- The chain of a frame begins with the frame and goes on with the chain of its parent. -/
theorem chain_of_get? {frame : Frame} (found : h.get? f = some frame) :
    h.chain f = f :: (frame.parent.map h.chain).getD [] := by
  rw [chain]
  split
  · next missing => rw [found] at missing; cases missing
  · next other there =>
    cases found.symm.trans there
    split
    · next top => simp only [top, Option.map_none, Option.getD_none]
    · next p up => simp only [up, Option.map_some, Option.getD_some]

/-- The home of a variable is the first frame on the chain that declares it. -/
theorem home?_eq_nearest? (h : Frames) (u : Nat) (f : FrameId) : h.home? f u = h.nearest? u f := by
  induction f using Nat.strongRecOn with
  | ind f ih =>
    unfold home? homeFrom nearest?
    cases found : h.get? f with
    | none => rw [chain_of_none found]; rfl
    | some frame =>
      rw [chain_of_get? found, List.find?_cons, declares_of_get? found]
      cases own : frame.declares u with
      | true => simp only [own, if_true]
      | false =>
        simp only [own, Bool.false_eq_true, if_false]
        cases up : frame.parent with
        | none => rfl
        | some p =>
          have older : @LT.lt Nat _ p f := h.older f p frame found up
          simp only [Option.map_some, Option.getD_some]
          rw [homeFrom_of_lt older]
          exact ih p older

/-- A variable is read by going along the chain to the first value for it. -/
theorem lookup_eq_findSome? (h : Frames) (f : FrameId) (u : Nat) :
    h.lookup f u = (h.chain f).findSome? (h.value? u) := by
  rw [lookup, home?_eq_nearest?]
  show (h.nearest? u f).bind (h.value? u) = _
  unfold nearest? declares
  induction h.chain f with
  | nil => rfl
  | cons g rest ih =>
    rw [List.find?_cons, List.findSome?_cons]
    cases own : h.value? u g with
    | none => simpa [own] using ih
    | some v => simp [own]

/-- It is assigned to by going along the chain to the first frame that declares it. -/
theorem assign_eq (h : Frames) (f : FrameId) (u : Nat) (v : Boxed) :
    h.assign f u v = ((h.chain f).find? (h.declares u)).map fun home => h.set home u v := by
  rw [assign, home?_eq_nearest?]
  rfl

/-- Both loops come to the end of the chain, or neither does. -/
theorem assign_eq_none_iff (v : Boxed) : h.assign f u v = none ↔ h.lookup f u = none := by
  rw [assign_eq, lookup_eq_findSome?, Option.map_eq_none_iff, List.find?_eq_none,
    List.findSome?_eq_none_iff]
  simp [declares]

/-! ## What changes -/

/-- Of two heaps, whether the second is the first with one entry of one frame changed. -/
structure Assigned (h h' : Frames) (u : Nat) (v : Boxed) (home : FrameId) : Prop where
  /-- The entry for the variable in the one frame is new, and all entries else are old. -/
  entries : ∀ w g, h'.value? w g = if w = u ∧ g = home then some v else h.value? w g
  /-- Every frame declares the variables that it has declared. -/
  declared : ∀ g, h'.declared g = h.declared g
  /-- No chain is changed. -/
  chain : ∀ g, h'.chain g = h.chain g
  /-- The new value is seen from the frames whose nearest frame that declares the variable is the one that
  was changed. All else is seen as before. -/
  lookup : ∀ w g, h'.lookup g w =
    if w = u ∧ h.nearest? u g = some home then some v else h.lookup g w

theorem value?_set {home : FrameId} (declares : h.declares u home = true) (v : Boxed) (w : Nat)
    (g : FrameId) :
    (h.set home u v).value? w g = if w = u ∧ g = home then some v else h.value? w g := by
  unfold value?
  rw [get?_set]
  by_cases here : g = home
  · subst here
    obtain ⟨old, bound⟩ := Option.isSome_iff_exists.1 declares
    obtain ⟨frame, found, -⟩ := Option.bind_eq_some_iff.1 bound
    simp [found, Frame.get?_set]
  · simp [here]

theorem declared_set {home : FrameId} (declares : h.declares u home = true) (v : Boxed) (g : FrameId) :
    (h.set home u v).declared g = h.declared g := by
  unfold declared
  rw [get?_set]
  split
  next here =>
    subst here
    obtain ⟨old, bound⟩ := Option.isSome_iff_exists.1 declares
    obtain ⟨frame, found, own⟩ := Option.bind_eq_some_iff.1 bound
    simp only [found, Option.map_some, Option.getD_some]
    exact Frame.keys_bind v own
  next => rfl

/-- Chains are made of parents, which no assignment changes. -/
theorem chain_set (h : Frames) (home : FrameId) (u : Nat) (v : Boxed) (g : FrameId) :
    (h.set home u v).chain g = h.chain g := by
  induction g using Nat.strongRecOn with
  | ind g ih =>
    have there := get?_set h home g u v
    cases found : h.get? g with
    | none =>
      rw [found, Option.map_none, ite_self] at there
      rw [chain_of_none there, chain_of_none found]
    | some frame =>
      -- the frame there has the parent that it had, whether it is the one that was changed or not
      obtain ⟨frame', found', parent⟩ : ∃ frame', (h.set home u v).get? g = some frame' ∧
          frame'.parent = frame.parent := by
        rw [found] at there
        split at there
        · exact ⟨_, there, Frame.parent_set _ _ _⟩
        · exact ⟨_, there, rfl⟩
      rw [chain_of_get? found', chain_of_get? found, parent]
      cases up : frame.parent with
      | none => rfl
      | some p =>
        have older : @LT.lt Nat _ p g := h.older g p frame found up
        simp only [Option.map_some, ih p older]

theorem lookup_set {home : FrameId} (declares : h.declares u home = true) (v : Boxed) (w : Nat)
    (g : FrameId) : (h.set home u v).lookup g w =
      if w = u ∧ h.nearest? u g = some home then some v else h.lookup g w := by
  have entries := value?_set declares v
  have homes (w : Nat) : (h.set home u v).nearest? w g = h.nearest? w g := by
    unfold nearest?
    rw [chain_set]
    congr 1
    funext k
    unfold Frames.declares
    rw [entries]
    split
    next same => rw [same.1, same.2]; exact declares.symm
    next => rfl
  rw [lookup, lookup, home?_eq_nearest?, home?_eq_nearest?, homes]
  show (h.nearest? w g).bind ((h.set home u v).value? w) = if _ then _ else (h.nearest? w g).bind (h.value? w)
  cases place : h.nearest? w g with
  | none =>
    rw [if_neg]
    · rfl
    · rintro ⟨rfl, there⟩
      rw [place] at there
      cases there
  | some other =>
    rw [Option.bind_some, Option.bind_some, entries]
    refine if_congr (and_congr_right fun same => ?_) rfl rfl
    rw [← same, place, Option.some.injEq]

theorem assigned_set {home : FrameId} (declares : h.declares u home = true) (v : Boxed) :
    h.Assigned (h.set home u v) u v home :=
  ⟨value?_set declares v, declared_set declares v, chain_set h home u v, lookup_set declares v⟩

/-! ## Any heap without endless chains -/

/-- A finite set can be numbered along a relation that has no endless chains. -/
theorem exists_increasing {α : Type} [Fintype α] {n : Nat} (card : Fintype.card α = n)
    {r : α → α → Prop} (ends : WellFounded r) :
    ∃ number : α ≃ Fin n, ∀ a b, r a b → number a < number b := by
  have : IsWellFounded α r := ⟨ends⟩
  let : LinearOrder α := IsWellFounded.wellOrderExtension r
  have increasing : ∀ a b, r a b → a < b :=
    fun a b below => Prod.Lex.left _ _ (IsWellFounded.rank_lt_of_rel below)
  let numbering := (Fintype.orderIsoFinOfCardEq α card).symm
  exact ⟨numbering.toEquiv, fun a b below => numbering.lt_iff_lt.2 (increasing a b below)⟩

/-- Whether one place of an array of frames is the parent of another. -/
def IsParent (frames : Array Frame) (p f : Fin frames.size) : Prop := frames[f].parent = some p.val

/-- A frame whose parent has been given another number. -/
def renumbered {n : Nat} (number : Fin n → Fin n) (frame : Frame) : Frame where
  values := frame.values
  parent := frame.parent.map fun p => if inside : p < n then number ⟨p, inside⟩ else p

/-- Frames whose chains of parents all end are a heap, but for the numbers that they have. -/
theorem exists_numbering (frames : Array Frame)
    (inside : ∀ f : Fin frames.size, ∀ p, frames[f].parent = some p → p < frames.size)
    (ends : WellFounded (IsParent frames)) :
    ∃ (number : Equiv.Perm (Fin frames.size)) (h : Frames), h.frames.size = frames.size ∧
      ∀ f, h.get? (number f) = some (renumbered number frames[f]) := by
  obtain ⟨number, increasing⟩ := exists_increasing (Fintype.card_fin frames.size) ends
  -- at the place of a number stands the frame that has the number
  let numbered : Array Frame := Array.ofFn fun i => renumbered number frames[number.symm i]
  have size : numbered.size = frames.size := Array.size_ofFn
  have at_number (i : Fin frames.size) : numbered[i.val]? = some (renumbered number frames[number.symm i]) := by
    rw [Array.getElem?_ofFn, dif_pos i.isLt]
  refine ⟨number, ⟨numbered, ?_⟩, size, fun f => ?_⟩
  · intro i p frame there up
    have below : i < frames.size := size ▸ (Array.getElem?_eq_some_iff.1 there).1
    rw [at_number ⟨i, below⟩] at there
    cases there
    obtain ⟨q, parent, rfl⟩ := Option.map_eq_some_iff.1 up
    rw [dif_pos (inside _ q parent)]
    have older := increasing ⟨q, inside _ q parent⟩ _ parent
    rwa [Equiv.apply_symm_apply] at older
  · show numbered[(number f).val]? = _
    rw [at_number]
    simp only [Equiv.symm_apply_apply]

end Frames

namespace Run

/-- What an assignment to a variable does, and how it is seen from all frames. -/
structure AssignChanges (m : Machine) (f : FrameId) (x : Parameter) (v : Boxed) : Prop where
  /-- It fails just when reading the variable fails. -/
  fails_iff : (∃ e, (assign f x v m).1 = .fault e) ↔ ∃ e, (lookup f x m).1 = .fault e
  /-- Then nothing changes. -/
  failed : ∀ e, (assign f x v m).1 = .fault e →
    assign f x v m = (.fault (.unsupported (.undeclared x.name)), m)
  /-- Otherwise one entry changes, that for the variable in the first frame on the chain that declares
  it. -/
  assigned : (¬ ∃ e, (assign f x v m).1 = .fault e) → ∃ home h', m.frames.nearest? x.uid f = some home ∧
    assign f x v m = (.value (), { m with frames := h' }) ∧ m.frames.Assigned h' x.uid v home

/-- An assignment is refused just when a reading is, and changes nothing then. Otherwise it changes what
is visible there, and nothing else. -/
theorem assign_changes (m : Machine) (f : FrameId) (x : Parameter) (v : Boxed) :
    AssignChanges m f x v := by
  have same := Frames.assign_eq_none_iff (h := m.frames) (f := f) (u := x.uid) v
  cases done : m.frames.assign f x.uid v with
  | none =>
    have refused : assign f x v m = (.fault (.unsupported (.undeclared x.name)), m) := by
      simp only [assign, done]
    have unread : lookup f x m = (.fault (.unsupported (.unbound x.name)), m) := by
      simp only [lookup, same.1 done]
    refine ⟨?_, fun _ _ => refused, fun fine => absurd ⟨_, by rw [refused]⟩ fine⟩
    exact ⟨fun _ => ⟨_, by rw [unread]⟩, fun _ => ⟨_, by rw [refused]⟩⟩
  | some h' =>
    have accepted : assign f x v m = (.value (), { m with frames := h' }) := by
      simp only [assign, done]
    obtain ⟨old, bound⟩ : ∃ old, m.frames.lookup f x.uid = some old := by
      refine Option.ne_none_iff_exists'.1 fun unbound => ?_
      rw [same.2 unbound] at done
      cases done
    have read : lookup f x m = (.value old, m) := by simp only [lookup, bound]
    have fine : ¬ ∃ e, (assign f x v m).1 = .fault e := by
      rw [accepted]
      rintro ⟨e, ⟨⟩⟩
    refine ⟨⟨fun fails => absurd fails fine, ?_⟩, fun e fails => absurd ⟨e, fails⟩ fine, fun _ => ?_⟩
    · rw [read]
      rintro ⟨e, ⟨⟩⟩
    · rw [Frames.assign_eq] at done
      obtain ⟨home, found, rfl⟩ := Option.map_eq_some_iff.1 done
      exact ⟨home, _, found, accepted, Frames.assigned_set (List.find?_some found) v⟩

end Run

end Knot
