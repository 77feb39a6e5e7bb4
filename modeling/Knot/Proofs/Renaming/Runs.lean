import Knot.Proofs.Apart
import Knot.Proofs.Renaming.Frames

/-!
# Runs that mirror each other

Two machines correspond if their frames do and the bodies of their functions are renamed as the frames
say (`Machine.Renamed`). Two runs mirror each other if from machines that correspond they end in the same
outcome and leave machines that correspond (`Run.Mirrors`). The judgement passes through the ways to
compose runs; a run apart from frames and functions mirrors itself.
-/

namespace Knot

/-! ## Machines that correspond -/

/-- Two functions that are the same but for the name of `p` in the frame of a closure. -/
inductive Callable.Renamed (p : Parameter) (names : Array Parameter) : Callable → Callable → Prop
  | closure {n : Parameter} {ps : List Nat} {body : Expr} {frame : FrameId} {context : Context}
      (known : names[frame]? = some n) (free : ∀ u ∈ ps, Parameter.Free p n u)
      (renames : body.Renames p n) :
      Renamed p names (.closure ps body frame context)
        (.closure (ps.map (Parameter.renamedUid p n)) (body.renamed p n) frame context)
  | collector (collected : List Boxed) (missing : Nat) :
      Renamed p names (.collector collected missing) (.collector collected missing)
  | thunk (result : Boxed) : Renamed p names (.thunk result) (.thunk result)
  | wrapper (inner : Boxed) : Renamed p names (.wrapper inner) (.wrapper inner)

/-- Two tables of functions that correspond, one by one. -/
structure FunctionsRenamed (p : Parameter) (names : Array Parameter)
    (functions functions' : Array Callable) : Prop where
  size : functions'.size = functions.size
  at_place : ∀ (id : Nat) (c c' : Callable), functions[id]? = some c → functions'[id]? = some c' →
    c.Renamed p names c'

/-- Two machines that are the same but for the name of `p` in frames and functions. -/
inductive Machine.Renamed (p : Parameter) (names : Array Parameter) (m : Machine) : Machine → Prop
  | mk {frames' : Frames} {functions' : Array Callable} (frames : m.frames.Renamed p names frames')
      (functions : FunctionsRenamed p names m.functions functions') :
      Renamed p names m { m with frames := frames', functions := functions' }

section

variable {p : Parameter} {names names' : Array Parameter}

theorem Callable.Renamed.grown {c c' : Callable} (h : c.Renamed p names c')
    (grown : Grown names names') : c.Renamed p names' c' := by
  cases h with
  | closure known free renames => exact .closure (grown _ _ known) free renames
  | collector collected missing => exact .collector collected missing
  | thunk result => exact .thunk result
  | wrapper inner => exact .wrapper inner

theorem FunctionsRenamed.grown {functions functions' : Array Callable}
    (h : FunctionsRenamed p names functions functions') (grown : Grown names names') :
    FunctionsRenamed p names' functions functions' :=
  ⟨h.size, fun id c c' found found' => (h.at_place id c c' found found').grown grown⟩

/-- A function that is added goes to the same place. -/
theorem FunctionsRenamed.push {functions functions' : Array Callable} {c c' : Callable}
    (h : FunctionsRenamed p names functions functions') (new : c.Renamed p names c') :
    FunctionsRenamed p names (functions.push c) (functions'.push c') := by
  refine ⟨by simp [h.size], fun id e e' found found' => ?_⟩
  rw [Array.getElem?_push] at found found'
  rw [h.size] at found'
  by_cases last : id = functions.size
  · rw [if_pos last] at found found'
    cases found
    cases found'
    exact new
  · rw [if_neg last] at found found'
    exact h.at_place id e e' found found'

end

/-! ## The judgement -/

namespace Run

/-- From machines that correspond to the same outcome and to machines that correspond, now and after
frames have been added. -/
def Mirrors {α : Type} (p : Parameter) (names : Array Parameter) (x y : Run α) : Prop :=
  ∀ names', Grown names names' → ∀ m m', m.Renamed p names' m' →
    ∃ names'', Grown names' names'' ∧ (y m').1 = (x m).1 ∧ (x m).2.Renamed p names'' (y m').2

namespace Mirrors

variable {α β : Type} {p n : Parameter} {names names' : Array Parameter} {frame : FrameId}

theorem grown {x y : Run α} (h : Mirrors p names x y) (grown : Grown names names') :
    Mirrors p names' x y := fun names'' grown' => h names'' (grown.trans grown')

/-- A run apart from frames and functions mirrors itself. -/
theorem of_apart {x : Run α} (apart : x.Apart) : Mirrors p names x x := by
  rintro names' - m _ ⟨frames, functions⟩
  rename_i frames' functions'
  rw [apart m frames' functions']
  refine ⟨names', .refl _, rfl, .mk ?_ ?_⟩
  · rw [apart.frames m]
    exact frames
  · rw [apart.functions m]
    exact functions

theorem of_pure (a : α) : Mirrors p names (pure a) (pure a) := of_apart (.of_pure a)

theorem fail (f : Fault) : Mirrors p names (Run.fail f : Run α) (Run.fail f) := of_apart (.fail f)

theorem done (o : Outcome α) : Mirrors p names (Run.done o) (Run.done o) :=
  of_apart fun _ _ _ => rfl

/-- Two runs that are followed by others. -/
theorem onward {x y : Run α} {f g : Outcome α → Run β} (first : Mirrors p names x y)
    (second : ∀ o, Mirrors p names (f o) (g o)) :
    Mirrors p names (x.onward f) (y.onward g) := by
  intro names' grown m m' machines
  obtain ⟨names'', grown', same, left⟩ := first names' grown m m' machines
  unfold Run.onward
  generalize x m = r at same left ⊢
  generalize y m' = r' at same left ⊢
  obtain ⟨o, after⟩ := r
  obtain ⟨o', after'⟩ := r'
  cases same
  cases o with
  | exhausted => exact ⟨names'', grown', rfl, left⟩
  | value | fault | jump =>
    obtain ⟨last, further, same, rest⟩ := second _ names'' (grown.trans grown') after after' left
    exact ⟨last, grown'.trans further, same, rest⟩

/-- One run after another. -/
theorem bind {x y : Run α} {f g : α → Run β} (first : Mirrors p names x y)
    (second : ∀ a, Mirrors p names (f a) (g a)) : Mirrors p names (x >>= f) (y >>= g) := by
  rw [Run.bind_eq_onward, Run.bind_eq_onward]
  refine onward first fun o => ?_
  cases o with
  | value a => exact second a
  | fault | jump | exhausted => exact done _

theorem ite {c : Prop} [Decidable c] {x x' y y' : Run α} (left : Mirrors p names x x')
    (right : Mirrors p names y y') : Mirrors p names (if c then x else y) (if c then x' else y') := by
  split
  · exact left
  · exact right

theorem sealed {x y : Run Boxed} (h : Mirrors p names x y) : Mirrors p names x.sealed y.sealed := by
  rw [Run.sealed_eq_onward, Run.sealed_eq_onward]
  refine onward h fun o => ?_
  cases o with
  | jump => exact fail _
  | value | fault | exhausted => exact done _

/-! ## Frames -/

theorem lookup {x : Parameter} (known : names[frame]? = some n) (fits : x.Fits p n) :
    Mirrors p names (Run.lookup frame x) (Run.lookup frame (x.renamed p n)) := by
  rintro names' grown m _ ⟨frames, functions⟩
  rename_i frames' functions'
  have known := grown _ _ known
  have same := frames.lookup known fits.free
  rw [← fits.renamed_uid] at same
  refine ⟨names', .refl _, ?_⟩
  unfold Run.lookup
  simp only [same]
  cases found : m.frames.lookup frame x.uid with
  | some v => exact ⟨rfl, .mk frames functions⟩
  | none =>
    -- the fault tells the name of the variable, which is that of `p` only if `p` keeps its name
    have kept : x.renamed p n = x := by
      unfold Parameter.renamed
      split
      next here =>
        subst here
        by_contra other
        obtain ⟨v, value⟩ := frames.exists_value known other
        rw [value] at found
        cases found
      next => rfl
    rw [kept]
    exact ⟨rfl, .mk frames functions⟩

theorem assign {x : Parameter} (known : names[frame]? = some n) (fits : x.Fits p n) (v : Boxed) :
    Mirrors p names (Run.assign frame x v) (Run.assign frame (x.renamed p n) v) := by
  rintro names' grown m _ ⟨frames, functions⟩
  rename_i frames' functions'
  have known := grown _ _ known
  refine ⟨names', .refl _, ?_⟩
  unfold Run.assign
  rw [fits.renamed_uid]
  rcases frames.assign known fits.free v with ⟨absent, absent'⟩ | ⟨k, k', done, done', after⟩
  · have kept : x.renamed p n = x := by
      unfold Parameter.renamed
      split
      next here =>
        subst here
        by_contra other
        obtain ⟨old, value⟩ := frames.exists_value known other
        obtain ⟨assigned, done⟩ := Frames.assign_of_lookup value v
        rw [done] at absent
        cases absent
      next => rfl
    simp only [absent, absent', kept]
    exact ⟨trivial, .mk frames functions⟩
  · simp only [done, done']
    exact ⟨trivial, .mk after functions⟩

/-- A frame in a frame, and what is done in it. -/
theorem openFrame_bind {bindings : List (Nat × Boxed)} {f g : FrameId → Run β}
    (known : names[frame]? = some n) (free : ∀ b ∈ bindings, Parameter.Free p n b.1)
    (second : ∀ names' inner, Grown names names' → names'[inner]? = some n →
      Mirrors p names' (f inner) (g inner)) :
    Mirrors p names (Run.openFrame (some frame) bindings >>= f)
      (Run.openFrame (some frame) (bindings.map (Prod.map (Parameter.renamedUid p n) id)) >>= g) := by
  rintro names' grown m _ ⟨frames, functions⟩
  rename_i frames' functions'
  have opened := frames.push_inside (grown _ _ known) free
  have added := Grown.push names' n
  have inner : (names'.push n)[names'.size]? = some n := by simp
  have machines : ({ m with frames := (m.frames.push (some frame) bindings).2 } : Machine).Renamed p
      (names'.push n) { m with
        frames := (frames'.push (some frame)
          (bindings.map (Prod.map (Parameter.renamedUid p n) id))).2
        functions := functions' } := .mk opened (functions.grown added)
  obtain ⟨names'', grown', same, rest⟩ :=
    second _ _ (grown.trans added) inner _ (.refl _) _ _ machines
  refine ⟨names'', added.trans grown', ?_⟩
  have first := frames.size
  have first' := frames.size'
  show (g frames'.frames.size _).1 = (f m.frames.frames.size _).1 ∧
    Machine.Renamed p names'' (f m.frames.frames.size _).2 (g frames'.frames.size _).2
  rw [first, first']
  exact ⟨same, rest⟩

/-- The frame of a block, and what is done in it. -/
theorem blockFrame_bind {locals : List Parameter} {f g : FrameId → Run β}
    (known : names[frame]? = some n)
    (fits : n ≠ p → ∀ x ∈ locals, x.uid ≠ n.uid ∧ x.uid ≠ p.uid)
    (second : ∀ names' inner, Grown names names' → names'[inner]? = some n →
      Mirrors p names' (f inner) (g inner)) :
    Mirrors p names (Run.blockFrame frame locals >>= f) (Run.blockFrame frame locals >>= g) := by
  unfold Run.blockFrame
  split
  · exact second names frame (.refl _) known
  · have kept : ∀ x ∈ locals, Parameter.renamedUid p n x.uid = x.uid := by
      intro x inside
      by_cases same : n = p
      · rw [same, Parameter.renamedUid_self]
      · exact Parameter.renamedUid_of_ne (fits same x inside).2
    have free : ∀ b ∈ locals.map fun x => (x.uid, Boxed.none), Parameter.Free p n b.1 := by
      intro b inside other
      obtain ⟨x, declared, rfl⟩ := List.mem_map.1 inside
      exact (fits other x declared).1
    have same : (locals.map fun x => (x.uid, Boxed.none)).map (Prod.map (Parameter.renamedUid p n) id) =
        locals.map fun x => (x.uid, Boxed.none) := by
      rw [List.map_map]
      exact List.map_congr_left fun x inside => congrArg (·, Boxed.none) (kept x inside)
    have opened := openFrame_bind known free second
    rwa [same] at opened

/-! ## Functions -/

theorem addFunction {c c' : Callable} (new : c.Renamed p names c') :
    Mirrors p names (Run.addFunction c) (Run.addFunction c') := by
  rintro names' grown m _ ⟨frames, functions⟩
  rename_i frames' functions'
  refine ⟨names', .refl _, congrArg Outcome.value functions.size, ?_⟩
  exact .mk (m := { m with functions := m.functions.push c }) frames
    (functions.push (new.grown grown))

theorem newFunction {c c' : Callable} (new : c.Renamed p names c') :
    Mirrors p names (Run.newFunction c) (Run.newFunction c') :=
  (addFunction new).bind fun _ => of_pure _

/-- A run of a host function mirrors itself. -/
theorem of_apart_or_collects {x : Run Boxed} (h : x.ApartOrCollects) : Mirrors p names x x := by
  rcases h with apart | ⟨collected, k, rfl⟩
  · exact of_apart apart
  · exact newFunction (.collector collected k)

/-- A function that is looked up, and what is done with it. -/
theorem callable_bind {id : Nat} {f g : Callable → Run β}
    (second : ∀ names' c c', Grown names names' → c.Renamed p names' c' →
      Mirrors p names' (f c) (g c')) :
    Mirrors p names (Run.callable id >>= f) (Run.callable id >>= g) := by
  rintro names' grown m _ ⟨frames, functions⟩
  rename_i frames' functions'
  have machines : m.Renamed p names' { m with frames := frames', functions := functions' } :=
    .mk frames functions
  cases found : m.functions[id]? with
  | none =>
    have beyond : functions'.size ≤ id := by
      rw [functions.size]
      exact Array.getElem?_eq_none_iff.1 found
    have absent : functions'[id]? = none := Array.getElem?_eq_none beyond
    refine ⟨names', .refl _, ?_⟩
    rw [Run.bind_of_fault (Run.callable_of_none found), Run.bind_of_fault (Run.callable_of_none absent)]
    exact ⟨rfl, machines⟩
  | some c =>
    have inside : id < functions'.size := by
      rw [functions.size]
      exact (Array.getElem?_eq_some_iff.1 found).1
    have found' : functions'[id]? = some functions'[id] := Array.getElem?_eq_getElem inside
    have alike := functions.at_place id c _ found found'
    obtain ⟨names'', grown', same, rest⟩ :=
      second names' c _ grown alike names' (.refl _) m _ machines
    refine ⟨names'', grown', ?_⟩
    rw [Run.bind_of_value (Run.callable_of_some found), Run.bind_of_value (Run.callable_of_some found')]
    exact ⟨same, rest⟩

/-- What can be told of a function does not depend on the name of a variable. -/
theorem functionMember (owner : Value) (name : String) :
    Mirrors p names (Run.functionMember owner name) (Run.functionMember owner name) := by
  unfold Run.functionMember
  split
  · refine callable_bind fun names' c c' _ alike => ?_
    have same : Run.functionName c' = Run.functionName c := by
      cases alike <;> rfl
    rw [same]
    exact of_apart (.box _)
  · refine callable_bind fun names' c c' _ alike => ?_
    cases alike with
    | wrapper inner => exact of_pure inner
    | closure | collector | thunk => exact fail _
  · exact fail _

theorem member (owner : Boxed) (name : String) :
    Mirrors p names (Run.member owner name) (Run.member owner name) := by
  unfold Run.member
  refine (of_apart (.read fun _ _ _ => rfl)).bind fun given => ?_
  split
  · exact of_pure _
  · split
    · exact of_pure _
    · exact of_apart (.box _)
    · exact of_apart (.box _)
    · exact fail _
    · exact functionMember _ _

theorem wrapResult (f : PureFunction) (v : Boxed) :
    Mirrors p names (Run.wrapResult f v) (Run.wrapResult f v) := by
  unfold Run.wrapResult
  split
  · split
    · exact (addFunction (.wrapper v)).bind fun _ => of_pure _
    · exact of_pure _
  · exact of_pure _

/-! ## Caches and splits -/

theorem lookupOrCompute {c : CacheId} {function argument : Boxed} {x y : Run Boxed}
    (compute : Mirrors p names x y) :
    Mirrors p names (Run.lookupOrCompute c function argument x)
      (Run.lookupOrCompute c function argument y) := by
  unfold Run.lookupOrCompute
  refine (of_apart (.onCache _ _)).bind fun begun => ?_
  cases begun with
  | bypassed => exact compute
  | hit result => exact of_pure result
  | pending ticket => exact compute.bind fun _ => of_apart (.onCache _ _)

theorem releasing {x y : Run α} {pool : PoolId} {slots : Value} (h : Mirrors p names x y) :
    Mirrors p names (Run.releasing pool slots x) (Run.releasing pool slots y) := by
  rw [Run.releasing_eq_onward, Run.releasing_eq_onward]
  exact onward h fun o => (of_apart (.tryPool _ _)).bind fun _ => done o

theorem both {x y : Run α} {x' y' : Run β} (rightFirst : Bool) (left : Mirrors p names x y)
    (right : Mirrors p names x' y') :
    Mirrors p names (Run.both rightFirst x x') (Run.both rightFirst y y') := by
  rw [Run.both_eq_onward, Run.both_eq_onward]
  split
  · exact onward right fun b => onward left fun a => done _
  · exact onward left fun a => onward right fun b => done _

theorem splitBinary {op : BinaryOp} {x y x' y' : Run Boxed} {pool : Option PoolId}
    (left : Mirrors p names x y) (right : Mirrors p names x' y') :
    Mirrors p names (Run.splitBinary op x x' pool) (Run.splitBinary op y y' pool) := by
  unfold Run.splitBinary
  refine ite (bind ?_ fun _ => of_apart (.boxResult _)) (fail _)
  unfold Run.operands
  refine (of_apart (.resolvePool pool)).bind fun place => ?_
  refine (of_apart (.reserve place _)).bind fun reserved => ite ?_ ?_
  · unfold Run.split
    refine (of_apart (.read fun _ _ _ => rfl)).bind fun rightFirst => ?_
    refine (of_apart (.onPool place _)).bind fun _ => releasing ?_
    exact (of_apart (.tryPool place _)).bind fun _ => both rightFirst left right
  · unfold Run.sequential
    refine (of_apart (.onPool place _)).bind fun _ => ?_
    exact left.bind fun a => right.bind fun b => of_pure (a, b)

/-! ## Blocks and loops -/

/-- Steps with the same labels that mirror each other, one by one. -/
abbrev Steps (p : Parameter) (names : Array Parameter) : List Step → List Step → Prop :=
  List.Forall₂ fun s s' => s'.label = s.label ∧ Mirrors p names s.run s'.run

theorem runAll {steps steps' : List Step} (each : Steps p names steps steps') (v : Boxed) :
    Mirrors p names (Step.runAll steps v) (Step.runAll steps' v) := by
  induction each generalizing v with
  | nil => exact of_pure v
  | cons first _ ih => exact first.2.bind fun w => ih w

/-- The steps behind a label mirror each other. -/
theorem after? {steps steps' : List Step} (each : Steps p names steps steps') (target : Nat) :
    Option.Rel (Steps p names) (Step.after? target steps) (Step.after? target steps') := by
  induction each with
  | nil => exact .none
  | cons first rest ih =>
    unfold Step.after?
    rw [first.1]
    generalize Step.after? target _ = behind at ih
    generalize Step.after? target _ = behind' at ih
    cases ih with
    | some found => exact .some found
    | none =>
      simp only
      split
      · exact .some rest
      · exact .none

theorem runFrom {all all' : List Step} (whole : Steps p names all all') (fuel : Nat) :
    ∀ {rest rest' : List Step} (v : Boxed), Steps p names rest rest' →
      Mirrors p names (Step.runFrom all fuel rest v) (Step.runFrom all' fuel rest' v) := by
  induction fuel with
  | zero => exact fun _ _ => done .exhausted
  | succ fuel ih =>
    intro rest rest' v each
    rw [Step.runFrom_succ, Step.runFrom_succ]
    refine onward (runAll each v) fun o => ?_
    cases o with
    | value | fault | exhausted => exact done _
    | jump target w =>
      simp only
      have behind := after? whole target
      generalize Step.after? target all = b at behind
      generalize Step.after? target all' = b' at behind
      cases behind with
      | none => exact done _
      | some found => exact ih w found

theorem loop {x y : Run Boxed} (turn : Mirrors p names x y) (breakLabel continueLabel : Option Nat)
    (fuel : Nat) :
    Mirrors p names (Run.loop x breakLabel continueLabel fuel)
      (Run.loop y breakLabel continueLabel fuel) := by
  induction fuel with
  | zero => exact done .exhausted
  | succ fuel ih =>
    rw [Run.loop_succ, Run.loop_succ]
    refine onward turn fun o => ?_
    cases o with
    | value v => exact ih
    | jump target v => exact ite (of_pure v) (ite ih (done _))
    | fault | exhausted => exact done _

end Mirrors

end Run

end Knot
