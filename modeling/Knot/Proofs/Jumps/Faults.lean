import Knot.Host
import Knot.Split
import Knot.Value.Method

/-!
# Faults of operations on values

An `unsupported` fault is about a tree or about a jump: no operation on values fails so, be it an
operator, a conversion, a comparison, a method, a host function, or a step of a cache or a pool
(`Supported`). So whoever sees such a fault knows that it is the evaluation of a tree that made it.
-/

namespace Knot

/-- Whether a computation does not end in an `unsupported` fault. -/
def Supported {α : Type} (x : Except Fault α) : Prop := ∀ u, x ≠ .error (.unsupported u)

section

variable {α β : Type}

@[simp] theorem supported_ok (a : α) : Supported (.ok a) := by
  rintro u ⟨⟩

@[simp] theorem supported_pure (a : α) : Supported (pure a) := supported_ok a

@[simp] theorem supported_error {f : Fault} :
    Supported (.error f : Except Fault α) ↔ ∀ u, f ≠ .unsupported u := by
  simp [Supported]

@[simp] theorem supported_throw {f : Fault} :
    Supported (throw f : Except Fault α) ↔ ∀ u, f ≠ .unsupported u := supported_error

@[simp] theorem supported_map {x : Except Fault α} {f : α → β} :
    Supported (x.map f) ↔ Supported x := by
  cases x <;> simp [Except.map]

/-- One computation after another. -/
theorem Supported.bind {x : Except Fault α} {g : α → Except Fault β} (first : Supported x)
    (second : ∀ a, Supported (g a)) : Supported (x >>= g) := by
  cases x with
  | ok a => exact second a
  | error f => simpa [Bind.bind, Except.bind] using first

theorem Supported.ite {c : Prop} [Decidable c] {x y : Except Fault α} (left : Supported x)
    (right : Supported y) : Supported (if c then x else y) := by
  split
  · exact left
  · exact right

end

/-! ## Conversions -/

@[simp] theorem supported_toInt_floating {p : Precision} (x : Floating p) : Supported x.toInt := by
  unfold Floating.toInt
  split
  · simp
  · split <;> simp

@[simp] theorem supported_ofUnbounded {p : Precision} (v : Int) :
    Supported (Floating.ofUnbounded v : Except Fault (Floating p)) := by
  unfold Floating.ofUnbounded
  simp only
  split <;> simp

@[simp] theorem supported_toInt_scalar (s : Scalar) : Supported s.toInt := by
  cases s <;> simp [Scalar.toInt]

@[simp] theorem supported_toInt (v : Value) : Supported v.toInt := by
  unfold Value.toInt
  repeat' split
  all_goals simp

@[simp] theorem supported_toDouble (v : Value) : Supported v.toDouble := by
  unfold Value.toDouble
  repeat' split
  all_goals simp

@[simp] theorem supported_toFloating (p : Precision) (v : Value) : Supported (v.toFloating p) := by
  unfold Value.toFloating
  split <;> simp

@[simp] theorem supported_toScalar (v : Value) : Supported v.toScalar := by
  unfold Value.toScalar
  split <;> simp

@[simp] theorem supported_check (t : IntType) (v : Int) : Supported (t.check v) := by
  unfold IntType.check IntType.rangeFault
  split
  · simp
  · split <;> simp

@[simp] theorem supported_bring (t : IntType) (checked : Bool) (v : Int) :
    Supported (t.bring checked v) := by
  unfold IntType.bring
  split <;> simp

theorem supported_coerce (t : StaticType) (v : Value) : Supported (t.coerce v) := by
  unfold StaticType.coerce ValueType.coerce
  split
  · split
    · simp
    · split
      · simp
      · exact (supported_toInt v).bind fun n => (supported_check _ n).bind fun s => supported_pure _
      · exact (supported_toFloating _ v).bind fun x => supported_pure _
  · simp

@[simp] theorem supported_convertInt (s : Scalar) (t : IntType) (checked : Bool) :
    Supported (s.convertInt t checked) := by
  unfold Scalar.convertInt
  repeat' split
  all_goals simp

@[simp] theorem supported_convert (v : Value) (target : StaticType) (checked : Bool) :
    Supported (v.convert target checked) := by
  unfold Value.convert
  split
  · split
    · simp
    · split
      · simp
      · exact (supported_toFloating _ v).bind fun x => supported_pure _
      · exact (supported_toScalar v).bind fun s =>
          (supported_convertInt s _ checked).bind fun r => supported_pure _
  · simp

/-! ## Comparisons -/

@[simp] theorem supported_toFloating_number (p : Precision) (n : Number) :
    Supported (n.toFloating p) := by
  unfold Number.toFloating
  split <;> simp

@[simp] theorem supported_meetIn (p : Precision) (a b : Number) : Supported (a.meetIn p b) :=
  (supported_toFloating_number p a).bind fun _ =>
    (supported_toFloating_number p b).bind fun _ => supported_pure _

@[simp] theorem supported_meetShort (v : Int) (a b : Number) : Supported (a.meetShort v b) := by
  unfold Number.meetShort
  split <;> simp

@[simp] theorem supported_meet (a b : Number) : Supported (a.meet b) := by
  unfold Number.meet
  split <;> simp

@[simp] theorem supported_onNumbers (c : Comparison) (a b : Number) :
    Supported (c.onNumbers a b) := by
  simp [Comparison.onNumbers]

@[simp] theorem supported_onStrangers (c : Comparison) (v : Value) :
    Supported (c.onStrangers v) := by
  unfold Comparison.onStrangers
  split <;> simp

@[simp] theorem supported_onScalar (c : Comparison) (s : Scalar) (v : Value) :
    Supported (c.onScalar s v) := by
  unfold Comparison.onScalar
  split <;> simp

@[simp] theorem supported_toNumber (v : Value) : Supported v.toNumber := by
  unfold Value.toNumber
  split <;> simp

theorem supported_onPlain (c : Comparison) (a b : Value) : Supported (c.onPlain a b) :=
  (supported_toNumber a).bind fun _ => (supported_toNumber b).bind fun _ => supported_onNumbers _ _ _

/-! ## Operators -/

@[simp] theorem supported_onInts (f : Arithmetic) (a b : Int) : Supported (f.onInts a b) := by
  unfold Arithmetic.onInts
  repeat' split
  all_goals simp

@[simp] theorem supported_onFloating {p : Precision} (f : Arithmetic) (x : Floating p) (v : Value) :
    Supported (f.onFloating x v) := by
  unfold Arithmetic.onFloating
  split
  · simp
  · unfold Arithmetic.refuse
    split <;> simp

@[simp] theorem supported_compare (c : Comparison) (s : Scalar) (v : Value) :
    Supported (s.compare c v) := by
  unfold Scalar.compare
  split
  · exact (supported_toInt v).bind fun _ => supported_pure _
  · simp

@[simp] theorem supported_bitwise (op : BinaryOp) (f : Bitwise) (s : Scalar) (v : Value) :
    Supported (s.bitwise op f v) := by
  unfold Scalar.bitwise
  split
  · simp
  · refine (supported_toInt v).bind fun _ => ?_
    split <;> simp
  · simp

@[simp] theorem supported_shift (toLeft : Bool) (s : Scalar) (v : Value) :
    Supported (s.shift toLeft v) := by
  refine (supported_toInt_scalar s).bind fun _ => (supported_toInt v).bind fun _ => ?_
  split <;> simp

@[simp] theorem supported_arithmetic (op : BinaryOp) (f : Arithmetic) (checked : Bool) (s : Scalar)
    (v : Value) : Supported (s.arithmetic op f checked v) := by
  unfold Scalar.arithmetic
  split
  · exact (supported_toInt v).bind fun _ => (supported_onInts f _ _).bind fun _ =>
      supported_bring _ checked _
  · simp
  · simp

@[simp] theorem supported_applyBinary (op : BinaryOp) (s : Scalar) (v : Value) :
    Supported (s.applyBinary op v) := by
  unfold Scalar.applyBinary
  repeat' split
  all_goals simp

theorem supported_apply (op : BinaryOp) (a b : Value) : Supported (op.apply a b) :=
  (supported_toScalar a).bind fun s => (supported_applyBinary op s b).bind fun _ => supported_pure _

@[simp] theorem supported_negate (checked : Bool) (s : Scalar) : Supported (s.negate checked) := by
  cases s <;> simp [Scalar.negate]

@[simp] theorem supported_complement (s : Scalar) : Supported s.complement := by
  unfold Scalar.complement
  split
  · simp
  · simp
  · exact (supported_toInt_floating _).bind fun _ => by simp

theorem supported_applyUnary (op : UnaryOp) (v : Value) (target : StaticType) :
    Supported (op.apply v target) := by
  -- these operators take the scalar of the value, and fail only there or in what they do with it
  have scalars (f : Scalar → Except Fault Scalar) (each : ∀ s, Supported (f s)) :
      Supported (do
        let s ← v.toScalar
        let r ← f s
        pure (Value.scalar r)) :=
    (supported_toScalar v).bind fun s => (each s).bind fun _ => supported_pure _
  cases op with
  | convert => exact supported_convert v target false
  | convertChecked => exact supported_convert v target true
  | not => exact scalars _ supported_complement
  | negate => exact scalars _ (supported_negate false)
  | negateChecked => exact scalars _ (supported_negate true)

/-! ## Equality and keys -/

@[simp] theorem supported_equalElement (s : Scalar) (v : Value) : Supported (s.equalElement v) := by
  unfold Scalar.equalElement
  split <;> simp

@[simp] theorem supported_equalList (s : Scalar) (items : List Value) :
    Supported (s.equalList items) := by
  unfold Scalar.equalList
  split <;> simp

@[simp] theorem supported_equalNumbers (a b : Value) : Supported (a.equalNumbers b) := by
  unfold Value.equalNumbers
  split <;> simp

/-- One question after another, the second only if the answer to the first is yes. -/
theorem Supported.andM {x y : Verdict} (first : Supported x) (second : Supported y) :
    Supported (x <&&> y) := by
  refine first.bind fun yes => ?_
  cases yes with
  | true => exact second
  | false => exact supported_pure _

mutual

@[simp] theorem supported_equal : ∀ a b : Value, Supported (a.equal b)
  | .list as, b => by
    cases b with
    | list bs =>
      rw [Value.equal]
      exact .ite (supported_equalLists as bs) (supported_ok _)
    | _ => simp [Value.equal]
  | .none, b | .bool _, b | .int _, b | .float _, b | .text _, b | .scalar _, b | .host _, b
  | .closure _, b | .compiled _, b | .object _ _, b | .method _ _ _ _, b => by
    cases b <;> simp [Value.equal]

theorem supported_equalLists : ∀ as bs : List Value, Supported (Value.equalLists as bs)
  | a :: as, b :: bs => by
    rw [Value.equalLists]
    exact (supported_equal a b).andM (supported_equalLists as bs)
  | [], [] | [], _ :: _ | _ :: _, [] => by simp [Value.equalLists]

end

@[simp] theorem supported_meets (stored sought : Key) : Supported (stored.meets sought) := by
  unfold Key.meets
  repeat' split
  all_goals simp

@[simp] theorem supported_place? {α : Type} (sought : Key) (entries : List (Key × α)) :
    Supported (sought.place? entries) := by
  induction entries with
  | nil => simp [Key.place?]
  | cons head rest ih =>
    unfold Key.place?
    exact (supported_meets _ _).bind fun _ => .ite (supported_pure _) (ih.bind fun _ => supported_pure _)

@[simp] theorem supported_find? {α : Type} (sought : Key) (entries : List (Key × α)) :
    Supported (sought.find? entries) := by
  simp [Key.find?_eq_place?]

@[simp] theorem supported_keyOf (b : Boxed) : Supported (MemoCache.keyOf b) := by
  unfold MemoCache.keyOf
  split <;> simp

theorem supported_start (c : MemoCache) (function argument : Boxed) :
    Supported (c.start function argument) := by
  unfold MemoCache.start
  refine .ite (supported_ok _) ((supported_keyOf _).bind fun f => (supported_place? f _).bind fun p => ?_)
  split
  · exact supported_pure _
  · refine (supported_keyOf _).bind fun a => (supported_find? a _).bind fun r => ?_
    split <;> simp

theorem supported_finish (c : MemoCache) (ticket : Ticket) (result : Boxed) :
    Supported (c.finish ticket result) := by
  refine (supported_keyOf _).bind fun a => (supported_find? a _).bind fun r => ?_
  split <;> simp

/-! ## Pools and settings -/

@[simp] theorem supported_combine (f : Int → Int → Int)
    (g : Floating .double → Floating .double → Floating .double) (a b : Number) :
    Supported (a.combine f g b) := by
  unfold Number.combine
  split
  · simp
  · exact (supported_toFloating_number _ _).bind fun _ =>
      (supported_toFloating_number _ _).bind fun _ => supported_pure _

theorem supported_plus (a b : Value) : Supported (a.plus b) :=
  (supported_toNumber a).bind fun _ => (supported_toNumber b).bind fun _ =>
    (supported_combine _ _ _ _).bind fun _ => supported_pure _

theorem supported_minus (a b : Value) : Supported (a.minus b) :=
  (supported_toNumber a).bind fun _ => (supported_toNumber b).bind fun _ =>
    (supported_combine _ _ _ _).bind fun _ => supported_pure _

theorem supported_reserve? (p : WorkerPool) (slots : Value) : Supported (p.reserve? slots) :=
  (supported_onPlain _ _ _).bind fun _ =>
    .ite ((supported_minus _ _).bind fun _ => supported_pure _) (supported_pure _)

theorem supported_release (p : WorkerPool) (slots : Value) : Supported (p.release slots) :=
  supported_map.2 (supported_plus _ _)

theorem supported_submit (p : WorkerPool) : Supported p.submit :=
  (supported_onPlain _ _ _).bind fun _ => .ite (by simp) (supported_pure _)

theorem supported_askNesting (s : Settings) : Supported s.askNesting := by
  have depth (v : Int) : Supported (Settings.askDepth v) := .ite (by simp) (supported_ok _)
  unfold Settings.askNesting
  refine .ite ?_ (supported_ok _)
  split
  · simp
  · simp
  · exact depth _
  · exact depth _
  · exact (supported_onPlain _ _ _).bind fun _ => .ite (by simp) (supported_pure _)

/-! ## Host functions -/

@[simp] theorem supported_square (v : Value) : Supported v.square := by
  unfold Value.square
  split <;> simp

theorem supported_squareRoot (v : Value) : Supported v.squareRoot := by
  refine (supported_toDouble v).bind fun _ => ?_
  split <;> simp

theorem supported_half (v : Value) : Supported v.half :=
  (supported_toDouble v).bind fun _ => supported_pure _

theorem supported_total (vs : List Boxed) : Supported (Value.total vs) := by
  induction vs with
  | nil => simp [Value.total]
  | cons v vs ih => exact (supported_toInt _).bind fun _ => ih.bind fun _ => supported_pure _

/-! ## Methods -/

@[simp] theorem supported_methodInt (v : Int) : Supported (MethodResult.int v) := supported_ok _

@[simp] theorem supported_methodTruth (b : Bool) : Supported (MethodResult.truth b) :=
  supported_ok _

@[simp] theorem supported_methodText (cs : List Char) : Supported (MethodResult.text cs) :=
  supported_ok _

@[simp] theorem supported_methodTexts (pieces : List (List Char)) :
    Supported (MethodResult.texts pieces) := supported_ok _

@[simp] theorem supported_refused : Supported MethodResult.refused := by
  simp [MethodResult.refused]

@[simp] theorem supported_methodOfInt (v : Int) (name : String) (args : List Value) :
    Supported (methodOfInt v name args) := by
  unfold methodOfInt
  split <;> simp

@[simp] theorem supported_methodOfFloat (x : Floating .double) (name : String) (args : List Value) :
    Supported (methodOfFloat x name args) := by
  unfold methodOfFloat
  split <;> simp

@[simp] theorem supported_methodOfScalar (s : Scalar) (name : String) (args : List Value) :
    Supported (s.callMethod name args) := by
  unfold Scalar.callMethod
  split
  · split <;> simp
  · simp

@[simp] theorem supported_itemAt {α : Type} (items : List α) (place : Int) :
    Supported (itemAt items place) := by
  unfold itemAt
  simp only
  split <;> simp

@[simp] theorem supported_ofLetters (cs : List Char) (name : String) :
    Supported (Words.ofLetters cs name) := by
  unfold Words.ofLetters
  split <;> simp

@[simp] theorem supported_alone (cs : List Char) (name : String) :
    Supported (Words.alone cs name) := by
  unfold Words.alone
  split <;> first | exact .ite (by simp) (by simp) | simp

@[simp] theorem supported_withText (cs part : List Char) (name : String) :
    Supported (Words.withText cs part name) := by
  have refusal {x : Except Fault MethodResult} (c : Bool) (h : Supported x) :
      Supported (if c = true then .error .badValue else x) := .ite (by simp) h
  unfold Words.withText
  simp only
  split <;> first | exact refusal _ (by simp) | exact .ite (by simp) (by simp) | simp

@[simp] theorem supported_withNumber (cs : List Char) (n : Int) (name : String) :
    Supported (Words.withNumber cs n name) := by
  unfold Words.withNumber
  split
  · simp
  · simp
  · simp
  · exact (supported_itemAt cs n).bind fun _ => supported_methodText _
  · exact .ite (by simp) (by simp)

theorem supported_mapM_toText (items : List Value) : Supported (items.mapM Value.toText) := by
  induction items with
  | nil => simp
  | cons v items ih =>
    rw [List.mapM_cons]
    have first : Supported v.toText := by
      unfold Value.toText
      split <;> simp
    exact first.bind fun _ => ih.bind fun _ => supported_pure _

@[simp] theorem supported_methodOfText (cs : List Char) (name : String) (args : List Value) :
    Supported (methodOfText cs name args) := by
  unfold methodOfText
  split
  · simp
  · simp
  · exact .ite (by simp) (by simp)
  · exact .ite ((supported_mapM_toText _).bind fun _ => supported_methodText _) (by simp)
  · exact .ite (.ite (by simp) (by simp)) (by simp)
  · split <;> simp
  · split
    · exact .ite (by simp) (by simp)
    · simp
  · simp

@[simp] theorem supported_placeOf (v : Value) (n : Nat) (items : List Value) :
    Supported (placeOf v n items) := by
  induction items generalizing n with
  | nil => simp [placeOf]
  | cons item rest ih =>
    unfold placeOf
    exact (supported_equal _ _).bind fun _ => .ite (supported_pure _) (ih _)

@[simp] theorem supported_countOf (v : Value) (items : List Value) :
    Supported (countOf v items) := by
  induction items with
  | nil => simp [countOf]
  | cons item rest ih =>
    exact (supported_equal _ _).bind fun _ => ih.bind fun _ => supported_pure _

@[simp] theorem supported_methodOfList (items : List Value) (name : String) (args : List Value) :
    Supported (methodOfList items name args) := by
  unfold methodOfList
  split
  · simp
  · simp
  · exact (supported_countOf _ _).bind fun _ => supported_methodInt _
  · refine (supported_placeOf _ _ _).bind fun _ => ?_
    split <;> simp
  · exact (supported_placeOf _ _ _).bind fun _ => supported_methodTruth _
  all_goals first | simp | (split <;> simp)

theorem supported_integerText (v : Int) : Supported (integerText v) := .ite (supported_ok _) (by simp)

mutual

@[simp] theorem supported_written : ∀ v : Value, Supported v.written
  | .list items => by simp [Value.written, supported_writtenAll items]
  | .method owner _ _ _ => by simp [Value.written, supported_written owner]
  | .int v => supported_integerText v
  | .none | .bool _ | .float _ | .text _ | .scalar _ | .host _ | .closure _ | .compiled _
  | .object _ _ => by simp [Value.written]

theorem supported_writtenAll : ∀ vs : List Value, Supported (Value.writtenAll vs)
  | [] => by simp [Value.writtenAll]
  | v :: vs => by
    rw [Value.writtenAll]
    exact (supported_written v).bind fun _ => (supported_writtenAll vs).bind fun _ => supported_pure _

end

theorem supported_callMethod (v : Value) (name : String) (args : List Value) :
    Supported (v.callMethod name args) := by
  unfold Value.callMethod
  split
  · simp
  · split <;> simp
  · split <;> simp

end Knot
