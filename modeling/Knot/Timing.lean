import Knot.Number.Decimal
import Knot.Operator.Comparison

/-!
# Timing

Durations as text, and the timing of repeated calls. A duration is a number of any kind, in
nanoseconds. A quotient of two plain integers is exact until it is rounded. Where a scalar takes
part the two numbers become floats first: floats of the format in which they meet if one of them is
a scalar float, and doubles otherwise, so that no integer has to fit the type of the other.
-/

namespace Knot

namespace Number

/-- The quotient of two plain numbers. An integer too large for a double is divided all the same,
as long as the quotient is not. -/
def plainQuotient (a b : Number) : Except Fault (Floating .double) :=
  match a, b with
  | int v, int w =>
    if w = 0 then .error .zeroDivisor
    else
      let q : Floating .double := .round (decide (v < 0) != decide (w < 0)) v.natAbs w.natAbs
      if q.magnitude = Precision.double.infinity then .error .tooLarge else .ok q
  | _, _ => do
    let x ← a.toFloating .double
    let y ← b.toFloating .double
    if y.isZero then throw .zeroDivisor
    pure (x.div y)

/-- The quotient of two numbers in a format. -/
def quotientIn (p : Precision) (a b : Number) : Except Fault Number := do
  let x ← a.toFloating p
  let y ← b.toFloating p
  pure (scalar (.float p (x.div y)))

/-- The quotient of two numbers. Only a plain one cannot be divided by zero. -/
def quotient (a b : Number) : Except Fault Number :=
  match a, b with
  | scalar (.float p _), _ => a.quotientIn (p.meet b) b
  | _, scalar (.float p _) => a.quotientIn (p.meet a) b
  | scalar _, _ | _, scalar _ => a.quotientIn .double b
  | _, _ => (a.plainQuotient b).map float

/-- A number with a fixed number of places. -/
def fixedText (places : Nat) (n : Number) : Except Fault String :=
  (n.toFloating .double).map fun x => x.fixedText places

end Number

/-- A unit of time: so many nanoseconds, written with so many places. -/
structure TimeUnit where
  nanoseconds : Int
  places : Nat
  name : String

namespace TimeUnit

/-- A duration in a unit. -/
def text (u : TimeUnit) (ns : Number) : Except Fault String := do
  let x ← if u.nanoseconds = 1 then pure ns else ns.quotient (.int u.nanoseconds)
  let text ← x.fixedText u.places
  pure (text ++ " " ++ u.name)

/-- The units, each with the bound below which it is used. -/
def bounded : List (Int × TimeUnit) := [
  (1000, ⟨1, 0, "ns"⟩),
  (1000000, ⟨1000, 1, "us"⟩),
  (1000000000, ⟨1000000, 2, "ms"⟩)]

/-- The unit of durations that reach all bounds. -/
def seconds : TimeUnit := ⟨1000000000, 3, "s"⟩

/-- The first unit whose bound a duration stays below. -/
def firstAbove (ns : Number) : List (Int × TimeUnit) → Except Fault TimeUnit
  | [] => .ok seconds
  | (bound, u) :: rest => do
    if ← Comparison.lt.onNumbers ns (.int bound) then pure u else firstAbove ns rest

end TimeUnit

/-- A duration in nanoseconds as text. -/
def durationText (ns : Value) : Except Fault String := do
  let n ← ns.toNumber
  let u ← TimeUnit.firstAbove n TimeUnit.bounded
  u.text n

/-- How much faster or slower `measured` is than `baseline`, as text. -/
def speedupText (baseline measured : Value) : Except Fault String := do
  let m ← measured.toNumber
  if ← Comparison.le.onNumbers m (.int 0) then pure "inf"
  else
    let b ← baseline.toNumber
    let ratio ← b.quotient m
    if ← Comparison.ge.onNumbers ratio (.int 1) then
      let text ← ratio.fixedText 2
      pure (text ++ "x faster")
    else
      let inverse ← (Number.int 1).quotient ratio
      let text ← inverse.fixedText 2
      pure (text ++ "x slower")

/-! ## Repeated calls -/

/-- What is known after a call has been timed several times. -/
structure TimingSummary (α : Type) where
  /-- The result of the last call. -/
  result : α
  medianNs : Nat
  leastNs : Nat
  repeats : Int

namespace TimingSummary

/-- The names of the parts of a summary, in order. -/
def parts : List String := ["median_ns", "min_ns", "repeat", "result"]

variable {α σ : Type}

/-- Times `n` calls of `action`, each after `before`. The results are the last result so far and
the durations, the latest first. -/
def collect (clock : σ → Nat × σ) (before : σ → σ) (action : σ → α × σ) :
    Nat → Option α → List Nat → σ → (Option α × List Nat) × σ
  | 0, last, times, s => ((last, times), s)
  | n + 1, _, times, s =>
    let (start, s) := clock (before s)
    let (result, s) := action s
    let (stop, s) := clock s
    collect clock before action n (some result) ((stop - start) :: times) s

/-- The summary of the durations of some calls. Without a call there is nothing to sum up. -/
def ofTimes (repeats : Int) (last : Option α) (times : List Nat) : Except Fault (TimingSummary α) :=
  let sorted := times.mergeSort
  match last, sorted[sorted.length / 2]?, sorted[0]? with
  | some result, some median, some least => .ok ⟨result, median, least, repeats⟩
  | _, _, _ => .error .noElement

/-- Times `action` so many times, each time after `before`, which does not count. -/
def time (clock : σ → Nat × σ) (before : σ → σ) (action : σ → α × σ) (repeats : Int) (s : σ) :
    Except Fault (TimingSummary α) × σ :=
  let ((last, times), s) := collect clock before action repeats.toNat none [] s
  (ofTimes repeats last times, s)

end TimingSummary

end Knot
