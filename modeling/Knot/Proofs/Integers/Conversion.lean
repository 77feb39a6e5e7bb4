import Knot.Proofs.Integers.Exact

/-!
# Chains of conversions

Integers converted from type to type. To wrap an integer into a type is to forget all but its residue, so a
detour through a type that is as wide as the last one, of whatever sign, changes nothing
(`IntType.wrap_wrap`). A checked conversion forgets nothing: what it returns denotes the same integer, which
goes back to where it came from, and on to any other type as if it had never left
(`Word.conversions_compose`).
-/

namespace Knot

namespace IntType

/-- Wrapping depends on the residue only. -/
theorem wrap_congr (t : IntType) {v u : Int} (same : v ≡ u [ZMOD 2 ^ t.bits]) : t.wrap v = t.wrap u := by
  have residues : v % t.span = u % t.span := same
  unfold wrap
  rw [Int.sub_emod v, Int.sub_emod u, residues]

/-- A detour through a type that is as wide. -/
theorem wrap_wrap {u t : IntType} (wide : t.bits ≤ u.bits) (v : Int) : t.wrap (u.wrap v) = t.wrap v := by
  have kept : u.wrap v ≡ v [ZMOD 2 ^ u.bits] := Word.wrap_emod v
  have divides : (2 : Int) ^ t.bits ∣ 2 ^ u.bits := pow_dvd_pow 2 wide
  exact t.wrap_congr (kept.of_dvd divides)

end IntType

namespace Word

variable {s t u : IntType}

/-- An unchecked conversion wraps. -/
theorem convert_unchecked (x : Word s) (t : IntType) :
    x.value.convert (.value (.int t)) false = .ok (wrap t x.toInt).value := by
  rw [convert_value]
  rfl

/-- What a checked conversion returns denotes the same integer. -/
theorem eq_of_convert_checked {x : Word s} {y : Value}
    (converted : x.value.convert (.value (.int u)) true = .ok y) :
    ∃ w : Word u, y = w.value ∧ w.toInt = x.toInt := by
  have agrees := u.bring_agrees x.writable.1
  rw [← convert_value, ← convert_value] at agrees
  have fits := agrees.returns_iff.1 ⟨y, converted⟩
  rw [agrees.returns fits] at converted
  cases converted
  exact ⟨_, rfl, rfl⟩

/-- Words of two types that denote the same integer are converted alike. -/
theorem convert_congr {w : Word u} {x : Word s} (same : w.toInt = x.toInt) (t : IntType) (checked : Bool) :
    w.value.convert (.value (.int t)) checked = x.value.convert (.value (.int t)) checked := by
  rw [convert_value, convert_value, same]

/-- What becomes of a word that is converted to the type `u` and then to the type `t`. -/
structure ConversionsCompose (x : Word s) (u t : IntType) : Prop where
  /-- If `u` is as wide as `t`, the first conversion makes no difference to the second, without checks. -/
  unchecked : t.bits ≤ u.bits →
    (x.value.convert (.value (.int u)) false >>= fun y => y.convert (.value (.int t)) false) =
      x.value.convert (.value (.int t)) false
  /-- What a checked conversion to `u` returns denotes the same integer. -/
  denotes : ∀ y, x.value.convert (.value (.int u)) true = .ok y →
    ∃ w : Word u, y = w.value ∧ w.toInt = x.toInt
  /-- It goes back to the word that it came from, -/
  back : ∀ y, x.value.convert (.value (.int u)) true = .ok y → ∀ checked,
    y.convert (.value (.int s)) checked = .ok x.value
  /-- and with a check to `t` just as the word does, or it is refused by the same fault. -/
  onward : ∀ y, x.value.convert (.value (.int u)) true = .ok y →
    y.convert (.value (.int t)) true = x.value.convert (.value (.int t)) true

/-- Conversions of integers compose. -/
theorem conversions_compose (x : Word s) (u t : IntType) : x.ConversionsCompose u t where
  unchecked := by
    intro wide
    have detour : wrap t (wrap u x.toInt).toInt = wrap t x.toInt :=
      eq_of_toInt_eq (IntType.wrap_wrap wide x.toInt)
    calc (x.value.convert (.value (.int u)) false >>= fun y => y.convert (.value (.int t)) false)
        = (wrap u x.toInt).value.convert (.value (.int t)) false := by
          rw [convert_unchecked]
          rfl
      _ = .ok (wrap t x.toInt).value := by rw [convert_unchecked, detour]
      _ = x.value.convert (.value (.int t)) false := (convert_unchecked x t).symm
  denotes := fun y converted => eq_of_convert_checked converted
  back := by
    intro y converted checked
    obtain ⟨w, rfl, same⟩ := eq_of_convert_checked converted
    rw [convert_congr same, convert_self]
  onward := by
    intro y converted
    obtain ⟨w, rfl, same⟩ := eq_of_convert_checked converted
    exact convert_congr same t true

end Word

end Knot
