import StagePlay.Proofs.Decimal.Signed

/-!
# StagePlay.Proofs.Decimal.Opposite

The difference of two doubles, either way round. The two differences are opposite, or the same if
nothing is left, and are rounded alike; so their squares are the same double.

* `Opposite.pack`: what is packed stays opposite.
* `opposite_sub`: differences are opposite.
* `mul_self_sub_comm`: their squares are the same.
-/

namespace StagePlay.Binary64

open Float.Model (Format UnpackedFloat)
open Float.Model.UnpackedFloat (Sign unpack packComponents roundWithAccuracy)

/-- The same number, or the one of the other sign. -/
def Opposite (u v : UnpackedFloat) : Prop := v = u ∨ v = u.neg

variable {spec : Format} {s : Sign} {u v : UnpackedFloat}

theorem mul_self_neg (u : UnpackedFloat) :
    UnpackedFloat.mul spec u.neg u.neg = UnpackedFloat.mul spec u u := by
  have hsigns : ∀ s : Sign, -s * -s = s * s := by
    intro s
    cases s <;> rfl
  cases u with
  | notANumber => rfl
  | _ => simp only [UnpackedFloat.neg, UnpackedFloat.mul, hsigns]

theorem Opposite.mul_self (h : Opposite u v) :
    UnpackedFloat.mul spec v v = UnpackedFloat.mul spec u u := by
  rcases h with rfl | rfl
  · rfl
  · exact mul_self_neg u

/-! ## Packing -/

theorem unpack_packComponents_neg (s : Sign) (e : BitVec spec.exponentBits)
    (m : BitVec spec.mantissaBitsWithoutImplicit) :
    unpack spec (packComponents spec (-s) e m) = (unpack spec (packComponents spec s e m)).neg := by
  simp only [unpack, UnpackedFloat.unpackExponent_packComponents,
    UnpackedFloat.unpackMantissa_packComponents, UnpackedFloat.unpackSign_packComponents,
    UnpackedFloat.Sign.ofBitVec_toBitVec]
  split
  · split <;> rfl
  · split
    · split <;> rfl
    · rfl

theorem Opposite.pack (h : Opposite u v) :
    Opposite (unpack spec (u.pack spec)) (unpack spec (v.pack spec)) := by
  rcases h with rfl | rfl
  · exact .inl rfl
  · cases u with
    | notANumber => exact .inl rfl
    | infinity s => exact .inr (unpack_packComponents_neg ..)
    | zero s => exact .inr (unpack_packComponents_neg ..)
    | finite s m e hm =>
      refine .inr ?_
      simp only [UnpackedFloat.neg, UnpackedFloat.pack]
      split
      · exact unpack_packComponents_neg ..
      · split <;> exact unpack_packComponents_neg ..

/-! ## Differences -/

theorem round_neg (s : Sign) (m : Nat) (e : Int) :
    UnpackedFloat.round spec (-s) m e = (UnpackedFloat.round spec s m e).neg := by
  simp only [UnpackedFloat.round, roundWithAccuracy]
  split <;> rfl

theorem opposite_normalize (m e : Int) :
    Opposite (UnpackedFloat.normalize spec m e .positive)
      (UnpackedFloat.normalize spec (-m) e .positive) := by
  unfold UnpackedFloat.normalize
  rcases Int.lt_trichotomy m 0 with hm | rfl | hm
  · rw [Int.compare_eq_lt.mpr hm, Int.compare_eq_gt.mpr (Int.neg_pos_of_neg hm)]
    exact .inr (round_neg .negative ..)
  · exact .inl rfl
  · rw [Int.compare_eq_gt.mpr hm, Int.compare_eq_lt.mpr (Int.neg_neg_of_pos hm), Int.neg_neg]
    exact .inr (round_neg .positive ..)

theorem opposite_sub (u v : UnpackedFloat) :
    Opposite (UnpackedFloat.sub spec u v) (UnpackedFloat.sub spec v u) := by
  cases u with
  | notANumber => cases v <;> exact .inl rfl
  | infinity s =>
    cases v with
    | infinity s' => cases s <;> cases s' <;> first | exact .inl rfl | exact .inr rfl
    | _ => first | exact .inl rfl | exact .inr rfl
  | zero s =>
    cases v with
    | zero s' => cases s <;> cases s' <;> first | exact .inl rfl | exact .inr rfl
    | infinity s' => cases s' <;> exact .inr rfl
    | finite s' m e hm => cases s' <;> exact .inr rfl
    | notANumber => exact .inl rfl
  | finite s m e hm =>
    cases v with
    | finite s' m' e' hm' =>
      -- both differences are taken at the smaller exponent
      simp only [UnpackedFloat.sub, Int.min_comm e' e]
      rw [← Int.neg_sub (s.apply _) (s'.apply _)]
      exact opposite_normalize ..
    | infinity s' => cases s' <;> exact .inr rfl
    | zero s' => exact .inr rfl
    | notANumber => exact .inl rfl

theorem mul_self_sub_comm (x y : Float) : (x - y) * (x - y) = (y - x) * (y - x) := by
  have hopposite : Opposite (y - x).toModel.unpack (x - y).toModel.unpack :=
    (opposite_sub y.toModel.unpack x.toModel.unpack).pack
  have hsquares : UnpackedFloat.mul .binary64 (x - y).toModel.unpack (x - y).toModel.unpack =
      UnpackedFloat.mul .binary64 (y - x).toModel.unpack (y - x).toModel.unpack :=
    hopposite.mul_self
  exact congrArg (fun u => Float.ofModel (Float.Model.pack u)) hsquares

end StagePlay.Binary64
