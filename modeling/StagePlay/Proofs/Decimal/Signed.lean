import StagePlay.Proofs.Decimal.Rational

/-!
# StagePlay.Proofs.Decimal.Signed

Which operations on doubles give numbers, and of which sign. An infinity counts as a number here,
for results may be too large for a double.

* `signed_sub`: the difference of two finite doubles is a number.
* `signed_mul_self`, `signed_add`, `signed_sqrt`: squares, sums of what is not negative, and square
  roots of it are not negative.
-/

namespace StagePlay.Binary64

open Float.Model (Format UnpackedFloat)
open Float.Model.UnpackedFloat (Sign unpack packComponents roundWithAccuracy)

/-- A number of this sign, finite or not. -/
def Signed (s : Sign) : UnpackedFloat → Prop
  | .infinity s' | .zero s' | .finite s' _ _ _ => s' = s
  | .notANumber => False

variable {spec : Format} {s : Sign} {u v : UnpackedFloat}

theorem Signed.cases (h : Signed s u) :
    u = .infinity s ∨ u = .zero s ∨ ∃ m e hm, u = .finite s m e hm := by
  cases u with
  | notANumber => exact h.elim
  | infinity s' =>
    obtain rfl : s' = s := h
    exact .inl rfl
  | zero s' =>
    obtain rfl : s' = s := h
    exact .inr (.inl rfl)
  | finite s' m e hm =>
    obtain rfl : s' = s := h
    exact .inr (.inr ⟨m, e, hm, rfl⟩)

/-! ## Results that are rounded and packed -/

theorem signed_packComponents {e : BitVec spec.exponentBits} (he : e ≠ -1#_)
    (m : BitVec spec.mantissaBitsWithoutImplicit) :
    Signed s (unpack spec (packComponents spec s e m)) := by
  unfold unpack
  simp only [UnpackedFloat.unpackExponent_packComponents,
    UnpackedFloat.unpackMantissa_packComponents, UnpackedFloat.unpackSign_packComponents,
    UnpackedFloat.Sign.ofBitVec_toBitVec, if_neg he]
  split
  · split <;> rfl
  · rfl

theorem unpack_packedInfinity (spec : Format) (s : Sign) :
    unpack spec (UnpackedFloat.packedInfinity spec s) = .infinity s := by
  simp [unpack, UnpackedFloat.packedInfinity]

/-- A number that is packed keeps its sign, whatever becomes of its digits. -/
theorem Signed.pack (h : Signed s u) : Signed s (unpack spec (u.pack spec)) := by
  have hzero : BitVec.ofNat spec.exponentBits 0 ≠ -1#_ := by
    simp [Nat.ne_of_gt spec.he]
  rcases h.cases with rfl | rfl | ⟨m, e, hm, rfl⟩
  · rw [UnpackedFloat.pack, unpack_packedInfinity]
    rfl
  · exact signed_packComponents hzero _
  · unfold UnpackedFloat.pack
    dsimp only
    split
    · rw [unpack_packedInfinity]
      rfl
    · rename_i hexp
      split
      · refine signed_packComponents (fun hall => hexp ?_) _
        have hnat := congrArg BitVec.toNat hall
        have hlt : ¬ 2 ^ spec.exponentBits ≤ _ + 1 := hexp
        rw [BitVec.neg_one_eq_allOnes, BitVec.toNat_allOnes, BitVec.toNat_ofNat,
          Nat.mod_eq_of_lt (by omega)] at hnat
        omega
      · exact signed_packComponents hzero _

theorem signed_roundWithAccuracy (m : Nat) (e : Int) (accuracy : UnpackedFloat.Accuracy) :
    Signed s (roundWithAccuracy spec s m e accuracy) := by
  unfold roundWithAccuracy
  dsimp only
  split <;> rfl

theorem signed_round (m : Nat) (e : Int) : Signed s (UnpackedFloat.round spec s m e) :=
  signed_roundWithAccuracy ..

/-- What is rounded is a number, and has no sign if it was not negative. -/
theorem signed_normalize (spec : Format) (m e : Int) :
    (∃ s, Signed s (UnpackedFloat.normalize spec m e .positive)) ∧
      (0 ≤ m → Signed .positive (UnpackedFloat.normalize spec m e .positive)) := by
  unfold UnpackedFloat.normalize
  cases h : compare m 0 with
  | lt =>
    refine ⟨⟨_, signed_round ..⟩, fun hm => ?_⟩
    have hlt : m < 0 := Int.compare_eq_lt.mp h
    omega
  | eq => exact ⟨⟨.positive, rfl⟩, fun _ => rfl⟩
  | gt => exact ⟨⟨_, signed_round ..⟩, fun _ => signed_round ..⟩

/-! ## Operations -/

theorem signed_sub {x y : Float} (hx : x.isFinite = true) (hy : y.isFinite = true) :
    ∃ s, Signed s (x - y).toModel.unpack := by
  have hresult : ∃ s, Signed s (UnpackedFloat.sub .binary64 x.toModel.unpack y.toModel.unpack) := by
    rcases unpack_of_finite hx with ⟨-, hu⟩ | ⟨-, m, e, hm, hu⟩ <;>
      rcases unpack_of_finite hy with ⟨-, hv⟩ | ⟨-, m', e', hm', hv⟩ <;> rw [hu, hv]
    · cases sign x <;> cases sign y <;> exact ⟨_, rfl⟩
    · exact ⟨-sign y, rfl⟩
    · exact ⟨sign x, rfl⟩
    · exact (signed_normalize ..).1
  obtain ⟨s, hs⟩ := hresult
  exact ⟨s, hs.pack⟩

theorem signed_mul_self {x : Float} (hx : Signed s x.toModel.unpack) :
    Signed .positive (x * x).toModel.unpack := by
  have hsign : s * s = .positive := by cases s <;> rfl
  have hresult : Signed .positive
      (UnpackedFloat.mul .binary64 x.toModel.unpack x.toModel.unpack) := by
    rcases hx.cases with hu | hu | ⟨m, e, hm, hu⟩ <;> rw [hu, UnpackedFloat.mul, hsign]
    · rfl
    · rfl
    · exact signed_roundWithAccuracy ..
  exact hresult.pack

theorem signed_add {x y : Float} (hx : Signed .positive x.toModel.unpack)
    (hy : Signed .positive y.toModel.unpack) : Signed .positive (x + y).toModel.unpack := by
  have hresult : Signed .positive
      (UnpackedFloat.add .binary64 x.toModel.unpack y.toModel.unpack) := by
    rcases hx.cases with hu | hu | ⟨m, e, hm, hu⟩ <;>
      rcases hy.cases with hv | hv | ⟨m', e', hm', hv⟩ <;> rw [hu, hv]
    case inr.inr.inr.inr =>
      refine (signed_normalize ..).2 ?_
      exact Int.add_nonneg (Int.natCast_nonneg _) (Int.natCast_nonneg _)
    all_goals rfl
  exact hresult.pack

theorem signed_sqrt {x : Float} (hx : Signed .positive x.toModel.unpack) :
    Signed .positive x.sqrt.toModel.unpack := by
  have hresult : Signed .positive (UnpackedFloat.sqrt .binary64 x.toModel.unpack) := by
    rcases hx.cases with hu | hu | ⟨m, e, hm, hu⟩ <;> rw [hu]
    · rfl
    · rfl
    · exact signed_roundWithAccuracy ..
  exact hresult.pack

theorem isNaN_of_signed {x : Float} (h : Signed s x.toModel.unpack) : x.isNaN = false := by
  change x.toModel.unpack.isNaN = false
  rcases h.cases with hu | hu | ⟨m, e, hm, hu⟩ <;> rw [hu] <;> rfl

end StagePlay.Binary64
