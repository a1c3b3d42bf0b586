import StagePlay.Proofs.Stage.Deed

/-!
# StagePlay.Proofs.Stage.Order

The actors stand on the stage in the order of their ids.

Whoever is spawned comes last, with a number above all others, and nothing else moves anybody, so
that no two actors on a stage have one id, as long as there are numbers for all that are spawned.

* `Ordered.after`: a deed keeps the ids in order.
* `Ordered.nodup`: no id comes twice.
-/

namespace StagePlay

namespace Stage

/-- A stage on which at most `n` actors have been spawned, and the ids increase along the line. -/
structure Ordered (s : Stage) (n : Nat) : Prop extends Numbered s n where
  increasing : s.ids.Pairwise (·.number < ·.number)

variable {s t : Stage} {n : Nat} {d : Deed}

theorem ordered_empty (p : Point) : (empty p).Ordered 0 := ⟨numbered_empty p, .nil⟩

theorem Ordered.congr (h : t.Ordered n) (hst : s.Alike t) : s.Ordered n :=
  ⟨h.toNumbered.congr hst, hst.1 ▸ h.increasing⟩

theorem Ordered.mono {m : Nat} (h : s.Ordered n) (hle : n ≤ m) : s.Ordered m :=
  ⟨⟨h.ids_le, Nat.le_trans h.last_le hle⟩, h.increasing⟩

theorem Ordered.after (h : s.Ordered n) (hn : n + Deed.spawns [d] < Numeral.capacity 64) :
    (s.after d).Ordered (n + Deed.spawns [d]) := by
  refine ⟨h.toNumbered.after hn, ?_⟩
  cases hs : d.isSpawn with
  | true =>
    cases d <;> simp only [Deed.isSpawn, Bool.false_eq_true] at hs
    have hlast := h.last_le
    have hlimit : numberLimit = Numeral.capacity 64 - 1 := rfl
    simp only [Deed.spawns, Deed.isSpawn, List.countP_singleton, ↓reduceIte] at hn
    simp only [Stage.after, spawn, ids, List.map_append, List.map_cons, List.map_nil]
    refine List.pairwise_append.mpr ⟨h.increasing, List.pairwise_singleton .., ?_⟩
    intro id hid new hnew
    rw [List.mem_singleton.mp hnew]
    have hle := h.ids_le id hid
    simp only [Actor.fresh]
    omega
  | false =>
    by_cases hr : ∃ other, d = .remove other
    · obtain ⟨other, rfl⟩ := hr
      rw [(ids_after_remove s other).1]
      exact h.increasing.filter _
    · rw [(alike_after hs fun other e => hr ⟨other, e⟩).1]
      exact h.increasing

theorem Ordered.afterAll (h : s.Ordered n) (deeds : List Deed)
    (hn : n + Deed.spawns deeds < Numeral.capacity 64) :
    (s.afterAll deeds).Ordered (n + Deed.spawns deeds) := by
  induction deeds generalizing s n with
  | nil => exact h
  | cons d rest ih =>
    rw [Deed.spawns_cons, ← Nat.add_assoc] at hn ⊢
    exact ih (h.after (by omega)) hn

theorem Ordered.nodup (h : s.Ordered n) : s.ids.Nodup := by
  refine h.increasing.imp ?_
  rintro a b hlt rfl
  exact Nat.lt_irrefl _ hlt

end Stage

end StagePlay
