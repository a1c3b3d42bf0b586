import Mathlib.Data.List.Forall2
import Mathlib.Data.List.Lex
import StagePlay.Script.Command

/-!
# StagePlay.Proofs.Script.Tree

Scripts as forests of blocks.

A block is what it is without its body, and its body. The place of a block is the index of the
outermost block around it, then the index of the next one in the body of that, and so on down to
the block itself.

* `Script.mem_places_iff`, `Script.sorted_places`: the places of a script, each once and in reading
  order, which is the lexicographic one.
* `Script.map_places`: the outline of a script tells the block at each place, and how many loops
  are around it.
* `Script.same_iff_outline`: the outline determines the script.
-/

namespace StagePlay

namespace Command

/-- The blocks inside a block: there are none in a block that is not a loop. -/
def inner : Command → Script
  | .loop _ body => body
  | _ => []

/-- A block with nothing inside. -/
def bare : Command → Command
  | .loop times _ => .loop times []
  | c => c

theorem sizeOf_inner (c : Command) (rest : Script) : sizeOf c.inner < sizeOf (c :: rest) := by
  cases c with
  | loop times body =>
    simp only [Command.inner, List.cons.sizeOf_spec, loop.sizeOf_spec]
    omega
  | steer | appear | wait | speak | unknown =>
    simp only [inner, List.cons.sizeOf_spec, List.nil.sizeOf_spec, steer.sizeOf_spec,
      appear.sizeOf_spec, wait.sizeOf_spec, speak.sizeOf_spec, unknown.sizeOf_spec]
    omega

theorem sizeOf_rest (c : Command) (rest : Script) : sizeOf rest < sizeOf (c :: rest) := by
  rw [List.cons.sizeOf_spec]
  omega

theorem outlineAt_eq (d : Nat) (c : Command) :
    c.outlineAt d = (d, c) :: Script.outlineAt (d + 1) c.inner := by
  cases c <;> rfl

theorem same_eq (c c' : Command) :
    c.same c' = (c.bare.same c'.bare && Script.same c.inner c'.inner) := by
  cases c <;> cases c' <;> simp [same, bare, inner, Script.same]

end Command

namespace Script

/-- Induction on a script: on its first block, the blocks inside that and the blocks after it. -/
@[elab_as_elim]
theorem induction {motive : Script → Prop} (nil : motive [])
    (cons : ∀ c rest, motive c.inner → motive rest → motive (c :: rest)) (s : Script) :
    motive s :=
  match s with
  | [] => nil
  | c :: rest => cons c rest (induction nil cons c.inner) (induction nil cons rest)
termination_by sizeOf s
decreasing_by
  · exact c.sizeOf_inner rest
  · exact c.sizeOf_rest rest

/-! ## Places -/

/-- The block at a place. -/
def at? (s : Script) : List Nat → Option Command
  | [] => none
  | [i] => s[i]?
  | i :: p => s[i]?.bind fun c => at? c.inner p

/-- The places of a script whose first block has this index, in reading order. -/
def placesFrom (i : Nat) : Script → List (List Nat)
  | [] => []
  | c :: rest => [i] :: (placesFrom 0 c.inner).map (i :: ·) ++ placesFrom (i + 1) rest
termination_by s => sizeOf s
decreasing_by
  · exact c.sizeOf_inner rest
  · exact c.sizeOf_rest rest

/-- The places of a script in reading order. -/
def places (s : Script) : List (List Nat) := placesFrom 0 s

theorem at?_zero_cons (c : Command) (rest : Script) (i : Nat) (p : List Nat) :
    at? (c :: rest) (0 :: i :: p) = c.inner.at? (i :: p) := rfl

theorem at?_succ (c : Command) (rest : Script) (i : Nat) (p : List Nat) :
    at? (c :: rest) ((i + 1) :: p) = rest.at? (i :: p) := by
  cases p <;> rfl

variable {s : Script} {i j d : Nat} {p : List Nat}

theorem exists_of_mem_placesFrom (h : p ∈ placesFrom i s) : ∃ j q, p = (i + j) :: q := by
  induction s using Script.induction generalizing i p with
  | nil => simp [placesFrom] at h
  | cons c rest _ hrest =>
    simp only [placesFrom, List.mem_append, List.mem_cons, List.mem_map] at h
    rcases h with (rfl | ⟨q, -, rfl⟩) | h
    · exact ⟨0, [], rfl⟩
    · exact ⟨0, q, rfl⟩
    · obtain ⟨j, q, rfl⟩ := hrest h
      exact ⟨j + 1, q, by rw [Nat.add_right_comm, Nat.add_assoc]⟩

theorem mem_placesFrom_iff : (i + j) :: p ∈ placesFrom i s ↔ (s.at? (j :: p)).isSome = true := by
  induction s using Script.induction generalizing i j p with
  | nil => cases p <;> simp [placesFrom, at?]
  | cons c rest hinner hrest =>
    simp only [placesFrom, List.mem_append, List.mem_cons, List.mem_map]
    cases j with
    | zero =>
      have hlater : i :: p ∉ placesFrom (i + 1) rest := by
        intro h
        obtain ⟨k, q, hk⟩ := exists_of_mem_placesFrom h
        injection hk with hi
        omega
      cases p with
      | nil => simp [at?]
      | cons k q =>
        have hinside := hinner (i := 0) (j := k) (p := q)
        rw [Nat.zero_add] at hinside
        simp [hlater, at?_zero_cons, hinside]
    | succ j =>
      have hnext := hrest (i := i + 1) (j := j) (p := p)
      rw [Nat.add_right_comm, Nat.add_assoc] at hnext
      have hne : ∀ q, ¬ i :: q = (i + (j + 1)) :: p := by
        intro q h
        injection h with hi
        omega
      rw [at?_succ, ← hnext]
      constructor
      · rintro ((h | ⟨q, -, h⟩) | h)
        · exact absurd h.symm (hne [])
        · exact absurd h (hne q)
        · exact h
      · exact .inr

/-- The places of a script are those at which it has a block. -/
theorem mem_places_iff : p ∈ s.places ↔ (s.at? p).isSome = true := by
  cases p with
  | nil =>
    refine iff_of_false (fun h => ?_) (by simp [at?])
    obtain ⟨j, q, hq⟩ := exists_of_mem_placesFrom h
    cases hq
  | cons j p =>
    have h := mem_placesFrom_iff (s := s) (i := 0) (j := j) (p := p)
    rwa [Nat.zero_add] at h

theorem sorted_placesFrom (i : Nat) (s : Script) : (placesFrom i s).Pairwise (· < ·) := by
  induction s using Script.induction generalizing i with
  | nil => simp [placesFrom]
  | cons c rest hinner hrest =>
    rw [placesFrom, List.pairwise_append, List.pairwise_cons, List.pairwise_map]
    refine ⟨⟨?_, ?_⟩, hrest (i + 1), ?_⟩
    · intro p hp
      obtain ⟨q, hq, rfl⟩ := List.mem_map.mp hp
      obtain ⟨j, r, rfl⟩ := exists_of_mem_placesFrom hq
      exact List.cons_lt_cons_iff.mpr (.inr ⟨rfl, List.nil_lt_cons ..⟩)
    · exact (hinner 0).imp fun h => List.cons_lt_cons_iff.mpr (.inr ⟨rfl, h⟩)
    · intro p hp q hq
      obtain ⟨j, r, rfl⟩ := exists_of_mem_placesFrom hq
      obtain ⟨t, rfl⟩ : ∃ t, p = i :: t := by
        rcases List.mem_cons.mp hp with rfl | hp
        · exact ⟨[], rfl⟩
        · obtain ⟨t, -, rfl⟩ := List.mem_map.mp hp
          exact ⟨t, rfl⟩
      exact List.cons_lt_cons_iff.mpr (.inl (by omega))

theorem map_placesFrom (before s : Script) (d : Nat) :
    (placesFrom before.length s).map (fun p => (p.length - 1 + d, (before ++ s).at? p)) =
      (outlineAt d s).map fun b => (b.1, some b.2) := by
  induction s using Script.induction generalizing before d with
  | nil => simp [placesFrom, outlineAt]
  | cons c rest hinner hrest =>
    have hfirst : (before ++ c :: rest).at? [before.length] = some c := by simp [at?]
    have hinside : ∀ p ∈ placesFrom 0 c.inner,
        (before ++ c :: rest).at? (before.length :: p) = c.inner.at? p ∧
          p.length = p.length - 1 + 1 := by
      intro p hp
      obtain ⟨j, q, rfl⟩ := exists_of_mem_placesFrom hp
      exact ⟨by simp [at?], rfl⟩
    have hlater := hrest (before ++ [c]) d
    rw [List.append_assoc, List.singleton_append, List.length_append, List.length_singleton]
      at hlater
    rw [placesFrom, outlineAt, Command.outlineAt_eq, List.map_append, List.map_append, hlater]
    congr 1
    rw [List.map_cons, List.map_cons, hfirst, ← hinner [] (d + 1), List.map_map]
    congr 1
    · rw [List.length_singleton, Nat.sub_self, Nat.zero_add]
    · refine List.map_congr_left fun p hp => ?_
      obtain ⟨hat, hlength⟩ := hinside p hp
      rw [Function.comp_apply, hat, List.length_cons, Nat.add_sub_cancel, List.nil_append,
        Nat.add_comm d, ← Nat.add_assoc, ← hlength]

/-- Inside as many loops as the script itself, or more. -/
theorem le_depth {b : Nat × Command} (hb : b ∈ outlineAt d s) : d ≤ b.1 := by
  induction s using Script.induction generalizing d with
  | nil => cases hb
  | cons c rest hinner hrest =>
    rw [outlineAt, Command.outlineAt_eq, List.mem_append, List.mem_cons] at hb
    rcases hb with (rfl | hb) | hb
    · exact Nat.le_refl d
    · exact Nat.le_of_succ_le (hinner hb)
    · exact hrest hb

/-- What is known of the block at each place: the loops around it, and what it is. -/
theorem map_places (s : Script) :
    s.places.map (fun p => (p.length - 1, s.at? p)) = s.outline.map fun b => (b.1, some b.2) :=
  map_placesFrom [] s 0

/-! ## Outlines -/

/-- Two entries of outlines that tell the same: as deep, and equal but for what is inside. -/
structure Alike (b b' : Nat × Command) : Prop where
  depth : b.1 = b'.1
  bare : b.2.bare.same b'.2.bare = true

variable {s' : Script} {rest rest' : List (Nat × Command)}

/-- Equal scripts have outlines that tell the same. -/
theorem forall₂_outline (h : Script.same s s' = true) (d : Nat) :
    List.Forall₂ Alike (outlineAt d s) (outlineAt d s') := by
  induction s using Script.induction generalizing s' d with
  | nil =>
    cases s' with
    | nil => exact .nil
    | cons => cases h
  | cons c rest hinner hrest =>
    cases s' with
    | nil => cases h
    | cons c' rest' =>
      rw [Script.same, Command.same_eq, Bool.and_eq_true, Bool.and_eq_true] at h
      obtain ⟨⟨hbare, hinside⟩, hlater⟩ := h
      rw [outlineAt, outlineAt, Command.outlineAt_eq, Command.outlineAt_eq]
      exact List.rel_append (.cons ⟨rfl, hbare⟩ (hinner hinside (d + 1))) (hrest hlater d)

theorem head_outline (h : ∀ b ∈ rest.head?, b.1 < d) :
    ∀ b ∈ (outlineAt d s ++ rest).head?, b.1 < d + 1 := by
  cases s with
  | nil => exact fun b hb => Nat.lt_succ_of_lt (h b hb)
  | cons c later =>
    rw [outlineAt, Command.outlineAt_eq]
    rintro b ⟨⟩
    exact Nat.lt_succ_self d

/-- A script ends where its outline comes back to blocks that are not as deep. -/
theorem same_of_forall₂ (hrest : ∀ b ∈ rest.head?, b.1 < d) (hrest' : ∀ b ∈ rest'.head?, b.1 < d)
    (h : List.Forall₂ Alike (outlineAt d s ++ rest) (outlineAt d s' ++ rest')) :
    Script.same s s' = true ∧ List.Forall₂ Alike rest rest' := by
  induction s using Script.induction generalizing s' d rest rest' with
  | nil =>
    cases s' with
    | nil => exact ⟨rfl, h⟩
    | cons c' later' =>
      rw [outlineAt, outlineAt, Command.outlineAt_eq] at h
      cases h with
      | cons hfirst _ => exact absurd hfirst.depth (hrest _ rfl).ne
  | cons c later hinner hlater =>
    cases s' with
    | nil =>
      rw [outlineAt, outlineAt, Command.outlineAt_eq] at h
      cases h with
      | cons hfirst _ => exact absurd hfirst.depth (hrest' _ rfl).ne'
    | cons c' later' =>
      rw [outlineAt, outlineAt, Command.outlineAt_eq, Command.outlineAt_eq, List.append_assoc,
        List.append_assoc, List.cons_append, List.cons_append] at h
      cases h with
      | cons hfirst h =>
        obtain ⟨hinside, h⟩ := hinner (head_outline hrest) (head_outline hrest') h
        obtain ⟨hafter, h⟩ := hlater hrest hrest' h
        rw [Script.same, Command.same_eq, hfirst.bare, hinside, hafter]
        exact ⟨rfl, h⟩

/-- Scripts are equal if their outlines tell the same, and only then. -/
theorem same_iff_outline :
    Script.same s s' = true ↔ List.Forall₂ Alike s.outline s'.outline := by
  refine ⟨fun h => forall₂_outline h 0, fun h => ?_⟩
  have hnone : ∀ b ∈ ([] : List (Nat × Command)).head?, b.1 < 0 := fun _ hb => nomatch hb
  rw [← List.append_nil s.outline, ← List.append_nil s'.outline] at h
  exact (same_of_forall₂ hnone hnone h).1

end Script

end StagePlay
