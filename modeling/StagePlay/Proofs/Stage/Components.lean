import Mathlib.Logic.Relation
import StagePlay.Proofs.Decimal.Opposite
import StagePlay.Proofs.Stage.Clusters

/-!
# StagePlay.Proofs.Stage.Components

What a collision pass does among some of the actors, if the others have nothing to do with them.

A set of positions is closed if nobody else is in range of anybody in it. Its members exchange
scripts among themselves only, and the others do so too, so that a pass over its members alone finds
the same pairs in the same order and deals their scripts in the same way. Positions are kept as they
are in the whole list, also for a part of it: `n` is the position of the first actor of the part.

* `inRange_comm`: who is in range of an actor has that actor in range.
* `meet_inside`, `meet_outside`: an actor meets members only, or others only.
* `pass_kept`: a pass over the members of a closed set.
* `connected_deal`: a script comes from somebody to whom a chain of collisions leads.
* `components_independent`: what this says of a stage.
-/

namespace StagePlay

theorem Point.distance_comm (a b : Point) : a.distance b = b.distance a := by
  rw [distance, distance, Binary64.mul_self_sub_comm a.x, Binary64.mul_self_sub_comm a.y]

namespace Collision

variable {distance : Float} {a b : Actor} {actors : List Actor} {C : Nat → Bool} {n k : Nat}

theorem inRange_comm (distance : Float) (a b : Actor) :
    inRange distance a b = inRange distance b a := by
  rw [inRange, inRange, Point.distance_comm]

/-- The entries of a list, of which the first is at position `n`, that are at positions of a set. -/
def kept {α : Type} (C : Nat → Bool) (n : Nat) (xs : List α) : List α :=
  ((xs.zipIdx n).filter fun x => C x.2).map Prod.fst

/-- The swaps of pairs of which both positions are in a set. -/
def keptSwaps (C : Nat → Bool) (ps : List (Nat × Nat)) (swaps : List Swap) : List Swap :=
  ((ps.zip swaps).filter fun x => C x.1.1 && C x.1.2).map Prod.snd

/-- Nobody in a set of positions is in range of anybody who is not. -/
def Closed (distance : Float) (C : Nat → Bool) (n : Nat) (actors : List Actor) : Prop :=
  ∀ i j a b, i < j → actors[i]? = some a → actors[j]? = some b → inRange distance a b = true →
    C (n + i) = C (n + j)

/-! ## Members -/

theorem kept_cons {α : Type} (C : Nat → Bool) (n : Nat) (x : α) (xs : List α) :
    kept C n (x :: xs) = if C n then x :: kept C (n + 1) xs else kept C (n + 1) xs := by
  rw [kept, List.zipIdx_cons, List.filter_cons]
  split <;> rfl

theorem keptSwaps_append {ps qs : List (Nat × Nat)} {swaps later : List Swap}
    (hlength : ps.length = swaps.length) :
    keptSwaps C (ps ++ qs) (swaps ++ later) = keptSwaps C ps swaps ++ keptSwaps C qs later := by
  rw [keptSwaps, List.zip_append hlength, List.filter_append, List.map_append]
  rfl

theorem keptSwaps_all {ps : List (Nat × Nat)} {swaps : List Swap}
    (hlength : ps.length = swaps.length) (h : ∀ p ∈ ps, (C p.1 && C p.2) = true) :
    keptSwaps C ps swaps = swaps := by
  rw [keptSwaps, List.filter_eq_self.mpr fun x hx => h x.1 (List.of_mem_zip hx).1,
    List.map_snd_zip (Nat.le_of_eq hlength.symm)]

theorem keptSwaps_none {ps : List (Nat × Nat)} {swaps : List Swap}
    (h : ∀ p ∈ ps, (C p.1 && C p.2) = false) : keptSwaps C ps swaps = [] := by
  rw [keptSwaps, List.filter_eq_nil_iff.mpr, List.map_nil]
  intro x hx
  rw [h x.1 (List.of_mem_zip hx).1]
  exact Bool.false_ne_true

theorem Closed.tail (h : Closed distance C n (a :: actors)) : Closed distance C (n + 1) actors := by
  intro i j b c hij hb hc hnear
  have := h (i + 1) (j + 1) b c (by omega) hb hc hnear
  rwa [← Nat.add_assoc, ← Nat.add_assoc, Nat.add_right_comm, Nat.add_right_comm n j] at this

theorem Closed.congr {others : List Actor} (h : Closed distance C n actors)
    (hlooks : others.map (·.toSnapshot) = actors.map (·.toSnapshot)) :
    Closed distance C n others := by
  intro i j a b hij ha hb hnear
  have hpair := (inRange_iff hij ha hb).mp hnear
  rw [pairs_congr (places_of_snapshots hlooks), mem_pairs] at hpair
  obtain ⟨-, c, d, hc, hd, hnear⟩ := hpair
  exact h i j c d hij hc hd hnear

/-! ## A pass -/

theorem length_pairsOf (distance : Float) (i : Nat) (a : Actor) (actors : List Actor) :
    (pairsOf distance i a (i + 1) actors).length = (meet distance a actors).2.2.length := by
  have hnoted := noted_meet distance (List.replicate i a.toSnapshot) [] a actors
  rw [List.length_replicate] at hnoted
  exact hnoted.length_eq

/-- Whoever is in range of a member is a member too. -/
theorem meet_inside (a : Actor)
    (h : ∀ j b, actors[j]? = some b → inRange distance a b = true → C (n + j) = true) :
    meet distance a (kept C n actors) =
      ((meet distance a actors).1, kept C n (meet distance a actors).2.1,
        (meet distance a actors).2.2) := by
  induction actors generalizing a n with
  | nil => rfl
  | cons b rest ih =>
    have hrest : ∀ j c, rest[j]? = some c → inRange distance a c = true →
        C (n + 1 + j) = true := by
      intro j c hc hnear
      rw [Nat.add_assoc, Nat.add_comm 1]
      exact h (j + 1) c hc hnear
    by_cases hnear : inRange distance a b = true
    · have hb : C n = true := h 0 b rfl hnear
      have hlater := ih { a with script := b.script } hrest
      simp only [kept_cons, meet, hnear, hb, ↓reduceIte, hlater]
    · have hlater := ih a hrest
      cases hb : C n <;> simp [kept_cons, meet, hnear, hb, hlater]

/-- Whoever is in range of somebody else is no member either. -/
theorem meet_outside (a : Actor)
    (h : ∀ j b, actors[j]? = some b → inRange distance a b = true → C (n + j) = false) :
    kept C n (meet distance a actors).2.1 = kept C n actors := by
  induction actors generalizing a n with
  | nil => rfl
  | cons b rest ih =>
    have hrest : ∀ j c, rest[j]? = some c → inRange distance a c = true →
        C (n + 1 + j) = false := by
      intro j c hc hnear
      rw [Nat.add_assoc, Nat.add_comm 1]
      exact h (j + 1) c hc hnear
    by_cases hnear : inRange distance a b = true
    · have hb : C n = false := h 0 b rfl hnear
      have hlater := ih { a with script := b.script } hrest
      simp only [kept_cons, meet, hnear, hb, ↓reduceIte, Bool.false_eq_true, hlater]
    · simp only [kept_cons, meet, hnear, ↓reduceIte, Bool.false_eq_true, ih a hrest]

theorem pass_kept (h : Closed distance C n actors) :
    pass distance (kept C n actors) =
      (kept C n (pass distance actors).1,
        keptSwaps C (pairsFrom distance n actors) (pass distance actors).2) := by
  induction actors using pass.induct distance generalizing n
  case case1 =>
    have hempty : pass distance [] = ([], []) := by rw [pass]
    rw [hempty]
    exact hempty
  case case2 a rest met ih =>
    have hlooks : met.2.1.map (·.toSnapshot) = rest.map (·.toSnapshot) :=
      (snapshots_meet distance a rest).2
    have hlater := ih (h.tail.congr hlooks)
    rw [pairsFrom_congr (places_of_snapshots hlooks)] at hlater
    have hmeets : ∀ j b, rest[j]? = some b → inRange distance a b = true →
        C (n + 1 + j) = C n := by
      intro j b hb hnear
      rw [Nat.add_assoc, Nat.add_comm 1]
      exact (h 0 (j + 1) a b (by omega) rfl hb hnear).symm
    have hpairs : ∀ p ∈ pairsOf distance n a (n + 1) rest, p.1 = n ∧ C p.2 = C n := by
      rintro ⟨i, j⟩ hp
      obtain ⟨rfl, hj, b, hb, hnear⟩ := mem_pairsOf.mp hp
      have := hmeets (j - (i + 1)) b hb hnear
      rw [Nat.add_sub_cancel' hj] at this
      exact ⟨rfl, this⟩
    rw [pairsFrom, pass, keptSwaps_append (length_pairsOf ..)]
    -- the first actor is a member and meets members only, or it is none and meets none of them
    cases hn : C n with
    | true =>
      have hinside : meet distance a (kept C (n + 1) rest) =
          (met.1, kept C (n + 1) met.2.1, met.2.2) := by
        refine meet_inside a fun j b hb hnear => ?_
        rw [hmeets j b hb hnear, hn]
      have hall : ∀ p ∈ pairsOf distance n a (n + 1) rest, (C p.1 && C p.2) = true := by
        intro p hp
        rw [(hpairs p hp).1, (hpairs p hp).2, hn, Bool.and_self]
      rw [keptSwaps_all (length_pairsOf ..) hall, kept_cons, kept_cons, if_pos hn, if_pos hn, pass,
        hinside, hlater]
    | false =>
      have houtside : kept C (n + 1) met.2.1 = kept C (n + 1) rest := by
        refine meet_outside a fun j b hb hnear => ?_
        rw [hmeets j b hb hnear, hn]
      have hnone : ∀ p ∈ pairsOf distance n a (n + 1) rest, (C p.1 && C p.2) = false := by
        intro p hp
        rw [(hpairs p hp).1, hn, Bool.false_and]
      rw [keptSwaps_none hnone, kept_cons, kept_cons, if_neg (Bool.eq_false_iff.mp hn),
        if_neg (Bool.eq_false_iff.mp hn), ← houtside, hlater, List.nil_append]

/-! ## Sets of actors -/

theorem closed_of_inRange (h : ∀ i j a b, C i = true → actors[i]? = some a → actors[j]? = some b →
    inRange distance a b = true → C j = true) : Closed distance C 0 actors := by
  intro i j a b _ ha hb hnear
  rw [Nat.zero_add, Nat.zero_add, Bool.eq_iff_iff]
  constructor
  · intro hi
    exact h i j a b hi ha hb hnear
  · intro hj
    rw [inRange_comm] at hnear
    exact h j i b a hj hb ha hnear

theorem kept_eq_filter {α : Type} {f : α → Bool} {xs : List α}
    (h : ∀ i x, xs[i]? = some x → C (n + i) = f x) : kept C n xs = xs.filter f := by
  induction xs generalizing n with
  | nil => rfl
  | cons x xs ih =>
    have hrest : ∀ i y, xs[i]? = some y → C (n + 1 + i) = f y := by
      intro i y hy
      rw [Nat.add_assoc, Nat.add_comm 1]
      exact h (i + 1) y hy
    have hx : C n = f x := h 0 x rfl
    rw [kept_cons, ih hrest, List.filter_cons, hx]

theorem keptSwaps_eq_filter {ps : List (Nat × Nat)} {swaps : List Swap} {f : Swap → Bool}
    (h : List.Forall₂ (fun p s => (C p.1 && C p.2) = f s) ps swaps) :
    keptSwaps C ps swaps = swaps.filter f := by
  induction h with
  | nil => rfl
  | @cons p s ps swaps hp _ ih =>
    rw [keptSwaps] at ih ⊢
    rw [List.zip_cons_cons, List.filter_cons, List.filter_cons, hp, ← ih]
    split <;> rfl

theorem noted_pairs (distance : Float) (actors : List Actor) :
    List.Forall₂ (fun p w => ∃ a b, actors[p.1]? = some a ∧ actors[p.2]? = some b ∧
      w = ⟨a.id, a.name, b.id, b.name⟩) (pairs distance actors) (pass distance actors).2 := by
  refine (noted_pass distance [] actors).imp ?_
  rintro p w ⟨a, b, ha, hb, rfl⟩
  rw [List.nil_append, List.getElem?_map, Option.map_eq_some_iff] at ha hb
  obtain ⟨a, ha, rfl⟩ := ha
  obtain ⟨b, hb, rfl⟩ := hb
  exact ⟨a, b, ha, hb, rfl⟩

/-- A pass over actors that are told by their ids. -/
theorem pass_filter {keep : ActorId → Bool}
    (h : ∀ a ∈ actors, ∀ b ∈ actors, keep a.id = true → inRange distance a b = true →
      keep b.id = true) :
    pass distance (actors.filter fun a => keep a.id) =
      ((pass distance actors).1.filter fun a => keep a.id,
        (pass distance actors).2.filter fun s => keep s.first && keep s.second) := by
  let C : Nat → Bool := fun i => (actors[i]?).any fun a => keep a.id
  have hC : ∀ {i : Nat} {a : Actor}, actors[i]? = some a → C i = keep a.id := by
    intro i a ha
    show (actors[i]?).any _ = _
    rw [ha]
    rfl
  have hclosed : Closed distance C 0 actors := by
    refine closed_of_inRange fun i j a b hi ha hb hnear => ?_
    rw [hC ha] at hi
    rw [hC hb]
    exact h a (List.mem_of_getElem? ha) b (List.mem_of_getElem? hb) hi hnear
  have hbefore : kept C 0 actors = actors.filter fun a => keep a.id := by
    refine kept_eq_filter fun i a ha => ?_
    rw [Nat.zero_add, hC ha]
  have hafter : kept C 0 (pass distance actors).1 =
      (pass distance actors).1.filter fun a => keep a.id := by
    refine kept_eq_filter fun i b hb => ?_
    have hlook := congrArg (·[i]?) (snapshots_pass distance actors)
    simp only [List.getElem?_map, hb, Option.map_some] at hlook
    obtain ⟨a, ha, hsame⟩ := Option.map_eq_some_iff.mp hlook.symm
    rw [Nat.zero_add, hC ha, hsame]
  have hswaps : keptSwaps C (pairsFrom distance 0 actors) (pass distance actors).2 =
      (pass distance actors).2.filter fun s => keep s.first && keep s.second := by
    refine keptSwaps_eq_filter ((noted_pairs distance actors).imp ?_)
    rintro p w ⟨a, b, ha, hb, rfl⟩
    rw [hC ha, hC hb]
  rw [← hbefore, pass_kept hclosed, hafter, hswaps]

/-! ## Chains -/

/-- Two positions whose actors are in range of each other. -/
def Touches (distance : Float) (actors : List Actor) (i j : Nat) : Prop :=
  ∃ a b, actors[i]? = some a ∧ actors[j]? = some b ∧ inRange distance a b = true

theorem Touches.symm {i j : Nat} (h : Touches distance actors i j) :
    Touches distance actors j i := by
  obtain ⟨a, b, ha, hb, hnear⟩ := h
  exact ⟨b, a, hb, ha, (inRange_comm distance b a).trans hnear⟩

theorem connected_deal {ps : List (Nat × Nat)} (h : ∀ p ∈ ps, Touches distance actors p.1 p.2)
    (k : Nat) : Relation.ReflTransGen (Touches distance actors) k (deal ps k) := by
  induction ps with
  | nil => exact .refl
  | cons p rest ih =>
    obtain ⟨hp, hrest⟩ := List.forall_mem_cons.mp h
    have hcons : deal (p :: rest) k = Equiv.swap p.1 p.2 (deal rest k) := rfl
    have hlater := ih hrest
    rw [hcons, Equiv.swap_apply_def]
    split
    · rename_i hfirst
      exact hlater.tail (hfirst ▸ hp)
    · split
      · rename_i hsecond
        exact hlater.tail (hsecond ▸ hp.symm)
      · exact hlater

theorem touches_of_mem_pairs {p : Nat × Nat} (h : p ∈ pairs distance actors) :
    Touches distance actors p.1 p.2 := (mem_pairs.mp h).2

/-- **Collision passes act on each component on its own.** Take any set of positions such that
whoever is in range of one of its actors belongs to it too. A pass over its actors alone, in their
order, leaves them as the pass over all actors does, with the same scripts; it tells of those swaps
of the pass over all whose two actors are in the set, in the same order. The same holds of a stage
on which some of the actors are left, told by their ids. So a script comes from somebody to whom a
chain of collisions leads, whoever has which script. -/
theorem components_independent (distance : Float) (s : Stage) :
    let actors := s.actors
    let visited := pairs distance actors
    let after := (pass distance actors).1
    let swaps := (pass distance actors).2
    (∀ C : Nat → Bool,
      (∀ i j a b, C i = true → actors[i]? = some a → actors[j]? = some b →
        inRange distance a b = true → C j = true) →
      pass distance (kept C 0 actors) =
        (kept C 0 after,
          ((visited.zip swaps).filter fun x => C x.1.1 && C x.1.2).map Prod.snd)) ∧
    List.Forall₂ (fun p w => ∃ a b, actors[p.1]? = some a ∧ actors[p.2]? = some b ∧
      w = ⟨a.id, a.name, b.id, b.name⟩) visited swaps ∧
    (∀ keep : ActorId → Bool,
      (∀ a ∈ actors, ∀ b ∈ actors, keep a.id = true → inRange distance a b = true →
        keep b.id = true) →
      ({ s with actors := actors.filter fun a => keep a.id } : Stage).collide distance =
        ({ s with actors := after.filter fun a => keep a.id },
          (s.collide distance).2.filter fun w => keep w.first && keep w.second)) ∧
    ∀ k : Nat, ∃ j : Nat, Relation.ReflTransGen (Touches distance actors) k j ∧
      ∀ others : List Actor, others.map (·.toSnapshot) = actors.map (·.toSnapshot) →
        ((pass distance others).1[k]?).map (·.script) = (others[j]?).map (·.script) := by
  intro actors visited after swaps
  refine ⟨fun C h => pass_kept (closed_of_inRange h), noted_pairs distance actors,
    fun keep h => ?_, fun k => ⟨deal visited k, ?_, fun others hlooks => ?_⟩⟩
  · rw [Stage.collide, pass_filter h]
    rfl
  · exact connected_deal (fun p hp => touches_of_mem_pairs hp) k
  · rw [script_pass, pairs_congr (places_of_snapshots hlooks)]

/-- A chain of three actors, and a pair far away from it that stands among them. -/
def mixed : List Actor :=
  [⟨⟨⟨1⟩, "Sprite 1", ⟨0, 0, 0⟩, true, none⟩, [.appear true]⟩,
    ⟨⟨⟨2⟩, "Sprite 2", ⟨500, 0, 0⟩, true, none⟩, [.appear false]⟩,
    ⟨⟨⟨3⟩, "Sprite 3", ⟨40, 0, 0⟩, true, none⟩, []⟩,
    ⟨⟨⟨4⟩, "Sprite 4", ⟨80, 0, 0⟩, true, none⟩, [.unknown]⟩,
    ⟨⟨⟨5⟩, "Sprite 5", ⟨510, 0, 0⟩, true, none⟩, [.appear true, .unknown]⟩]

theorem pairs_mixed : pairs 50 mixed = [(0, 2), (1, 4), (2, 3)] := by decide +kernel

theorem components_independent_mixed :
    let chain : Nat → Bool := fun i => i % 3 != 1
    (∀ i j a b, chain i = true → mixed[i]? = some a → mixed[j]? = some b →
      inRange 50 a b = true → chain j = true) ∧
    pass 50 (kept chain 0 mixed) = (kept chain 0 (pass 50 mixed).1,
      (((pairs 50 mixed).zip (pass 50 mixed).2).filter fun x => chain x.1.1 && chain x.1.2).map
        Prod.snd) ∧
    kept chain 0 ((pass 50 mixed).1.map (·.script)) = [[], [.unknown], [.appear true]] := by
  intro chain
  have hpairs : ∀ p ∈ [(0, 2), (1, 4), (2, 3)], chain p.1 = chain p.2 := by decide
  have hclosed : ∀ i j a b, chain i = true → mixed[i]? = some a → mixed[j]? = some b →
      inRange 50 a b = true → chain j = true := by
    intro i j a b hi ha hb hnear
    rcases Nat.lt_trichotomy i j with hij | rfl | hij
    · rw [inRange_iff hij ha hb, pairs_mixed] at hnear
      rw [← hpairs _ hnear, hi]
    · exact hi
    · rw [inRange_comm, inRange_iff hij hb ha, pairs_mixed] at hnear
      rw [hpairs _ hnear, hi]
  have hscripts : (pass 50 mixed).1.map (·.script) =
      [[], [.appear true, .unknown], [.unknown], [.appear true], [.appear false]] := by
    have hdealt := dealt_pass 50 [] mixed
    have hfrom : pairsFrom 50 0 mixed = [(0, 2), (1, 4), (2, 3)] := pairs_mixed
    rw [List.length_nil, hfrom] at hdealt
    exact hdealt.symm
  refine ⟨hclosed, (components_independent 50 ⟨mixed, 5, ⟨0, 0⟩⟩).1 chain hclosed, ?_⟩
  rw [hscripts]
  rfl

end Collision

end StagePlay
