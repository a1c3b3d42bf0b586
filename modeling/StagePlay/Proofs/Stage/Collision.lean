import Mathlib.Data.List.Forall2
import StagePlay.Proofs.Stage.Looks

/-!
# StagePlay.Proofs.Stage.Collision

What a collision pass does, said at once and not step by step.

`Collision.pairs` are the pairs of positions that are in range, in the order in which a pass visits
them. They can be told before the pass begins, since nobody moves while it is under way. The scripts
are dealt by exchanging the two of each pair, one pair after the other.

* `dealt_meet`, `dealt_pass`: scripts change hands along the pairs, also inside a longer list.
* `noted_meet`, `noted_pass`: the swaps that are told of are the pairs.
* `mem_pairs`, `pairs_sorted`: which pairs these are, and in which order.
* `pass_exchanges`: all that a pass does.
-/

namespace StagePlay.Collision

/-- A list of which two entries have changed places. -/
def exchange {α : Type} (xs : List α) (p : Nat × Nat) : List α :=
  match xs[p.1]?, xs[p.2]? with
  | some x, some y => (xs.set p.1 y).set p.2 x
  | _, _ => xs

/-- The pairs of an actor at position `i` with others that are in range, which begin at `j`. -/
def pairsOf (distance : Float) (i : Nat) (a : Actor) (j : Nat) : List Actor → List (Nat × Nat)
  | [] => []
  | b :: rest =>
    if inRange distance a b then (i, j) :: pairsOf distance i a (j + 1) rest
    else pairsOf distance i a (j + 1) rest

def pairsFrom (distance : Float) (i : Nat) : List Actor → List (Nat × Nat)
  | [] => []
  | a :: rest => pairsOf distance i a (i + 1) rest ++ pairsFrom distance (i + 1) rest

/-- The pairs of positions that are in range. -/
def pairs (distance : Float) (actors : List Actor) : List (Nat × Nat) :=
  pairsFrom distance 0 actors

/-- What is told of the exchange of a pair. -/
def Noted (all : List Snapshot) (p : Nat × Nat) (s : Swap) : Prop :=
  ∃ a b, all[p.1]? = some a ∧ all[p.2]? = some b ∧ s = ⟨a.id, a.name, b.id, b.name⟩

variable {distance : Float} {a b : Actor} {actors others : List Actor} {i j k l : Nat}

/-! ## Pairs -/

theorem mem_pairsOf :
    (k, l) ∈ pairsOf distance i a j actors ↔
      k = i ∧ j ≤ l ∧ ∃ b, actors[l - j]? = some b ∧ inRange distance a b = true := by
  induction actors generalizing j with
  | nil => simp [pairsOf]
  | cons b rest ih =>
    have hlater : (k, l) ∈ pairsOf distance i a (j + 1) rest ↔
        k = i ∧ j < l ∧ ∃ c, (b :: rest)[l - j]? = some c ∧ inRange distance a c = true := by
      rw [ih]
      refine and_congr_right fun _ => and_congr_right fun hl => ?_
      rw [show l - j = l - (j + 1) + 1 by omega, List.getElem?_cons_succ]
    have hfirst : l = j → (b :: rest)[l - j]? = some b := by
      rintro rfl
      simp
    rw [pairsOf]
    split
    · rename_i hb
      rw [List.mem_cons, hlater, Prod.mk.injEq]
      constructor
      · rintro (⟨rfl, rfl⟩ | ⟨hk, hl, hc⟩)
        · exact ⟨rfl, Nat.le_refl _, b, hfirst rfl, hb⟩
        · exact ⟨hk, Nat.le_of_lt hl, hc⟩
      · rintro ⟨hk, hl, hc⟩
        rcases Nat.eq_or_lt_of_le hl with hl | hl
        · exact .inl ⟨hk, hl.symm⟩
        · exact .inr ⟨hk, hl, hc⟩
    · rename_i hb
      rw [hlater]
      refine and_congr_right fun _ => ⟨fun ⟨hl, hc⟩ => ⟨Nat.le_of_lt hl, hc⟩, ?_⟩
      rintro ⟨hl, c, hc, hnear⟩
      refine ⟨Nat.lt_of_le_of_ne hl ?_, c, hc, hnear⟩
      rintro rfl
      rw [hfirst rfl] at hc
      cases hc
      exact hb hnear

theorem mem_pairsFrom :
    (k, l) ∈ pairsFrom distance i actors ↔
      i ≤ k ∧ k < l ∧ ∃ a b, actors[k - i]? = some a ∧ actors[l - i]? = some b ∧
        inRange distance a b = true := by
  induction actors generalizing i with
  | nil => simp [pairsFrom]
  | cons a rest ih =>
    rw [pairsFrom, List.mem_append, mem_pairsOf, ih]
    constructor
    · rintro (⟨rfl, hl, b, hb, hnear⟩ | ⟨hk, hl, c, b, hc, hb, hnear⟩)
      · refine ⟨Nat.le_refl _, hl, a, b, by simp, ?_, hnear⟩
        rw [show l - k = l - (k + 1) + 1 by omega, List.getElem?_cons_succ, hb]
      · refine ⟨by omega, hl, c, b, ?_, ?_, hnear⟩
        · rw [show k - i = k - (i + 1) + 1 by omega, List.getElem?_cons_succ, hc]
        · rw [show l - i = l - (i + 1) + 1 by omega, List.getElem?_cons_succ, hb]
    · rintro ⟨hk, hl, c, b, hc, hb, hnear⟩
      rw [show l - i = l - (i + 1) + 1 by omega, List.getElem?_cons_succ] at hb
      rcases Nat.eq_or_lt_of_le hk with rfl | hk
      · rw [Nat.sub_self, List.getElem?_cons_zero, Option.some.injEq] at hc
        exact .inl ⟨rfl, hl, b, hb, hc ▸ hnear⟩
      · rw [show k - i = k - (i + 1) + 1 by omega, List.getElem?_cons_succ] at hc
        exact .inr ⟨hk, hl, c, b, hc, hb, hnear⟩

theorem mem_pairs :
    (i, j) ∈ pairs distance actors ↔
      i < j ∧ ∃ a b, actors[i]? = some a ∧ actors[j]? = some b ∧ inRange distance a b = true := by
  simp [pairs, mem_pairsFrom]

theorem inRange_iff (hij : i < j) (ha : actors[i]? = some a) (hb : actors[j]? = some b) :
    inRange distance a b = true ↔ (i, j) ∈ pairs distance actors := by
  rw [mem_pairs]
  constructor
  · intro hnear
    exact ⟨hij, a, b, ha, hb, hnear⟩
  · rintro ⟨-, c, d, hc, hd, hnear⟩
    rw [ha] at hc
    rw [hb] at hd
    cases hc
    cases hd
    exact hnear

theorem pairsOf_sorted :
    (pairsOf distance i a j actors).Pairwise (Prod.Lex (· < ·) (· < ·)) := by
  induction actors generalizing j with
  | nil => exact .nil
  | cons b rest ih =>
    rw [pairsOf]
    split
    · refine List.pairwise_cons.mpr ⟨?_, ih⟩
      rintro ⟨k, l⟩ hp
      obtain ⟨rfl, hl, -⟩ := mem_pairsOf.mp hp
      exact .right _ hl
    · exact ih

theorem pairsFrom_sorted :
    (pairsFrom distance i actors).Pairwise (Prod.Lex (· < ·) (· < ·)) := by
  induction actors generalizing i with
  | nil => exact .nil
  | cons a rest ih =>
    refine List.pairwise_append.mpr ⟨pairsOf_sorted, ih, ?_⟩
    rintro ⟨k, l⟩ hp ⟨k', l'⟩ hp'
    obtain ⟨rfl, -⟩ := mem_pairsOf.mp hp
    obtain ⟨hk', -⟩ := mem_pairsFrom.mp hp'
    exact .left _ _ hk'

theorem pairs_sorted : (pairs distance actors).Pairwise (Prod.Lex (· < ·) (· < ·)) :=
  pairsFrom_sorted

/-- Which pairs there are is a matter of places only. -/
theorem pairsOf_congr (ha : a.motion.place = b.motion.place)
    (h : actors.map (·.motion.place) = others.map (·.motion.place)) :
    pairsOf distance i a j actors = pairsOf distance i b j others := by
  induction actors generalizing others j with
  | nil =>
    rw [List.map_nil, eq_comm, List.map_eq_nil_iff] at h
    rw [h]
    rfl
  | cons c rest ih =>
    obtain ⟨d, rest', rfl, hd, hrest⟩ := List.map_eq_cons_iff.mp h.symm
    have hnear : inRange distance a c = inRange distance b d := by rw [inRange, inRange, ha, hd]
    rw [pairsOf, pairsOf, hnear, ih hrest.symm]

theorem pairsFrom_congr (h : actors.map (·.motion.place) = others.map (·.motion.place)) :
    pairsFrom distance i actors = pairsFrom distance i others := by
  induction actors generalizing others i with
  | nil =>
    rw [List.map_nil, eq_comm, List.map_eq_nil_iff] at h
    rw [h]
  | cons a rest ih =>
    obtain ⟨b, rest', rfl, hb, hrest⟩ := List.map_eq_cons_iff.mp h.symm
    rw [pairsFrom, pairsFrom, pairsOf_congr hb.symm hrest.symm, ih hrest.symm]

theorem pairs_congr (h : actors.map (·.motion.place) = others.map (·.motion.place)) :
    pairs distance actors = pairs distance others := pairsFrom_congr h

/-- What looks the same is at the same places. -/
theorem places_of_snapshots (h : actors.map (·.toSnapshot) = others.map (·.toSnapshot)) :
    actors.map (·.motion.place) = others.map (·.motion.place) := by
  have := congrArg (List.map fun s : Snapshot => s.motion.place) h
  rwa [List.map_map, List.map_map] at this

/-! ## Scripts -/

theorem exchange_split {α : Type} (before between later : List α) (x y : α) :
    exchange (before ++ x :: between ++ y :: later)
        (before.length, before.length + 1 + between.length) =
      before ++ y :: between ++ x :: later := by
  have hfirst : (before ++ x :: between ++ y :: later)[before.length]? = some x := by simp
  have hsecond : (before ++ x :: between ++ y :: later)[before.length + 1 + between.length]? =
      some y := by
    rw [show before.length + 1 + between.length = (before ++ x :: between).length by simp; omega]
    simp
  have hlength : before.length + 1 + between.length = (before ++ y :: between).length := by
    simp
    omega
  simp only [exchange, hfirst, hsecond]
  rw [List.append_assoc, List.set_append_right _ _ (Nat.le_refl _), Nat.sub_self, List.cons_append,
    List.set_cons_zero, ← List.cons_append, ← List.append_assoc, hlength,
    List.set_append_right _ _ (Nat.le_refl _), Nat.sub_self, List.set_cons_zero]

/-- An actor meets the ones after it, of which those between have had their turn. -/
theorem dealt_meet (distance : Float) (before between : List Script) (a : Actor)
    (actors : List Actor) :
    (pairsOf distance before.length a (before.length + 1 + between.length) actors).foldl exchange
        (before ++ a.script :: between ++ actors.map (·.script)) =
      before ++ (meet distance a actors).1.script :: between ++
        (meet distance a actors).2.1.map (·.script) := by
  induction actors generalizing a between with
  | nil => rfl
  | cons b rest ih =>
    have hnext : ∀ (a : Actor) (script : Script),
        (pairsOf distance before.length a (before.length + 1 + between.length + 1) rest).foldl
          exchange (before ++ a.script :: between ++ script :: rest.map (·.script)) =
        before ++ (meet distance a rest).1.script :: between ++
          script :: (meet distance a rest).2.1.map (·.script) := by
      intro a script
      have := ih (between ++ [script]) a
      simpa [Nat.add_assoc] using this
    rw [pairsOf, meet]
    split
    · have hplace : ({ a with script := b.script } : Actor).motion.place = a.motion.place := rfl
      rw [List.foldl_cons, List.map_cons, exchange_split, ← pairsOf_congr hplace rfl]
      exact hnext { a with script := b.script } a.script
    · exact hnext a b.script

theorem dealt_pass (distance : Float) (before : List Script) (actors : List Actor) :
    (pairsFrom distance before.length actors).foldl exchange
        (before ++ actors.map (·.script)) =
      before ++ (pass distance actors).1.map (·.script) := by
  induction actors using pass.induct distance generalizing before
  case case1 =>
    rw [pass]
    rfl
  case case2 a rest met ih =>
    have hmet := dealt_meet distance before [] a rest
    simp only [List.length_nil, Nat.add_zero] at hmet
    have hplaces : rest.map (·.motion.place) = met.2.1.map (·.motion.place) :=
      places_of_snapshots (snapshots_meet distance a rest).2.symm
    have hlater := ih (before ++ [met.1.script])
    rw [List.length_append, List.length_singleton] at hlater
    rw [pairsFrom, List.foldl_append, pass, pairsFrom_congr hplaces]
    simp only [List.append_assoc, List.cons_append, List.nil_append, List.map_cons] at hmet hlater ⊢
    rw [hmet]
    exact hlater

/-! ## Swaps -/

theorem noted_meet (distance : Float) (before between : List Snapshot) (a : Actor)
    (actors : List Actor) :
    List.Forall₂ (Noted (before ++ a.toSnapshot :: between ++ actors.map (·.toSnapshot)))
      (pairsOf distance before.length a (before.length + 1 + between.length) actors)
      (meet distance a actors).2.2 := by
  induction actors generalizing a between with
  | nil => exact .nil
  | cons b rest ih =>
    have hnext : ∀ other : Actor, other.toSnapshot = a.toSnapshot →
        List.Forall₂
          (Noted (before ++ a.toSnapshot :: between ++ (b :: rest).map (·.toSnapshot)))
          (pairsOf distance before.length a (before.length + 1 + between.length + 1) rest)
          (meet distance other rest).2.2 := by
      intro other hother
      have hplace : other.motion.place = a.motion.place := by rw [hother]
      have := ih (between ++ [b.toSnapshot]) other
      rw [pairsOf_congr hplace rfl] at this
      simpa [hother, Nat.add_assoc] using this
    rw [pairsOf, meet]
    split
    · refine .cons ⟨a.toSnapshot, b.toSnapshot, by simp, ?_, rfl⟩ (hnext _ rfl)
      rw [show before.length + 1 + between.length = (before ++ a.toSnapshot :: between).length by
        simp; omega]
      simp
    · exact hnext a rfl

theorem noted_pass (distance : Float) (before : List Snapshot) (actors : List Actor) :
    List.Forall₂ (Noted (before ++ actors.map (·.toSnapshot)))
      (pairsFrom distance before.length actors) (pass distance actors).2 := by
  induction actors using pass.induct distance generalizing before
  case case1 =>
    rw [pass]
    exact .nil
  case case2 a rest met ih =>
    have hfirst := noted_meet distance before [] a rest
    obtain ⟨-, hlooks⟩ := snapshots_meet distance a rest
    have hlater := ih (before ++ [a.toSnapshot])
    rw [List.length_append, List.length_singleton, hlooks,
      pairsFrom_congr (places_of_snapshots hlooks)] at hlater
    simp only [List.length_nil, Nat.add_zero, List.append_assoc, List.cons_append, List.nil_append]
      at hfirst hlater
    rw [pairsFrom, pass]
    exact List.rel_append hfirst hlater

/-- Who is told of depends on the pairs and on who stands where. -/
theorem tellers_of_noted {all all' : List Snapshot} {ps : List (Nat × Nat)}
    {swaps swaps' : List Swap} (hids : all'.map (·.id) = all.map (·.id))
    (h : List.Forall₂ (Noted all) ps swaps) (h' : List.Forall₂ (Noted all') ps swaps') :
    swaps'.map (fun s => (s.first, s.second)) = swaps.map (fun s => (s.first, s.second)) := by
  have hid : ∀ {n : Nat} {a a' : Snapshot}, all[n]? = some a → all'[n]? = some a' →
      a'.id = a.id := by
    intro n a a' ha ha'
    have := congrArg (·[n]?) hids
    simpa [ha, ha'] using this
  induction h generalizing swaps' with
  | nil =>
    obtain rfl := List.forall₂_nil_left_iff.mp h'
    rfl
  | cons hp _ ih =>
    obtain ⟨s', rest', hp', hrest, rfl⟩ := List.forall₂_cons_left_iff.mp h'
    obtain ⟨a, b, ha, hb, rfl⟩ := hp
    obtain ⟨a', b', ha', hb', rfl⟩ := hp'
    rw [List.map_cons, List.map_cons, ih hrest, hid ha ha', hid hb hb']

/-- **What a collision pass does.** Each pair of positions that is in range before the pass is
visited once, the pairs in lexicographic order. One swap is told of for each of them, in this order,
with the earlier actor as the first. The scripts are the scripts before with the two of each pair
exchanged, in this order, so that they are only dealt anew; nothing else about anybody changes, nor
who stands where. Whose swaps are told of depends on ids and places only. -/
theorem pass_exchanges (distance : Float) (actors : List Actor) :
    let visited := pairs distance actors
    let after := (pass distance actors).1
    let swaps := (pass distance actors).2
    (∀ i j, (i, j) ∈ visited ↔ i < j ∧ ∃ a b, actors[i]? = some a ∧ actors[j]? = some b ∧
      inRange distance a b = true) ∧
    visited.Pairwise (Prod.Lex (· < ·) (· < ·)) ∧
    List.Forall₂ (fun p s => ∃ a b, actors[p.1]? = some a ∧ actors[p.2]? = some b ∧
      s = ⟨a.id, a.name, b.id, b.name⟩) visited swaps ∧
    after.map (·.script) = visited.foldl exchange (actors.map (·.script)) ∧
    (after.map (·.script)).Perm (actors.map (·.script)) ∧
    after.map (·.toSnapshot) = actors.map (·.toSnapshot) ∧
    ∀ others : List Actor,
      others.map (fun a => (a.id, a.motion.place)) = actors.map (fun a => (a.id, a.motion.place)) →
      (pass distance others).2.map (fun s => (s.first, s.second)) =
        swaps.map (fun s => (s.first, s.second)) := by
  intro visited after swaps
  have hnoted : List.Forall₂ (Noted (actors.map (·.toSnapshot))) visited swaps :=
    noted_pass distance [] actors
  refine ⟨fun i j => mem_pairs, pairs_sorted, ?_, (dealt_pass distance [] actors).symm,
    scripts_pass distance actors, snapshots_pass distance actors, ?_⟩
  · refine hnoted.imp ?_
    rintro p s ⟨a, b, ha, hb, rfl⟩
    rw [List.getElem?_map, Option.map_eq_some_iff] at ha hb
    obtain ⟨a, ha, rfl⟩ := ha
    obtain ⟨b, hb, rfl⟩ := hb
    exact ⟨a, b, ha, hb, rfl⟩
  · intro others h
    have hids : others.map (·.id) = actors.map (·.id) := by
      have := congrArg (List.map Prod.fst) h
      rwa [List.map_map, List.map_map] at this
    have hplaces : others.map (·.motion.place) = actors.map (·.motion.place) := by
      have := congrArg (List.map Prod.snd) h
      rwa [List.map_map, List.map_map] at this
    have hothers : List.Forall₂ (Noted (others.map (·.toSnapshot))) visited
        (pass distance others).2 := by
      have := noted_pass distance [] others
      rwa [List.length_nil, pairsFrom_congr hplaces] at this
    refine tellers_of_noted ?_ hnoted hothers
    rwa [List.map_map, List.map_map]

end StagePlay.Collision
