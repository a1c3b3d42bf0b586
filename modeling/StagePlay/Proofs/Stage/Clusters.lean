import Mathlib.GroupTheory.Perm.Basic
import StagePlay.Proofs.Stage.Collision

/-!
# StagePlay.Proofs.Stage.Clusters

What one collision pass makes of clusters, and what two passes in succession make of the scripts, if
nobody moves in between.

Both passes exchange the same pairs, so the second one applies the permutation of the first one
again. Scripts come back to everybody if this permutation is its own inverse. In a cluster, where
any two actors are in range, a pass turns the order of the scripts round, and the next one turns it
back; in an open chain of three the scripts go round in a circle.

* `getElem?_foldl_exchange`: exchanges one after the other are one permutation.
* `scriptsOf_pass`: a pass reverses the scripts of each cluster, also of clusters among others.
* `pass_reverses`: the same, told by positions.
* `restored_iff`: when two passes restore the scripts.
-/

namespace StagePlay.Collision

variable {distance : Float} {a : Actor} {actors others : List Actor} {ps : List (Nat × Nat)}
  {n k : Nat}

/-! ## One permutation -/

/-- Where the script that a position has in the end comes from. -/
def deal (ps : List (Nat × Nat)) : Equiv.Perm Nat := (ps.map fun p => Equiv.swap p.1 p.2).prod

/-- Pairs of positions in a list of this length. -/
def Within (n : Nat) (ps : List (Nat × Nat)) : Prop := ∀ p ∈ ps, p.1 < n ∧ p.2 < n

theorem length_exchange {α : Type} (xs : List α) (p : Nat × Nat) :
    (exchange xs p).length = xs.length := by
  unfold exchange
  split <;> simp

theorem getElem?_exchange {α : Type} {xs : List α} {p : Nat × Nat} (hp : Within xs.length [p])
    (k : Nat) : (exchange xs p)[k]? = xs[Equiv.swap p.1 p.2 k]? := by
  obtain ⟨i, j⟩ := p
  obtain ⟨hi, hj⟩ := hp _ List.mem_cons_self
  simp only at hi hj ⊢
  simp only [exchange, List.getElem?_eq_getElem hi, List.getElem?_eq_getElem hj,
    Equiv.swap_apply_def, List.getElem?_set, List.length_set]
  grind

theorem getElem?_foldl_exchange {α : Type} {xs : List α} (hps : Within xs.length ps) (k : Nat) :
    (ps.foldl exchange xs)[k]? = xs[deal ps k]? := by
  induction ps generalizing xs with
  | nil => rfl
  | cons p rest ih =>
    obtain ⟨hp, hrest⟩ := List.forall_mem_cons.mp hps
    rw [List.foldl_cons, ih (by rwa [length_exchange]),
      getElem?_exchange (List.forall_mem_singleton.mpr hp)]
    rfl

/-- Positions that are in no pair keep what they have. -/
theorem deal_of_le (hps : Within n ps) (hk : n ≤ k) : deal ps k = k := by
  induction ps with
  | nil => rfl
  | cons p rest ih =>
    obtain ⟨⟨hi, hj⟩, hrest⟩ := List.forall_mem_cons.mp hps
    have hcons : deal (p :: rest) k = Equiv.swap p.1 p.2 (deal rest k) := rfl
    rw [hcons, ih hrest, Equiv.swap_apply_of_ne_of_ne (by omega) (by omega)]

theorem within_pairs (distance : Float) (actors : List Actor) :
    Within actors.length (pairs distance actors) := by
  rintro ⟨i, j⟩ hp
  obtain ⟨-, a, b, ha, hb, -⟩ := mem_pairs.mp hp
  exact ⟨(List.getElem?_eq_some_iff.mp ha).1, (List.getElem?_eq_some_iff.mp hb).1⟩

theorem script_pass (distance : Float) (actors : List Actor) (k : Nat) :
    ((pass distance actors).1[k]?).map (·.script) =
      (actors[deal (pairs distance actors) k]?).map (·.script) := by
  have hdealt : (pass distance actors).1.map (·.script) =
      (pairs distance actors).foldl exchange (actors.map (·.script)) :=
    (dealt_pass distance [] actors).symm
  rw [← List.getElem?_map, hdealt, getElem?_foldl_exchange, List.getElem?_map]
  rw [List.length_map]
  exact within_pairs distance actors

/-- Exchanges are a matter of how actors look, so that a second pass makes the same ones. -/
theorem script_pass_pass (distance : Float)
    (h : others.map (·.toSnapshot) = actors.map (·.toSnapshot)) (k : Nat) :
    ((pass distance (pass distance others).1).1[k]?).map (·.script) =
      (others[(deal (pairs distance actors) * deal (pairs distance actors)) k]?).map
        (·.script) := by
  have hsecond : pairs distance (pass distance others).1 = pairs distance actors :=
    pairs_congr (places_of_snapshots ((snapshots_pass distance others).trans h))
  rw [script_pass, hsecond, script_pass, pairs_congr (places_of_snapshots h)]
  rfl

theorem snapshots_pass_pass (distance : Float) (actors : List Actor) :
    (pass distance (pass distance actors).1).1.map (·.toSnapshot) = actors.map (·.toSnapshot) :=
  (snapshots_pass ..).trans (snapshots_pass ..)

theorem actor_eq {a b : Actor} (hlook : b.toSnapshot = a.toSnapshot)
    (hscript : b.script = a.script) : b = a := by
  cases a
  cases b
  cases hlook
  cases hscript
  rfl

/-- Who looks the same and has the same script is the same. -/
theorem eq_of_scripts (hlooks : others.map (·.toSnapshot) = actors.map (·.toSnapshot))
    (hscripts : ∀ k : Nat, (others[k]?).map (·.script) = (actors[k]?).map (·.script)) :
    others = actors := by
  refine List.ext_getElem? fun k => ?_
  have hlook := congrArg (·[k]?) hlooks
  have hscript := hscripts k
  simp only [List.getElem?_map] at hlook
  cases ha : actors[k]? with
  | none => simpa [ha] using hlook
  | some a =>
    cases hb : others[k]? with
    | none => simp [ha, hb] at hlook
    | some b =>
      simp only [ha, hb, Option.map_some, Option.some.injEq] at hlook hscript
      rw [actor_eq hlook hscript]

/-- The same actors, each with a script of its own: as many blocks as there are actors before it. -/
def distinguished (actors : List Actor) : List Actor :=
  actors.mapIdx fun i a => { a with script := List.replicate i .unknown }

theorem snapshots_distinguished (actors : List Actor) :
    (distinguished actors).map (·.toSnapshot) = actors.map (·.toSnapshot) := by
  refine List.ext_getElem? fun k => ?_
  simp only [distinguished, List.getElem?_map, List.getElem?_mapIdx, Option.map_map]
  rfl

theorem script_distinguished (actors : List Actor) (k : Nat) :
    ((distinguished actors)[k]?).map (·.script) =
      (actors[k]?).map fun _ => List.replicate k .unknown := by
  simp only [distinguished, List.getElem?_mapIdx, Option.map_map]
  rfl

/-- Two passes restore all scripts, whoever has which, if their permutation is its own inverse. -/
theorem restored_iff_involutive (distance : Float) (actors : List Actor) :
    (∀ others : List Actor, others.map (·.toSnapshot) = actors.map (·.toSnapshot) →
        (pass distance (pass distance others).1).1 = others) ↔
      deal (pairs distance actors) * deal (pairs distance actors) = 1 := by
  constructor
  · intro h
    ext k
    rw [Equiv.Perm.one_apply]
    by_cases hk : k < actors.length
    · have htwice := script_pass_pass distance (snapshots_distinguished actors) k
      rw [h _ (snapshots_distinguished actors), script_distinguished, script_distinguished,
        List.getElem?_eq_getElem hk] at htwice
      obtain ⟨a, -, hscript⟩ := Option.map_eq_some_iff.mp htwice.symm
      have hlength := congrArg List.length hscript
      rwa [List.length_replicate, List.length_replicate] at hlength
    · have hout := deal_of_le (within_pairs distance actors) (Nat.le_of_not_lt hk)
      rw [Equiv.Perm.mul_apply, hout, hout]
  · intro hinvolutive others hlooks
    refine eq_of_scripts (snapshots_pass_pass distance others) fun k => ?_
    rw [script_pass_pass distance hlooks, hinvolutive, Equiv.Perm.one_apply]

/-! ## Clusters -/

/-- Every position has the label of a group: two actors are in range if they are of one group, and
    only then. -/
def Clustered {ι : Type} (distance : Float) (group : Nat → ι) (actors : List Actor) : Prop :=
  ∀ i j a b, i < j → actors[i]? = some a → actors[j]? = some b →
    (inRange distance a b = true ↔ group i = group j)

/-- The scripts of a group, in the order of its actors. -/
def scriptsOf {ι : Type} [DecidableEq ι] (g : ι) (group : Nat → ι) : List Actor → List Script
  | [] => []
  | a :: rest =>
    let later := scriptsOf g (fun i => group (i + 1)) rest
    if group 0 = g then a.script :: later else later

variable {ι : Type} {group : Nat → ι}

theorem Clustered.tail (h : Clustered distance group (a :: actors)) :
    Clustered distance (fun i => group (i + 1)) actors :=
  fun i j b c hij hb hc => h (i + 1) (j + 1) b c (by omega) hb hc

theorem Clustered.congr (h : Clustered distance group actors)
    (hlooks : others.map (·.toSnapshot) = actors.map (·.toSnapshot)) :
    Clustered distance group others := by
  have hsame : ∀ {i : Nat} {b : Actor}, others[i]? = some b →
      ∃ a, actors[i]? = some a ∧ a.toSnapshot = b.toSnapshot := by
    intro i b hb
    have := congrArg (·[i]?) hlooks
    simp only [List.getElem?_map, hb, Option.map_some] at this
    exact Option.map_eq_some_iff.mp this.symm
  intro i j b b' hij hb hb'
  obtain ⟨a, ha, hlook⟩ := hsame hb
  obtain ⟨a', ha', hlook'⟩ := hsame hb'
  rw [← h i j a a' hij ha ha', inRange, inRange, hlook, hlook']

variable [DecidableEq ι]

/-- An actor that meets its group hands its script on, and each of the others gets the script of the
    one before; it is left with the last one. -/
theorem scriptsOf_meet {g : ι} (a : Actor)
    (h : ∀ j b, actors[j]? = some b → (inRange distance a b = true ↔ group j = g)) :
    a.script :: scriptsOf g group actors =
        scriptsOf g group (meet distance a actors).2.1 ++ [(meet distance a actors).1.script] ∧
      ∀ g' ≠ g, scriptsOf g' group (meet distance a actors).2.1 = scriptsOf g' group actors := by
  induction actors generalizing a group with
  | nil => exact ⟨rfl, fun _ _ => rfl⟩
  | cons b rest ih =>
    have hfirst := h 0 b rfl
    have hrest : ∀ j c, rest[j]? = some c →
        (inRange distance a c = true ↔ group (j + 1) = g) := fun j c hc => h (j + 1) c hc
    rw [meet]
    split
    · -- the script of `a` goes to `b`, and `a` goes on with that of `b`
      rename_i hnear
      have hgroup := hfirst.mp hnear
      obtain ⟨hall, hothers⟩ := ih { a with script := b.script } hrest
      constructor
      · simp only [scriptsOf, hgroup, ↓reduceIte, List.cons_append]
        exact congrArg (a.script :: ·) hall
      · intro g' hg'
        simp only [scriptsOf, hgroup, if_neg hg'.symm, hothers g' hg']
    · rename_i hfar
      have hgroup : group 0 ≠ g := fun hg => hfar (hfirst.mpr hg)
      obtain ⟨hall, hothers⟩ := ih a hrest
      constructor
      · simp only [scriptsOf, if_neg hgroup, hall]
      · intro g' hg'
        simp only [scriptsOf, hothers g' hg']

/-- A pass reverses the scripts of each group. -/
theorem scriptsOf_pass (h : Clustered distance group actors) (g : ι) :
    scriptsOf g group (pass distance actors).1 = (scriptsOf g group actors).reverse := by
  induction actors using pass.induct distance generalizing group
  case case1 =>
    rw [pass]
    rfl
  case case2 a rest met ih =>
    have hmeets : ∀ j b, rest[j]? = some b →
        (inRange distance a b = true ↔ group (j + 1) = group 0) := by
      intro j b hb
      rw [h 0 (j + 1) a b (by omega) rfl hb, eq_comm]
    obtain ⟨hall, hothers⟩ := scriptsOf_meet a hmeets
    have hreversed := ih (h.tail.congr (snapshots_meet distance a rest).2)
    rw [pass]
    by_cases hg : group 0 = g
    · subst hg
      simp only [scriptsOf, ↓reduceIte]
      rw [hreversed, hall, List.reverse_append]
      rfl
    · simp only [scriptsOf, if_neg hg]
      rw [hreversed, hothers g (Ne.symm hg)]

/-- The scripts of a group are those at its positions. -/
theorem scriptsOf_eq (g : ι) (group : Nat → ι) (actors : List Actor) :
    (scriptsOf g group actors).map some =
      ((List.range actors.length).filter (group · = g)).map fun k =>
        (actors[k]?).map (·.script) := by
  induction actors generalizing group with
  | nil => rfl
  | cons a rest ih =>
    have hlater := ih fun i => group (i + 1)
    rw [List.length_cons, List.range_succ_eq_map, List.filter_cons, List.filter_map]
    by_cases hg : group 0 = g
    · simp only [scriptsOf, hg, ↓reduceIte, decide_true, List.map_cons, hlater, List.map_map]
      rfl
    · simp only [scriptsOf, hg, ↓reduceIte, decide_false, Bool.false_eq_true, hlater, List.map_map]
      rfl

/-- **A pass reverses each cluster.** Suppose that the actors fall into groups, however interleaved
in their list, such that two actors are in range if and only if they are of one group. Then a pass
turns the scripts of each group round: read at the positions of the group in ascending order, they
stand in exactly the reverse order of before. -/
theorem pass_reverses (h : ∀ i j a b, i < j → actors[i]? = some a → actors[j]? = some b →
      (inRange distance a b = true ↔ group i = group j)) (g : ι) :
    let positions := (List.range actors.length).filter (group · = g)
    positions.map (fun k => ((pass distance actors).1[k]?).map (·.script)) =
      (positions.map fun k => (actors[k]?).map (·.script)).reverse := by
  intro positions
  have hlength : (pass distance actors).1.length = actors.length := by
    have := congrArg List.length (snapshots_pass distance actors)
    rwa [List.length_map, List.length_map] at this
  have hafter := scriptsOf_eq g group (pass distance actors).1
  rw [hlength, scriptsOf_pass h, List.map_reverse, scriptsOf_eq] at hafter
  exact hafter.symm

/-- Three actors at one end of the stage and two at the other, in turn. -/
def alternating : List Actor :=
  [⟨⟨⟨1⟩, "Sprite 1", ⟨0, 0, 0⟩, true, none⟩, [.appear true]⟩,
    ⟨⟨⟨2⟩, "Sprite 2", ⟨300, 0, 0⟩, true, none⟩, [.appear false]⟩,
    ⟨⟨⟨3⟩, "Sprite 3", ⟨20, 0, 0⟩, true, none⟩, []⟩,
    ⟨⟨⟨4⟩, "Sprite 4", ⟨300, 10, 0⟩, true, none⟩, [.unknown]⟩,
    ⟨⟨⟨5⟩, "Sprite 5", ⟨0, 30, 0⟩, true, none⟩, [.appear true, .unknown]⟩]

theorem pairs_alternating : pairs 50 alternating = [(0, 2), (0, 4), (1, 3), (2, 4)] := by
  decide +kernel

theorem pass_reverses_alternating :
    (∀ i j a b, i < j → alternating[i]? = some a → alternating[j]? = some b →
      (inRange 50 a b = true ↔ i % 2 = j % 2)) ∧
    [0, 2, 4].map (fun k => ((pass 50 alternating).1[k]?).map (·.script)) =
      [some [.appear true, .unknown], some [], some [.appear true]] ∧
    [1, 3].map (fun k => ((pass 50 alternating).1[k]?).map (·.script)) =
      [some [.unknown], some [.appear false]] := by
  have hgroup : ∀ j < 5, ∀ i < j,
      ((i, j) ∈ [(0, 2), (0, 4), (1, 3), (2, 4)] ↔ i % 2 = j % 2) := by decide
  have hclustered : ∀ i j a b, i < j → alternating[i]? = some a → alternating[j]? = some b →
      (inRange 50 a b = true ↔ i % 2 = j % 2) := by
    intro i j a b hij ha hb
    rw [inRange_iff hij ha hb, pairs_alternating]
    exact hgroup j (List.getElem?_eq_some_iff.mp hb).1 i hij
  exact ⟨hclustered, pass_reverses hclustered 0, pass_reverses hclustered 1⟩

/-- The scripts of all groups, one group after the other, are all scripts. -/
theorem eq_of_scriptsOf (group : Nat → ι)
    (hlooks : others.map (·.toSnapshot) = actors.map (·.toSnapshot))
    (hscripts : ∀ g, scriptsOf g group others = scriptsOf g group actors) : others = actors := by
  induction actors generalizing others group with
  | nil => exact List.map_eq_nil_iff.mp hlooks
  | cons a rest ih =>
    obtain ⟨b, rest', rfl, hlook, hrest⟩ := List.map_eq_cons_iff.mp hlooks
    have hhead := hscripts (group 0)
    simp only [scriptsOf, ↓reduceIte, List.cons.injEq] at hhead
    have htail : rest' = rest := by
      refine ih (fun i => group (i + 1)) hrest fun g => ?_
      by_cases hg : group 0 = g
      · rw [← hg, hhead.2]
      · have := hscripts g
        simpa only [scriptsOf, if_neg hg] using this
    rw [htail, actor_eq hlook hhead.1]

theorem restored_of_clustered (h : Clustered distance group actors) :
    (pass distance (pass distance actors).1).1 = actors := by
  refine eq_of_scriptsOf group (snapshots_pass_pass distance actors) fun g => ?_
  rw [scriptsOf_pass (h.congr (snapshots_pass distance actors)), scriptsOf_pass h,
    List.reverse_reverse]

/-- **When two passes restore the scripts.** Nobody moves between two passes. Then the second one
makes the same swaps as the first one, in the same order, and what it changes is scripts. Each
position ends up with the script of the position to which two applications of one permutation lead:
that of the pairs in range, one transposition after the other. So whoever has which script,
everybody has it again, if this permutation is its own inverse, and only then. It is if the actors
fall into groups, however interleaved, such that two actors are in range if and only if they are of
one group: a pair, any number of pairs, or larger clusters. -/
theorem restored_iff (distance : Float) (actors : List Actor) :
    let once := (pass distance actors).1
    let twice := (pass distance once).1
    let σ := ((pairs distance actors).map fun p => Equiv.swap p.1 p.2).prod
    (pass distance once).2 = (pass distance actors).2 ∧
    twice.map (·.toSnapshot) = actors.map (·.toSnapshot) ∧
    (∀ k : Nat, (twice[k]?).map (·.script) = (actors[σ (σ k)]?).map (·.script)) ∧
    ((∀ others : List Actor, others.map (·.toSnapshot) = actors.map (·.toSnapshot) →
      (pass distance (pass distance others).1).1 = others) ↔ σ * σ = 1) ∧
    ∀ group : Nat → Nat, (∀ i j a b, i < j → actors[i]? = some a → actors[j]? = some b →
      (inRange distance a b = true ↔ group i = group j)) → twice = actors := by
  intro once twice σ
  exact ⟨swaps_pass distance (snapshots_pass distance actors), snapshots_pass_pass distance actors,
    fun k => script_pass_pass distance rfl k, restored_iff_involutive distance actors,
    fun group h => restored_of_clustered h⟩

/-- Three actors in a row, of which only neighbours are in range. -/
def chain : List Actor :=
  [⟨⟨⟨1⟩, "Sprite 1", ⟨0, 0, 0⟩, true, none⟩, [.appear true]⟩,
    ⟨⟨⟨2⟩, "Sprite 2", ⟨40, 0, 0⟩, true, none⟩, [.appear false]⟩,
    ⟨⟨⟨3⟩, "Sprite 3", ⟨80, 0, 0⟩, true, none⟩, [.unknown]⟩]

theorem pairs_chain : pairs 50 chain = [(0, 1), (1, 2)] := by decide +kernel

/-- The scripts of a chain go round in a circle, so that the first actor has the last script after
    two passes. -/
theorem not_restored_chain :
    ¬ ∀ (distance : Float) (actors : List Actor),
      (pass distance (pass distance actors).1).1.map (·.script) = actors.map (·.script) := by
  intro h
  have hfirst := script_pass_pass 50 (show chain.map (·.toSnapshot) = _ from rfl) 0
  rw [pairs_chain] at hfirst
  have hcircle : (deal [(0, 1), (1, 2)] * deal [(0, 1), (1, 2)]) 0 = 2 := by decide
  rw [hcircle, ← List.getElem?_map, h 50 chain] at hfirst
  simp [chain] at hfirst

/-- Two pairs, one of them inside the other. -/
def nested : List Actor :=
  [⟨⟨⟨1⟩, "Sprite 1", ⟨0, 0, 0⟩, true, none⟩, [.appear true]⟩,
    ⟨⟨⟨2⟩, "Sprite 2", ⟨200, 0, 0⟩, true, none⟩, [.appear false]⟩,
    ⟨⟨⟨3⟩, "Sprite 3", ⟨210, 0, 0⟩, true, none⟩, []⟩,
    ⟨⟨⟨4⟩, "Sprite 4", ⟨0, 10, 0⟩, true, none⟩, [.unknown]⟩]

theorem pairs_nested : pairs 50 nested = [(0, 3), (1, 2)] := by decide +kernel

theorem restored_iff_nested :
    (pass 50 nested).1.map (·.script) = [[.unknown], [], [.appear false], [.appear true]] ∧
      (pass 50 (pass 50 nested).1).1 = nested := by
  obtain ⟨-, -, -, -, hgroups⟩ := restored_iff 50 nested
  have hdealt := dealt_pass 50 [] nested
  have hgroup : ∀ j < 4, ∀ i < j,
      ((i, j) ∈ [(0, 3), (1, 2)] ↔ i * (3 - i) = j * (3 - j)) := by decide
  refine ⟨?_, hgroups (fun i => i * (3 - i)) fun i j a b hij ha hb => ?_⟩
  · have hpairs : pairsFrom 50 0 nested = [(0, 3), (1, 2)] := pairs_nested
    rw [List.length_nil, hpairs] at hdealt
    exact hdealt.symm
  · rw [inRange_iff hij ha hb, pairs_nested]
    exact hgroup j (List.getElem?_eq_some_iff.mp hb).1 i hij

end StagePlay.Collision
