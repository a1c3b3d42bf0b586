import StagePlay.Proofs.Stage.Looks
import StagePlay.Proofs.Stage.Order

/-!
# StagePlay.Proofs.Stage.Identity

Ids denote actors.

The actors that are spawned on a stage get the numbers 1, 2, 3 and so on, whatever else is done to
it. So an id denotes one actor from the deed that spawns it to the deed that takes it off the stage,
and nobody before or after.

* `given_eq`: the ids that spawning is answered with, in order.
* `Ordered.remove_eq`: who is taken off the stage leaves the others in their order.
* `names_after`: no other deed brings, takes away or moves an actor.
* `actors_identified`: all of it, at every point of every history.
-/

namespace StagePlay

/-- The id of the actor that a deed has spawned. -/
def Outcome.spawned? (o : Outcome (Except StageError Answer)) : Option ActorId :=
  match o.result with
  | .ok (.spawned id) => some id
  | _ => none

namespace Stage

variable {s : Stage} {n : Nat} {d : Deed}

/-- The ids that deeds are answered with for the actors that they spawn. -/
def given (s : Stage) : List Deed → List ActorId
  | [] => []
  | d :: rest => (s.carryOut d).spawned?.toList ++ (s.after d).given rest

/-- No other deed is answered like one that spawns an actor. -/
theorem spawned?_carryOut (h : d.isSpawn = false) : (s.carryOut d).spawned? = none := by
  cases d with
  | spawn name => cases h
  | remove id =>
    rw [carryOut]
    cases s.remove? id <;> rfl
  | place id p =>
    rw [carryOut]
    cases s.place? id p <;> rfl
  | write id w =>
    rw [carryOut]
    cases s.written? id w <;> rfl
  | assign id script =>
    rw [carryOut]
    cases s.assign id script <;> rfl
  | append id c =>
    rw [carryOut]
    cases s.append id c <;> rfl
  | removeBlock id index =>
    rw [carryOut]
    cases s.removeBlock id index <;> rfl
  | setBlockField id index field raw =>
    rw [carryOut]
    cases s.setBlockField id index field raw <;> rfl
  | collide distance => rfl

/-- While numbers are left, actors get them one after the other. -/
theorem given_eq (deeds : List Deed) (h : s.lastNumber + Deed.spawns deeds < Numeral.capacity 64) :
    s.given deeds = (List.range' (s.lastNumber + 1) (Deed.spawns deeds)).map ActorId.mk ∧
      (s.afterAll deeds).lastNumber = s.lastNumber + Deed.spawns deeds := by
  induction deeds generalizing s with
  | nil => exact ⟨rfl, rfl⟩
  | cons d rest ih =>
    rw [afterAll_cons, given, Deed.spawns_cons]
    rw [Deed.spawns_cons] at h
    cases hd : d.isSpawn with
    | true =>
      cases d <;> simp only [Deed.isSpawn, Bool.false_eq_true] at hd
      rename_i name
      have hone : Deed.spawns [.spawn name] = 1 := rfl
      have hlimit : numberLimit = Numeral.capacity 64 - 1 := rfl
      have hid : (s.spawn name).2 = ⟨s.lastNumber + 1⟩ := by
        simp only [spawn, ActorId.mk.injEq]
        omega
      have hlast : (s.after (.spawn name)).lastNumber = s.lastNumber + 1 :=
        congrArg ActorId.number hid
      obtain ⟨hgiven, hend⟩ := @ih (s.after (.spawn name)) (by omega)
      have hanswer : (s.carryOut (.spawn name)).spawned? = some (s.spawn name).2 := rfl
      rw [hgiven, hend, hlast, hanswer, hid, hone, Nat.add_comm 1, List.range'_succ]
      exact ⟨rfl, by omega⟩
    | false =>
      have hnone := Deed.spawns_eq_zero hd
      have hlast : (s.after d).lastNumber = s.lastNumber := lastNumber_after hd
      obtain ⟨hgiven, hend⟩ := @ih (s.after d) (by omega)
      rw [spawned?_carryOut hd, hgiven, hend, hlast, hnone, Nat.zero_add]
      exact ⟨rfl, rfl⟩

/-- Whoever stands on a stage is found under its id. -/
theorem Ordered.find?_of_mem (h : s.Ordered n) {a : Actor} (ha : a ∈ s.actors) :
    s.find? a.id = some a := by
  obtain ⟨before, later, hactors⟩ := List.append_of_mem ha
  refine List.find?_eq_some_iff_append.mpr ⟨decide_eq_true rfl, before, later, hactors, ?_⟩
  have hids := h.nodup
  rw [ids, hactors, List.map_append, List.map_cons, List.nodup_append] at hids
  intro b hb
  have hne : b.id ≠ a.id :=
    hids.2.2 _ (List.mem_map_of_mem hb) _ List.mem_cons_self
  simpa using hne

/-- Who is taken off the stage leaves the others in their order. -/
theorem Ordered.remove_eq (h : s.Ordered n) {before later : List Actor} {a : Actor}
    (hactors : s.actors = before ++ a :: later) :
    (s.after (.remove a.id)).actors = before ++ later := by
  have ha : a ∈ s.actors := hactors ▸ List.mem_append_right _ List.mem_cons_self
  have hthere : s.contains a.id = true := contains_iff_mem_ids.mpr (List.mem_map_of_mem ha)
  have hids := h.nodup
  rw [ids, hactors, List.map_append, List.map_cons, List.nodup_append, List.nodup_cons] at hids
  obtain ⟨-, ⟨hlater, -⟩, hbefore⟩ := hids
  have hkeep : ∀ l : List Actor, (∀ b ∈ l, b.id ≠ a.id) → l.filter (·.id ≠ a.id) = l :=
    fun l hl => List.filter_eq_self.mpr fun b hb => by simpa using hl b hb
  have hfirst := hkeep before fun b hb =>
    hbefore _ (List.mem_map_of_mem hb) _ List.mem_cons_self
  have hlast := hkeep later fun b hb e => hlater (e ▸ List.mem_map_of_mem hb)
  have hself : decide (a.id ≠ a.id) = false := decide_eq_false fun h => h rfl
  have hactors' : (s.after (.remove a.id)).actors = s.actors.filter (·.id ≠ a.id) := by
    rw [Stage.after, remove?, if_pos hthere]
    rfl
  rw [hactors', hactors, List.filter_append, List.filter_cons, hself, if_neg Bool.false_ne_true,
    hfirst, hlast]

/-- Only two deeds bring or take away a name, or move it. -/
theorem names_after (hs : d.isSpawn = false) (hr : ∀ id, d ≠ .remove id) :
    (s.after d).actors.map (·.name) = s.actors.map (·.name) := by
  cases hshow : d.shows? with
  | none => rw [names_eq, names_eq, snapshots_after hshow hs hr]
  | some shown =>
    cases d <;> cases hshow
    case some.place.refl p =>
      simp only [after]
      cases h : s.place? shown p with
      | none => rfl
      | some r =>
        exact (frame_write? (f := fun a => { a with motion := a.motion.moveTo p }) (fun _ => rfl)
          (fun _ => rfl) (fun _ => rfl) h).names
    case some.write.refl w =>
      simp only [after]
      cases h : s.written? shown w with
      | none => rfl
      | some r => exact (frame_written h).names

theorem result_remove (s : Stage) (id : ActorId) :
    (s.carryOut (.remove id)).result = .ok (.there (s.contains id)) := by
  simp only [carryOut, remove?]
  cases s.contains id <;> rfl

theorem find?_eq_none {id : ActorId} (h : s.contains id = false) : s.find? id = none := by
  simpa [contains] using h

/-- The next actor comes last, under an id above all that have been given before. -/
theorem spawn_eq (s : Stage) (name : Option String) (h : s.lastNumber + 1 < Numeral.capacity 64) :
    ∃ a : Actor, a.id = ⟨s.lastNumber + 1⟩ ∧
      (s.carryOut (.spawn name)).result = .ok (.spawned a.id) ∧
      (s.carryOut (.spawn name)).stage.actors = s.actors ++ [a] := by
  have hlimit : numberLimit = Numeral.capacity 64 - 1 := rfl
  refine ⟨_, ?_, rfl, rfl⟩
  simp only [Actor.fresh, ActorId.mk.injEq]
  omega

/-- Taking an actor off the stage: the answer is whether it is there, and nobody else goes. -/
theorem Ordered.carryOut_remove (h : s.Ordered n) (id : ActorId) :
    (s.carryOut (.remove id)).result = .ok (.there (decide (id ∈ s.ids))) ∧
      (id ∉ s.ids → (s.carryOut (.remove id)).stage = s) ∧
      ∀ before a later, s.actors = before ++ a :: later → a.id = id →
        (s.carryOut (.remove id)).stage.actors = before ++ later := by
  refine ⟨?_, ?_, ?_⟩
  · have hthere : s.contains id = decide (id ∈ s.ids) :=
      Bool.eq_iff_iff.mpr (contains_iff_mem_ids.trans decide_eq_true_iff.symm)
    rw [result_remove, hthere]
  · intro hid
    rw [← contains_iff_mem_ids] at hid
    simp only [carryOut, remove?, if_neg hid]
  · rintro before a later hactors rfl
    rw [stage_carryOut]
    exact h.remove_eq hactors

/-- **Ids denote actors.** Let deeds be done to an empty stage, with no more than `2 ^ 64 - 1`
actors spawned in all. Then the ids on the stage are distinct and increase along the line, each
actor is the one that is found under its id, and an id that has been taken off the stage denotes
nobody. The next deed spawns an actor that comes last, with an id above all that were given before;
or it takes exactly the actor with its id off the stage, and answers whether there is one; or it
leaves everybody in place, with id and name. -/
theorem actors_identified (p : Point) (deeds : List Deed) (d : Deed)
    (h : Deed.spawns (deeds ++ [d]) < Numeral.capacity 64) :
    let s := (empty p).afterAll deeds
    let o := s.carryOut d
    s.ids.Nodup ∧ s.ids.Pairwise (·.number < ·.number) ∧
      (∀ a ∈ s.actors, s.find? a.id = some a) ∧
      (∀ id, (empty p).Removed id deeds → s.find? id = none) ∧
      match d with
      | .spawn _ =>
        ∃ a, o.result = .ok (.spawned a.id) ∧ o.stage.actors = s.actors ++ [a] ∧
          ∀ id ∈ (empty p).given deeds, id.number < a.id.number
      | .remove id =>
        o.result = .ok (.there (decide (id ∈ s.ids))) ∧ (id ∉ s.ids → o.stage = s) ∧
          ∀ before a later, s.actors = before ++ a :: later → a.id = id →
            o.stage.actors = before ++ later
      | _ =>
        o.stage.ids = s.ids ∧ o.stage.actors.map (·.name) = s.actors.map (·.name) := by
  intro s o
  have hsum : Deed.spawns (deeds ++ [d]) = Deed.spawns deeds + Deed.spawns [d] :=
    Deed.spawns_append deeds [d]
  have hordered : s.Ordered (0 + Deed.spawns deeds) :=
    (ordered_empty p).afterAll deeds (by omega)
  obtain ⟨hgiven, hlast⟩ : (empty p).given deeds = (List.range' 1 (Deed.spawns deeds)).map .mk ∧
      s.lastNumber = 0 + Deed.spawns deeds := given_eq (s := empty p) deeds (by simp [empty]; omega)
  have hkept (hs : d.isSpawn = false) (hr : ∀ id, d ≠ .remove id) :
      o.stage.ids = s.ids ∧ o.stage.actors.map (·.name) = s.actors.map (·.name) := by
    rw [stage_carryOut]
    exact ⟨(alike_after hs hr).1, names_after hs hr⟩
  refine ⟨hordered.nodup, hordered.increasing, fun a ha => hordered.find?_of_mem ha, ?_, ?_⟩
  · intro id hid
    exact find?_eq_none (absent_of_removed hid (numbered_empty p) (by omega)).gone
  · cases d with
    | spawn name =>
      have hone : Deed.spawns [.spawn name] = 1 := rfl
      obtain ⟨a, hid, hresult, hactors⟩ := s.spawn_eq name (by omega)
      refine ⟨a, hresult, hactors, ?_⟩
      intro id hmem
      rw [hgiven] at hmem
      obtain ⟨number, hnumber, rfl⟩ := List.mem_map.mp hmem
      have hle := (List.mem_range'_1.mp hnumber).2
      rw [hid, hlast]
      show number < 0 + Deed.spawns deeds + 1
      omega
    | remove id => exact hordered.carryOut_remove id
    | place | write | assign | append | removeBlock | setBlockField | collide =>
      exact hkept rfl fun _ => Deed.noConfusion

/-- Two actors are spawned and the second one is taken off the stage: the third gets a new id. -/
theorem actors_identified_third :
    let deeds : List Deed := [.spawn none, .spawn none, .remove ⟨2⟩]
    let s := (empty ⟨50, 50⟩).afterAll deeds
    Deed.spawns (deeds ++ [.spawn none]) < Numeral.capacity 64 ∧ s.find? ⟨2⟩ = none ∧
      ∃ a : Actor, (s.carryOut (.spawn none)).result = .ok (.spawned a.id) ∧
        ∀ id ∈ [(⟨1⟩ : ActorId), ⟨2⟩], id.number < a.id.number := by
  intro deeds s
  have hfew : Deed.spawns (deeds ++ [.spawn none]) < Numeral.capacity 64 := by decide
  obtain ⟨-, -, -, hgone, a, hresult, -, habove⟩ :=
    actors_identified ⟨50, 50⟩ deeds (.spawn none) hfew
  have hremoved : (empty ⟨50, 50⟩).Removed ⟨2⟩ deeds := ⟨[.spawn none, .spawn none], [], rfl, rfl⟩
  have hgiven : (empty ⟨50, 50⟩).given deeds = [⟨1⟩, ⟨2⟩] := rfl
  rw [hgiven] at habove
  exact ⟨hfew, hgone ⟨2⟩ hremoved, a, hresult, habove⟩

end Stage

end StagePlay
