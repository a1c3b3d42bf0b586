import StagePlay.Proofs.Stage.Deed

/-!
# StagePlay.Proofs.Stage.Frame

What the changes of a run leave alone.

`Stage.Frame` is what a stage has in common before and after a run of one actor: who is on it and
in which order, how everybody else looks, and which scripts there are, though not whose they are.

* `map_update`: what a change of one actor leaves alone of it, it leaves alone on the whole stage.
* `snapshots_pass`, `scripts_pass`: collisions show nothing, and only deal the scripts anew.
* `frame_written`, `frame_collide`: a run writes to its own actor, and lets actors collide.
-/

namespace StagePlay

namespace Collision

theorem snapshots_meet (distance : Float) (a : Actor) (actors : List Actor) :
    (meet distance a actors).1.toSnapshot = a.toSnapshot ∧
      (meet distance a actors).2.1.map (·.toSnapshot) = actors.map (·.toSnapshot) := by
  induction actors generalizing a with
  | nil => exact ⟨rfl, rfl⟩
  | cons b rest ih =>
    rw [meet]
    split
    · obtain ⟨hfirst, hlater⟩ := ih { a with script := b.script }
      exact ⟨hfirst, congrArg (b.toSnapshot :: ·) hlater⟩
    · obtain ⟨hfirst, hlater⟩ := ih a
      exact ⟨hfirst, congrArg (b.toSnapshot :: ·) hlater⟩

theorem snapshots_pass (distance : Float) (actors : List Actor) :
    (pass distance actors).1.map (·.toSnapshot) = actors.map (·.toSnapshot) := by
  fun_induction pass distance actors with
  | case1 => rfl
  | case2 a rest met later ih =>
    obtain ⟨hfirst, hlater⟩ := snapshots_meet distance a rest
    rw [List.map_cons, List.map_cons, ih, hlater, hfirst]

/-- Whoever an actor meets, the scripts of all of them are dealt anew. -/
theorem scripts_meet (distance : Float) (a : Actor) (actors : List Actor) :
    ((meet distance a actors).1.script :: (meet distance a actors).2.1.map (·.script)).Perm
      (a.script :: actors.map (·.script)) := by
  induction actors generalizing a with
  | nil => exact .refl _
  | cons b rest ih =>
    rw [meet]
    split
    · have hdealt := ih { a with script := b.script }
      exact (List.Perm.swap ..).trans (hdealt.cons a.script)
    · have hdealt := ih a
      exact (List.Perm.swap ..).trans ((hdealt.cons b.script).trans (List.Perm.swap ..))

theorem scripts_pass (distance : Float) (actors : List Actor) :
    ((pass distance actors).1.map (·.script)).Perm (actors.map (·.script)) := by
  fun_induction pass distance actors with
  | case1 => exact .refl _
  | case2 a rest met later ih => exact (ih.cons _).trans (scripts_meet distance a rest)

end Collision

namespace Stage

variable {s t u : Stage} {id actor : ActorId} {a b : Actor}

theorem snapshot?_eq (s : Stage) (id : ActorId) :
    s.snapshot? id = s.snapshots.find? (·.id = id) := by
  rw [snapshots, List.find?_map]
  rfl

theorem index_congr (h : t.ids = s.ids) (id : ActorId) : t.index id = s.index id := by
  have hindex : ∀ u : Stage, u.index id = u.ids.findIdx (· = id) := by
    intro u
    rw [ids, List.findIdx_map]
    rfl
  rw [hindex, hindex, h]

/-- What a change of one actor leaves alone of it, it leaves alone on the whole stage. -/
theorem map_update {β : Type} {g : Actor → β} (h : s.find? id = some a) (hg : g b = g a) :
    (s.update id b).actors.map g = s.actors.map g := by
  obtain ⟨hlt, hget⟩ := List.getElem?_eq_some_iff.mp (getElem?_index h)
  have hlt' : s.index id < (s.actors.map g).length := by rwa [List.length_map]
  have hself : g a = (s.actors.map g)[s.index id] := by rw [List.getElem_map, hget]
  rw [update, List.map_set, hg, hself, List.set_getElem_self]

theorem find?_update_self (h : s.find? id = some a) (hb : b.id = id) :
    (s.update id b).find? id = some b := by
  simp only [find?, update, index] at h ⊢
  generalize s.actors = actors at h ⊢
  induction actors with
  | nil => cases h
  | cons c rest ih =>
    by_cases hc : c.id = id
    · simp [List.findIdx_cons, hc, hb]
    · simp only [List.find?_cons, hc, decide_false] at h
      simp [List.findIdx_cons, hc, ih h]

/-- Who is found is the first one with this id, and an update of the id is made in this place. -/
theorem exists_split (h : s.find? id = some a) :
    ∃ before later, s.actors = before ++ a :: later ∧ (∀ b ∈ before, b.id ≠ id) ∧
      s.index id = before.length := by
  obtain ⟨hid, before, later, hactors, hbefore⟩ := List.find?_eq_some_iff_append.mp h
  have hothers : ∀ b ∈ before, b.id ≠ id := fun b hb => by simpa using hbefore b hb
  refine ⟨before, later, hactors, hothers, ?_⟩
  rw [index, hactors, List.findIdx_append, List.findIdx_eq_length.mpr (by simpa using hothers)]
  simp [List.findIdx_cons, hid]

/-! ## Frames -/

/-- Only this actor looks different, it keeps its id and its name, and scripts only change hands. -/
structure Frame (actor : ActorId) (s t : Stage) : Prop where
  ids : t.ids = s.ids
  names : t.actors.map (·.name) = s.actors.map (·.name)
  others : ∀ i, i ≠ s.index actor → t.snapshots[i]? = s.snapshots[i]?
  scripts : (t.actors.map (·.script)).Perm (s.actors.map (·.script))

theorem Frame.refl (actor : ActorId) (s : Stage) : s.Frame actor s :=
  ⟨rfl, rfl, fun _ _ => rfl, .refl _⟩

theorem Frame.trans (h : Frame actor s t) (h' : Frame actor t u) : Frame actor s u where
  ids := h'.ids.trans h.ids
  names := h'.names.trans h.names
  others := by
    intro i hi
    rw [h'.others i (by rwa [index_congr h.ids]), h.others i hi]
  scripts := h'.scripts.trans h.scripts

theorem frame_write? {f : Actor → Actor} {snap : Snapshot} (hid : ∀ a, (f a).id = a.id)
    (hname : ∀ a, (f a).name = a.name) (hscript : ∀ a, (f a).script = a.script)
    (h : s.write? actor f = some (t, snap)) : Frame actor s t := by
  simp only [write?, Option.map_eq_some_iff, Prod.mk.injEq] at h
  obtain ⟨a, ha, rfl, -⟩ := h
  refine ⟨map_update ha (hid a), map_update ha (hname a), ?_, ?_⟩
  · intro i hi
    rw [snapshots, snapshots, update, List.map_set, List.getElem?_set_ne (Ne.symm hi)]
  · rw [map_update ha (hscript a)]

theorem frame_written {w : Write} {snap : Snapshot} (h : s.written? actor w = some (t, snap)) :
    Frame actor s t := by
  cases w with
  | motion m =>
    exact frame_write? (f := fun a => { a with motion := m }) (fun _ => rfl) (fun _ => rfl)
      (fun _ => rfl) h
  | visible v =>
    exact frame_write? (f := fun a => { a with visible := v }) (fun _ => rfl) (fun _ => rfl)
      (fun _ => rfl) h
  | speech sp =>
    exact frame_write? (f := fun a => { a with speech := sp }) (fun _ => rfl) (fun _ => rfl)
      (fun _ => rfl) h

theorem snapshots_collide (s : Stage) (distance : Float) :
    (s.collide distance).1.snapshots = s.snapshots := Collision.snapshots_pass distance s.actors

theorem names_eq (s : Stage) : s.actors.map (·.name) = s.snapshots.map (·.name) := by
  rw [snapshots, List.map_map]
  rfl

theorem frame_collide (actor : ActorId) (s : Stage) (distance : Float) :
    s.Frame actor (s.collide distance).1 := by
  have hsame := snapshots_collide s distance
  exact ⟨(alike_collide s distance).1, by rw [names_eq, names_eq, hsame], fun i _ => by rw [hsame],
    Collision.scripts_pass distance s.actors⟩

end Stage

end StagePlay
