import StagePlay.Proofs.Run.Unrolled
import StagePlay.Proofs.Stage.Looks

/-!
# StagePlay.Proofs.Run.Looks

What can be seen of a run, told from what can be seen of the stage.

* `Performed.snapshot?`: its actor looks as its writes let it look.
* `Leaf.motion_course`: so after a script the actor has the motion that the run has carried.
* `Performed.congr`: on stages that look the same a run does the same.
-/

namespace StagePlay

/-- How an actor looks after an action of its run. -/
def Action.apply (s : Snapshot) : Action → Snapshot
  | .write w => w.apply s
  | .pause _ | .collide => s

/-- The motion that the run has carried to the end of its script is the one it has written. -/
theorem Leaf.motion_course (settings : Settings) (ls : List Leaf) (s : Snapshot) :
    ((course settings s.motion ls).foldl Action.apply s).motion = carried s.motion ls := by
  induction ls generalizing s with
  | nil => rfl
  | cons l rest ih =>
    rw [course, List.foldl_append]
    have hmotion :
        ((l.cycle settings s.motion).foldl Action.apply s).motion = l.moved s.motion := by
      cases l <;> rfl
    have hrest := ih ((l.cycle settings s.motion).foldl Action.apply s)
    rw [hmotion] at hrest
    exact hrest

namespace Performed

variable {distance : Float} {actor : ActorId} {s s' t : Stage} {as : List Action}
  {es : List Event}

/-- The actor of a run looks as its writes let it look. -/
theorem snapshot? (h : Performed distance actor s as es s') {looks : Snapshot}
    (hlooks : s.snapshot? actor = some looks) :
    s'.snapshot? actor = some (as.foldl Action.apply looks) := by
  induction h generalizing looks with
  | nil => exact hlooks
  | @write s next _ w snap rest _ hw _ ih =>
    have hsnap : snap = w.apply looks := by
      have hmap := s.written?_looks actor w
      rw [hw, hlooks] at hmap
      exact congrArg Prod.snd (Option.some.inj hmap)
    have hnext := (Stage.snapshot?_written? hw).1
    rw [hsnap] at hnext
    exact ih hnext
  | pause _ ih => exact ih hlooks
  | @collide s _ _ _ _ ih =>
    apply ih
    rw [Stage.snapshot?_eq, s.snapshots_collide, ← Stage.snapshot?_eq]
    exact hlooks

/-- On stages that look the same a run does the same, and they look the same afterwards. -/
theorem congr (h : Performed distance actor s as es s') (hst : t.snapshots = s.snapshots) :
    ∃ t', Performed distance actor t as es t' ∧ t'.snapshots = s'.snapshots := by
  induction h generalizing t with
  | nil => exact ⟨t, .nil, hst⟩
  | @write s next _ w snap rest _ hw _ ih =>
    have hids : t.ids = s.ids := by rw [Stage.ids_eq, hst, ← Stage.ids_eq]
    have hsame := t.written?_looks actor w
    rw [Stage.snapshot?_eq, Stage.index_congr hids, hst, ← Stage.snapshot?_eq,
      ← s.written?_looks actor w, hw, Option.map_some, Option.map_eq_some_iff] at hsame
    obtain ⟨⟨t₁, snap'⟩, hw', heq⟩ := hsame
    obtain ⟨hsnapshots, rfl⟩ := Prod.mk.inj heq
    obtain ⟨t', hrest, hend⟩ := ih hsnapshots
    exact ⟨t', .write hw' hrest, hend⟩
  | pause _ ih =>
    obtain ⟨t', hrest, hend⟩ := ih hst
    exact ⟨t', .pause hrest, hend⟩
  | @collide s _ _ _ _ ih =>
    have hsnapshots : (t.collide distance).1.snapshots = (s.collide distance).1.snapshots := by
      rw [Stage.snapshots_collide, Stage.snapshots_collide, hst]
    obtain ⟨t', hrest, hend⟩ := ih hsnapshots
    rw [← Stage.swaps_collide hst]
    exact ⟨t', .collide hrest, hend⟩

end Performed

end StagePlay
