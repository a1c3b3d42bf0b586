import StagePlay.Proofs.Playback.Poll
import StagePlay.Proofs.Script.Clean

/-!
# StagePlay.Proofs.Stage.Scripts

The blocks in the scripts on a stage, whatever is done to it.

* `Stage.Holds.after`: a deed brings no other blocks than those it is carried out with, and edits
  of their fields. What such edits keep, every deed keeps.
* `Stage.Holds.collide`: collisions only move scripts from one actor to another.
* `Stage.clean_after`: the scripts on a stage stay clean.
* `Playback.poll_frame`, `Performed.clean`: nor does a poll of a play, whose run only acts on the
  stage.
-/

namespace StagePlay

/-- The blocks that a deed puts into scripts. -/
def Deed.blocks : Deed → List Command
  | .assign _ script => script
  | .append _ c => [c]
  | .spawn _ | .remove _ | .place _ _ | .write _ _ => []
  | .removeBlock _ _ | .setBlockField _ _ _ _ | .collide _ => []

/-- A deed that puts only clean blocks into scripts. -/
def Deed.Clean : Deed → Prop
  | .assign _ script => Script.Clean script
  | .append _ c => c.Clean
  | .spawn _ | .remove _ | .place _ _ | .write _ _ => True
  | .removeBlock _ _ | .setBlockField _ _ _ _ | .collide _ => True

theorem Deed.Clean.blocks {d : Deed} (h : d.Clean) : ∀ c ∈ d.blocks, c.Clean := by
  cases d with
  | assign id script => exact h
  | append id c => exact List.forall_mem_singleton.mpr h
  | spawn | remove | place | write | removeBlock | setBlockField | collide =>
    exact fun c hc => nomatch hc

namespace Collision

variable {P : Script → Prop} {distance : Float}

theorem forall_meet {a : Actor} {actors : List Actor} (ha : P a.script)
    (h : ∀ b ∈ actors, P b.script) :
    P (meet distance a actors).1.script ∧
      ∀ b ∈ (meet distance a actors).2.1, P b.script := by
  induction actors generalizing a with
  | nil => exact ⟨ha, fun _ hb => nomatch hb⟩
  | cons b rest ih =>
    obtain ⟨hb, hrest⟩ := List.forall_mem_cons.mp h
    rw [meet]
    split
    · obtain ⟨hfirst, hlater⟩ := @ih { a with script := b.script } hb hrest
      exact ⟨hfirst, List.forall_mem_cons.mpr ⟨ha, hlater⟩⟩
    · obtain ⟨hfirst, hlater⟩ := ih ha hrest
      exact ⟨hfirst, List.forall_mem_cons.mpr ⟨hb, hlater⟩⟩

theorem forall_pass {actors : List Actor} (h : ∀ a ∈ actors, P a.script) :
    ∀ a ∈ (pass distance actors).1, P a.script := by
  induction hn : actors.length generalizing actors with
  | zero =>
    rw [List.length_eq_zero_iff.mp hn, pass]
    intro a ha
    cases ha
  | succ n ih =>
    cases actors with
    | nil => cases hn
    | cons a rest =>
      obtain ⟨ha, hrest⟩ := List.forall_mem_cons.mp h
      obtain ⟨hfirst, hlater⟩ := @forall_meet P distance _ _ ha hrest
      have hlength : (meet distance a rest).2.1.length = n := by
        rw [length_meet]
        exact Nat.succ.inj hn
      rw [pass]
      exact List.forall_mem_cons.mpr ⟨hfirst, ih hlater hlength⟩

end Collision

namespace Stage

/-- What holds of every block of every script. -/
def Holds (P : Command → Prop) (s : Stage) : Prop := ∀ a ∈ s.actors, ∀ c ∈ a.script, P c

def Clean (s : Stage) : Prop := ∀ a ∈ s.actors, Script.Clean a.script

variable {s s' : Stage} {id : ActorId} {a : Actor} {P : Command → Prop}

namespace Holds

theorem collide (h : s.Holds P) (distance : Float) : (s.collide distance).1.Holds P :=
  @Collision.forall_pass (fun script => ∀ c ∈ script, P c) distance _ h

theorem script (h : s.Holds P) (ha : s.find? id = some a) : ∀ c ∈ a.script, P c :=
  h a (List.mem_of_find?_eq_some ha)

theorem update (h : s.Holds P) (ha : ∀ c ∈ a.script, P c) : (s.update id a).Holds P := by
  intro b hb
  rcases List.mem_or_eq_of_mem_set hb with hb | rfl
  · exact h b hb
  · exact ha

theorem write? {f : Actor → Actor} {snap : Snapshot} (hs : s.Holds P)
    (hf : ∀ a, (f a).script = a.script) (h : s.write? id f = some (s', snap)) : s'.Holds P := by
  simp only [Stage.write?, Option.map_eq_some_iff, Prod.mk.injEq] at h
  obtain ⟨a, ha, rfl, -⟩ := h
  refine hs.update ?_
  rw [hf]
  exact hs.script ha

theorem written? {w : Write} {snap : Snapshot} (hs : s.Holds P)
    (h : s.written? id w = some (s', snap)) : s'.Holds P := by
  cases w with
  | motion m => exact hs.write? (f := fun a => { a with motion := m }) (fun _ => rfl) h
  | visible v => exact hs.write? (f := fun a => { a with visible := v }) (fun _ => rfl) h
  | speech sp => exact hs.write? (f := fun a => { a with speech := sp }) (fun _ => rfl) h

theorem edited {α : Type} {f : Script → Except StageError (Script × α)} (hs : s.Holds P)
    (hf : ∀ script r, (∀ c ∈ script, P c) → f script = .ok r → ∀ c ∈ r.1, P c) :
    (((s.editScript id f).map (·.1)).toOption.getD s).Holds P := by
  unfold editScript
  split
  · exact hs
  · rename_i a ha
    split
    · exact hs
    · rename_i script answer hedit
      exact hs.update (hf a.script (script, answer) (hs.script ha) hedit)

theorem orSame {o : Option (Stage × Snapshot)} (hs : s.Holds P)
    (h : ∀ s' snap, o = some (s', snap) → s'.Holds P) : ((o.map (·.1)).getD s).Holds P := by
  cases o with
  | none => exact hs
  | some r => exact h r.1 r.2 rfl

/-- A deed brings no other blocks into scripts than those it is carried out with. -/
theorem after {d : Deed}
    (hkept : ∀ {c c' : Command} {field raw : String}, P c → c.setField field raw = .ok c' → P c')
    (hs : s.Holds P) (hd : ∀ c ∈ d.blocks, P c) : (s.after d).Holds P := by
  cases d with
  | spawn name =>
    intro a ha
    rcases List.mem_append.mp ha with ha | ha
    · exact hs a ha
    · rw [List.mem_singleton.mp ha]
      exact fun _ hc => nomatch hc
  | remove id =>
    simp only [Stage.after, remove?]
    split
    · exact fun a ha => hs a (List.mem_filter.mp ha).1
    · exact hs
  | place id p =>
    apply hs.orSame
    intro s' snap h
    exact hs.write? (f := fun a => { a with motion := a.motion.moveTo p }) (fun _ => rfl) h
  | write id w => exact hs.orSame fun _ _ h => hs.written? h
  | assign id script =>
    apply hs.edited
    intro _ r _ hr
    cases hr
    exact hd
  | append id c =>
    apply hs.edited
    intro script r hscript hr
    cases hr
    exact List.forall_mem_append.mpr ⟨hscript, hd⟩
  | removeBlock id index =>
    apply hs.edited
    intro script r hscript hr
    split at hr
    · cases hr
    · cases hr
      exact fun c hc => hscript c (List.mem_of_mem_eraseIdx hc)
  | setBlockField id index field raw =>
    apply hs.edited
    intro script r hscript hr
    split at hr
    · cases hr
    · rename_i c hc
      split at hr
      · cases hr
      · rename_i c' hc'
        cases hr
        intro b hb
        rcases List.mem_or_eq_of_mem_set hb with hb | rfl
        · exact hscript b hb
        · exact hkept (hscript c (List.mem_of_getElem? hc)) hc'
  | collide distance => exact hs.collide distance

theorem afterAll {deeds : List Deed}
    (hkept : ∀ {c c' : Command} {field raw : String}, P c → c.setField field raw = .ok c' → P c')
    (hs : s.Holds P) (hd : ∀ d ∈ deeds, ∀ c ∈ d.blocks, P c) : (s.afterAll deeds).Holds P := by
  induction deeds generalizing s with
  | nil => exact hs
  | cons d rest ih =>
    obtain ⟨hfirst, hlater⟩ := List.forall_mem_cons.mp hd
    rw [afterAll_cons]
    exact ih (hs.after hkept hfirst) hlater

end Holds

theorem clean_of_find? (h : s.Clean) (ha : s.find? id = some a) : Script.Clean a.script :=
  h a (List.mem_of_find?_eq_some ha)

theorem clean_after {d : Deed} (hs : s.Clean) (hd : d.Clean) : (s.after d).Clean :=
  Holds.after Command.clean_setField hs hd.blocks

end Stage

/-- What a run does to a stage moves blocks, but neither brings nor edits any. -/
theorem Performed.holds {P : Command → Prop} {distance : Float} {actor : ActorId}
    {stage stage' : Stage} {as : List Action} {es : List Event}
    (h : Performed distance actor stage as es stage') (hs : stage.Holds P) : stage'.Holds P := by
  induction h with
  | nil => exact hs
  | write hw _ ih => exact ih (hs.written? hw)
  | pause _ ih => exact ih hs
  | collide _ ih => exact ih (hs.collide distance)

theorem Performed.clean {distance : Float} {actor : ActorId} {stage stage' : Stage}
    {as : List Action} {es : List Event} (h : Performed distance actor stage as es stage')
    (hs : stage.Clean) : stage'.Clean := Performed.holds (P := Command.Clean) h hs

namespace Playback

variable {pb : Playback} {room : Nat} {p : Play}

theorem conclude_frame (pb : Playback) (actor : ActorId) (o : Outcome (Reached Halt)) :
    (pb.conclude actor o).playback.stage = o.stage ∧
      (pb.conclude actor o).playback.selected = pb.selected ∧
      Event.seen (pb.conclude actor o).events = Event.seen o.events := by
  have hlast : ∀ e, e.isSeen = false → Event.seen (o.events ++ [e]) = Event.seen o.events := by
    intro e he
    simp [Event.seen, he]
  unfold conclude
  split
  · exact ⟨rfl, rfl, rfl⟩
  · exact ⟨rfl, rfl, hlast _ rfl⟩
  · exact ⟨rfl, rfl, hlast _ rfl⟩

/-- What a poll does to a playback: it lets a run act on the stage, and the selection stays. -/
theorem poll_frame (pb : Playback) (room : Nat) (p : Play) :
    (∃ actor as, Performed pb.settings.collisionDistance actor pb.stage as
        (Event.seen (pb.poll room p).events) (pb.poll room p).playback.stage) ∧
      (pb.poll room p).playback.selected = pb.selected := by
  have haccept : ∀ actor, (∃ actor' as, Performed pb.settings.collisionDistance actor' pb.stage
      as (Event.seen (pb.accept room actor).events) (pb.accept room actor).playback.stage) ∧
      (pb.accept room actor).playback.selected = pb.selected := by
    intro actor
    unfold accept
    split
    · exact ⟨⟨actor, [], .nil⟩, rfl⟩
    · split
      · exact ⟨⟨actor, [], .nil⟩, rfl⟩
      · rename_i a _
        let o := (Run.start actor a.motion a.script).advance pb.settings room pb.stage
        obtain ⟨as, ht, -⟩ :=
          (Run.start actor a.motion a.script).advance_follows pb.settings room pb.stage
        obtain ⟨hstage, hselected, hseen⟩ :=
          ({ pb with active := some actor } : Playback).conclude_frame actor o
        have hstarted : ∀ es, Event.seen (.runStarted actor a.script.length :: es)
            = Event.seen es := fun _ => rfl
        dsimp only
        rw [hstage, hstarted, hseen]
        exact ⟨⟨_, as, ht.performed⟩, hselected⟩
  cases p with
  | requested actor => exact haccept actor
  | selected =>
    simp only [poll]
    split
    · exact haccept _
    · exact ⟨⟨⟨0⟩, [], .nil⟩, rfl⟩
  | suspended s =>
    obtain ⟨as, ht, -⟩ := s.resume_follows pb.settings pb.stage
    obtain ⟨hstage, hselected, hseen⟩ :=
      pb.conclude_frame s.run.actor (s.resume pb.settings pb.stage)
    simp only [poll]
    rw [hstage, hseen]
    exact ⟨⟨_, as, ht.performed⟩, hselected⟩
  | ended r => exact ⟨⟨⟨0⟩, [], .nil⟩, rfl⟩

theorem alike_poll (pb : Playback) (room : Nat) (p : Play) :
    (pb.poll room p).playback.stage.Alike pb.stage := by
  obtain ⟨⟨actor, as, hperformed⟩, -⟩ := pb.poll_frame room p
  exact hperformed.alike

end Playback

end StagePlay
