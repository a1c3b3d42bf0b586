import StagePlay.Proofs.Run.Removal

/-!
# StagePlay.Proofs.Playback.Poll

What one poll of a play can do to the playback.

* `poll_suspended_cases`, `accept_cases`: a poll leaves the play under way, or ends it and clears
  the flag.
* `poll_busy`: a play that asks for the flag while another one has it changes nothing.
* `active_poll`: a flag that names the actor of the play under way still does after a poll.
-/

namespace StagePlay

/-- The actor of a play that is under way. -/
def Play.runner? : Play → Option ActorId
  | .suspended s => some s.run.actor
  | .requested _ | .selected | .ended _ => none

/-- The actor of a play that is under way, or has been asked for by its actor. -/
def Play.actor? : Play → Option ActorId
  | .requested actor => some actor
  | .suspended s => some s.run.actor
  | .selected | .ended _ => none

/-- The actor that a first poll of this play asks for. -/
def Play.asked? (selected : Option ActorId) : Play → Option ActorId
  | .requested actor => some actor
  | .selected => selected
  | .suspended _ | .ended _ => none

theorem Run.actor_of_suspended {settings : Settings} {room : Nat} {stage : Stage} {run : Run}
    {s : Suspension} (h : (run.advance settings room stage).result.point = .suspended s) :
    s.run.actor = run.actor := by
  obtain ⟨as, ht, -⟩ := run.advance_follows settings room stage
  have hl := ht.leaves
  rw [h] at hl
  exact hl.actor_eq

theorem Suspension.actor_of_suspended {settings : Settings} {stage : Stage} {s s' : Suspension}
    (h : (s.resume settings stage).result.point = .suspended s') : s'.run.actor = s.run.actor := by
  obtain ⟨as, ht, -⟩ := s.resume_follows settings stage
  have hl := ht.leaves
  rw [h] at hl
  rw [hl.actor_eq, Run.actor_prospectAt]

/-- Where a play is whose run has come to this halt. -/
def Halt.play : Halt → Play
  | .suspended s => .suspended s
  | .finished m => .ended (.completed m)
  | .removed => .ended .cancelled

namespace Playback

theorem conclude_play (pb : Playback) (actor : ActorId) (o : Outcome (Reached Halt)) :
    (pb.conclude actor o).result.point = o.result.point.play ∧
      (pb.conclude actor o).playback.stage = o.stage ∧
      Event.seen (pb.conclude actor o).events = Event.seen o.events := by
  unfold conclude
  split
  · rename_i h
    exact ⟨by rw [h]; rfl, rfl, rfl⟩
  · rename_i h
    exact ⟨by rw [h]; rfl, rfl, by rw [Event.seen_append]; exact List.append_nil _⟩
  · rename_i h
    exact ⟨by rw [h]; rfl, rfl, by rw [Event.seen_append]; exact List.append_nil _⟩

theorem settings_conclude (pb : Playback) (actor : ActorId) (o : Outcome (Reached Halt)) :
    (pb.conclude actor o).playback.settings = pb.settings := by
  unfold conclude
  split <;> rfl

theorem settings_accept (pb : Playback) (room : Nat) (actor : ActorId) :
    (pb.accept room actor).playback.settings = pb.settings := by
  unfold accept
  split
  · rfl
  · split
    · rfl
    · exact settings_conclude ..

theorem settings_poll (pb : Playback) (room : Nat) (play : Play) :
    (pb.poll room play).playback.settings = pb.settings := by
  unfold poll
  split
  · exact settings_accept ..
  · split
    · exact settings_accept ..
    · rfl
  · exact settings_conclude ..
  · rfl

variable {pb : Playback} {room : Nat} {p : Play}

/-- A halt that suspends a run leaves the flag alone, and any other clears it. -/
theorem conclude_cases (pb : Playback) (actor : ActorId) (o : Outcome (Reached Halt)) :
    (∃ s, o.result.point = .suspended s ∧ (pb.conclude actor o).result.point = .suspended s ∧
      (pb.conclude actor o).playback.active = pb.active) ∨
    ((pb.conclude actor o).playback.active = none ∧
      ((∃ m, (pb.conclude actor o).result.point = .ended (.completed m)) ∨
        (pb.conclude actor o).result.point = .ended .cancelled)) := by
  unfold conclude
  split
  · rename_i s hs
    exact .inl ⟨s, hs, rfl, rfl⟩
  · exact .inr ⟨rfl, .inl ⟨_, rfl⟩⟩
  · exact .inr ⟨rfl, .inr rfl⟩

theorem poll_suspended_cases (pb : Playback) (room : Nat) (s : Suspension) :
    (∃ s', (pb.poll room (.suspended s)).result.point = .suspended s' ∧
      s'.run.actor = s.run.actor ∧
      (pb.poll room (.suspended s)).playback.active = pb.active) ∨
    ((pb.poll room (.suspended s)).playback.active = none ∧
      ((∃ m, (pb.poll room (.suspended s)).result.point = .ended (.completed m)) ∨
        (pb.poll room (.suspended s)).result.point = .ended .cancelled)) := by
  rcases pb.conclude_cases s.run.actor (s.resume pb.settings pb.stage) with
    ⟨s', ho, hp, ha⟩ | h
  · exact .inl ⟨s', hp, Suspension.actor_of_suspended ho, ha⟩
  · exact .inr h

/-- A first poll while no play is under way takes the flag if it suspends the play, and leaves it
    clear if it ends it. -/
theorem accept_cases (h : pb.active = none) (room : Nat) (actor : ActorId) :
    (∃ s, (pb.accept room actor).result.point = .suspended s ∧ s.run.actor = actor ∧
      (pb.accept room actor).playback.active = some actor) ∨
    ((pb.accept room actor).playback.active = none ∧
      ((∃ m, (pb.accept room actor).result.point = .ended (.completed m)) ∨
        (pb.accept room actor).result.point = .ended .cancelled ∨
        (pb.accept room actor).result.point = .ended (.refused (.actorNotFound actor)))) := by
  unfold accept
  simp only [h]
  cases hf : pb.stage.find? actor with
  | none => exact .inr ⟨h, .inr (.inr rfl)⟩
  | some a =>
    rcases ({ pb with active := some actor } : Playback).conclude_cases actor
        ((Run.start actor a.motion a.script).advance pb.settings room pb.stage) with
      ⟨s, ho, hp, ha⟩ | ⟨ha, hp | hp⟩
    · exact .inl ⟨s, hp, Run.actor_of_suspended ho, ha⟩
    · exact .inr ⟨ha, .inl hp⟩
    · exact .inr ⟨ha, .inr (.inl hp)⟩

/-- A first poll that is not turned down is the first turn of a run. -/
theorem accept_inv (pb : Playback) (room : Nat) (actor : ActorId) :
    (∃ e, pb.accept room actor = ⟨pb, [], .ended (.refused e), room⟩) ∨
    ∃ a, pb.stage.find? actor = some a ∧
      let o := (Run.start actor a.motion a.script).advance pb.settings room pb.stage
      (pb.accept room actor).result.point = o.result.point.play ∧
        (pb.accept room actor).playback.stage = o.stage ∧
        Event.seen (pb.accept room actor).events = Event.seen o.events := by
  cases hactive : pb.active with
  | some active => exact .inl ⟨.busy active, by simp [accept, hactive]⟩
  | none =>
    cases hfind : pb.stage.find? actor with
    | none => exact .inl ⟨.actorNotFound actor, by simp [accept, hactive, hfind]⟩
    | some a =>
      refine .inr ⟨a, rfl, ?_⟩
      simp only [accept, hactive, hfind]
      exact ({ pb with active := some actor } : Playback).conclude_play actor
        ((Run.start actor a.motion a.script).advance pb.settings room pb.stage)

theorem poll_of_asked {actor : ActorId} (h : p.asked? pb.selected = some actor) :
    pb.poll room p = pb.accept room actor := by
  cases p with
  | requested a =>
    cases h
    rfl
  | selected =>
    simp only [Play.asked?] at h
    simp only [poll, h]
  | suspended s => cases h
  | ended r => cases h

theorem poll_busy {actor active : ActorId} (h : p.asked? pb.selected = some actor)
    (ha : pb.active = some active) :
    pb.poll room p = ⟨pb, [], .ended (.refused (.busy active)), room⟩ := by
  rw [poll_of_asked h, accept, ha]

/-- A poll that ends a play clears the flag, unless the play is turned down because another one is
    under way or because no actor is selected. -/
theorem poll_ended {r : PlayResult} (hp : p.result? = none)
    (hr : (pb.poll room p).result.point = .ended r) :
    ((pb.poll room p).playback.active = none ∧
      ∀ e, r = .refused e → ∃ id, e = .actorNotFound id) ∨
    (∃ active, pb.active = some active ∧ r = .refused (.busy active)) ∨
    r = .refused .noActorSelected := by
  cases hasked : p.asked? pb.selected with
  | some actor =>
    cases hactive : pb.active with
    | some active =>
      rw [poll_busy hasked hactive] at hr
      cases hr
      exact .inr (.inl ⟨active, rfl, rfl⟩)
    | none =>
      rw [poll_of_asked hasked] at hr ⊢
      refine .inl ?_
      rcases accept_cases hactive room actor with
        ⟨s, hpoint, -, -⟩ | ⟨hclear, ⟨m, hpoint⟩ | hpoint | hpoint⟩ <;>
        rw [hpoint] at hr <;> cases hr
      · exact ⟨hclear, fun e he => nomatch he⟩
      · exact ⟨hclear, fun e he => nomatch he⟩
      · refine ⟨hclear, ?_⟩
        intro e he
        cases he
        exact ⟨actor, rfl⟩
  | none =>
    cases p with
    | requested actor => cases hasked
    | selected =>
      have hsel : pb.selected = none := hasked
      simp only [poll, hsel] at hr
      cases hr
      exact .inr (.inr rfl)
    | suspended s =>
      refine .inl ?_
      rcases pb.poll_suspended_cases room s with
        ⟨s', hpoint, -, -⟩ | ⟨hclear, ⟨m, hpoint⟩ | hpoint⟩ <;>
        rw [hpoint] at hr <;> cases hr
      · exact ⟨hclear, fun e he => nomatch he⟩
      · exact ⟨hclear, fun e he => nomatch he⟩
    | ended r => cases hp

theorem poll_unasked (h : p.asked? pb.selected = none) (hp : p.runner? = none) :
    (pb.poll room p).playback = pb ∧ (pb.poll room p).result.point.runner? = none := by
  cases p with
  | requested actor => cases h
  | selected =>
    have hsel : pb.selected = none := h
    simp [poll, hsel, Play.runner?]
  | suspended s => cases hp
  | ended r => exact ⟨rfl, rfl⟩

/-- A flag that names the actor of the play under way still does after a poll of the play. -/
theorem active_poll (h : pb.active = p.runner?) :
    (pb.poll room p).playback.active = (pb.poll room p).result.point.runner? := by
  cases hp : p.runner? with
  | none =>
    rw [hp] at h
    cases hasked : p.asked? pb.selected with
    | none =>
      obtain ⟨hsame, hnone⟩ := @poll_unasked pb room p hasked hp
      rw [hsame, hnone, h]
    | some actor =>
      rw [poll_of_asked hasked]
      rcases accept_cases h room actor with
        ⟨s, hpoint, hrun, hactive⟩ | ⟨hclear, ⟨m, hpoint⟩ | hpoint | hpoint⟩
      · rw [hactive, hpoint, ← hrun]
        rfl
      all_goals
        rw [hclear, hpoint]
        rfl
  | some actor =>
    cases p with
    | suspended s =>
      rcases pb.poll_suspended_cases room s with
        ⟨s', hpoint, hrun, hactive⟩ | ⟨hclear, ⟨m, hpoint⟩ | hpoint⟩
      · rw [hactive, hpoint, h]
        simp [Play.runner?, hrun]
      all_goals
        rw [hclear, hpoint]
        rfl
    | requested a => cases hp
    | selected => cases hp
    | ended r => cases hp

end Playback

end StagePlay
