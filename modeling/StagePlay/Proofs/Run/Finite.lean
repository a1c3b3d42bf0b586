import StagePlay.Proofs.Playback.Poll
import StagePlay.Proofs.Stage.Finite
import StagePlay.Proofs.Stage.Scripts

/-!
# StagePlay.Proofs.Run.Finite

Runs keep to finite places, as long as no sum is too large for a double.

Blocks have finite numbers, but they add up: an actor that turns or moves far enough leaves the
finite doubles. `Bears` is what is claimed of everything that happens here: either a block with
finite numbers led from a finite motion to an infinite one, or all that is seen is finite.

* `Run.bears_perform`, `Run.bears_settle`: one block, and what is owed after a pause.
* `Run.bears_advance`, `Suspension.bears_resume`: the turns of a run.
* `Playback.bears_poll`: a poll, if the blocks on the stage have finite numbers.
* `Playback.passes_of_sound`: the collision passes that a poll makes.
-/

namespace StagePlay

namespace Event

/-- A block that moves or turns by a finite number led from a finite motion to one that is not. -/
def Overflow : Event → Prop
  | .steered _ kind m => ∃ (before : Motion) (change : Steering),
      before.Finite ∧ (Command.steer change).Regular ∧ (∀ x y, change ≠ .goTo x y) ∧
        kind = (Command.steer change).kind ∧ m = before.steer change ∧ ¬ m.Finite
  | _ => False

/-- All that is seen of an event is finite. -/
def Sound : Event → Prop
  | .published snap => snap.Sound
  | .steered _ _ m | .runFinished _ m => m.Finite
  | _ => True

end Event

/-- A sum was too large in the course of these events, or they are sound and this holds. -/
def Bears (es : List Event) (P : Prop) : Prop :=
  (∃ e ∈ es, e.Overflow) ∨ (∀ e ∈ es, e.Sound) ∧ P

section Bears

variable {es later : List Event} {P Q : Prop}

theorem Bears.nil (h : P) : Bears [] P := .inr ⟨List.forall_mem_nil _, h⟩

theorem Bears.imp (h : Bears es P) (hPQ : P → Q) : Bears es Q :=
  h.imp_right fun ⟨hes, hP⟩ => ⟨hes, hPQ hP⟩

theorem Bears.append (h : Bears es P) (hlater : P → Bears later Q) : Bears (es ++ later) Q := by
  rcases h with ⟨e, he, hover⟩ | ⟨hes, hP⟩
  · exact .inl ⟨e, List.mem_append_left _ he, hover⟩
  · rcases hlater hP with ⟨e, he, hover⟩ | ⟨hevents, hQ⟩
    · exact .inl ⟨e, List.mem_append_right _ he, hover⟩
    · exact .inr ⟨List.forall_mem_append.mpr ⟨hes, hevents⟩, hQ⟩

theorem Bears.cons {e : Event} (he : e.Sound) (h : Bears es P) : Bears (e :: es) P :=
  Bears.append (.inr ⟨List.forall_mem_singleton.mpr he, trivial⟩) fun _ => h

theorem Bears.singleton {e : Event} (he : e.Sound) (h : P) : Bears [e] P := (Bears.nil h).cons he

end Bears

/-! ## Scripts with finite numbers -/

mutual

theorem Command.regular_unrolled {d : Nat} (c : Command) (h : ∀ b ∈ c.outlineAt d, b.2.Regular) :
    ∀ l ∈ c.unrolled, l.block.Regular := by
  have hc : c.Regular := h _ (mem_outlineAt d c)
  match c with
  | .steer _ | .appear _ | .wait _ | .speak _ _ =>
    intro l hl
    obtain rfl := List.mem_singleton.mp hl
    exact hc
  | .loop times body =>
    intro l hl
    obtain ⟨ls, hls, hl⟩ := List.mem_flatten.mp hl
    obtain rfl := List.eq_of_mem_replicate hls
    exact Script.regular_unrolled body (Script.forall_outlineAt_body h) l hl
  | .unknown => exact List.forall_mem_nil _

theorem Script.regular_unrolled {d : Nat} (s : Script)
    (h : ∀ b ∈ Script.outlineAt d s, b.2.Regular) : ∀ l ∈ Script.unrolled s, l.block.Regular := by
  match s with
  | [] => exact List.forall_mem_nil _
  | c :: rest =>
    obtain ⟨hc, hrest⟩ := Script.forall_outlineAt_cons.mp h
    exact List.forall_mem_append.mpr ⟨c.regular_unrolled hc, Script.regular_unrolled rest hrest⟩

end

/-! ## Runs -/

/-- A finite motion, and blocks with finite numbers before it. -/
structure Run.Sound (run : Run) : Prop where
  motion : run.motion.Finite
  leaves : ∀ l ∈ run.leaves, l.block.Regular

def Next.Sound : Next → Prop
  | .ready run | .paused run _ _ => run.Sound
  | .finished m => m.Finite
  | .removed => True

def Halt.Sound : Halt → Prop
  | .suspended s => s.run.Sound
  | .finished m => m.Finite
  | .removed => True

namespace Run

variable {settings : Settings} {stage : Stage} {run next : Run}

theorem Sound.sublist (h : run.Sound) (hmotion : next.motion.Finite)
    (hleaves : next.leaves ⊆ run.leaves) : next.Sound :=
  ⟨hmotion, fun l hl => h.leaves l (hleaves hl)⟩

/-- After a write that moves nobody out of the finite doubles. -/
theorem bears_afterWrite {w : Write} {further : List Event} (hs : stage.Sound)
    (hw : ∀ m, w = .motion m → m.Finite) (hfurther : ∀ e ∈ further, e.Sound) (hnext : next.Sound)
    (actor : ActorId) (pause : Pause) (length : Duration) :
    let o := afterWrite stage (stage.written? actor w) further next pause length
    Bears o.events (o.stage.Sound ∧ o.result.Sound) := by
  cases h : stage.written? actor w with
  | none => exact .nil ⟨hs, trivial⟩
  | some r =>
    have hsnap := hs.published hw h
    refine .inr ⟨?_, hs.written? h hsnap, hnext⟩
    exact List.forall_mem_cons.mpr ⟨hsnap,
      List.forall_mem_append.mpr ⟨hfurther, List.forall_mem_singleton.mpr trivial⟩⟩

theorem bears_perform (settings : Settings) (hs : stage.Sound) (hr : run.Sound) :
    let o := run.perform settings stage
    Bears o.events (o.stage.Sound ∧ o.result.Sound) := by
  unfold perform
  split
  · split
    · exact .nil ⟨hs, hr.motion⟩
    · exact .nil ⟨hs, hr⟩
  · rename_i c rest htodo
    have hleaves := leaves_of_todo htodo
    have hrest : ({ run with todo := rest } : Run).Sound :=
      hr.sublist hr.motion (hleaves ▸ List.subset_append_right ..)
    split
    · rename_i change
      let m := run.motion.steer change
      have hregular : (Command.steer change).Regular := by
        refine hr.leaves (.steer change) ?_
        rw [hleaves]
        exact List.mem_append_left _ (List.mem_singleton_self _)
      by_cases hm : m.Finite
      · have hsteered : Event.Sound (.steered run.actor (Command.steer change).kind m) := hm
        have hnext : ({ run with todo := rest, motion := m } : Run).Sound := ⟨hm, hrest.leaves⟩
        refine bears_afterWrite (w := .motion m) hs ?_ (List.forall_mem_singleton.mpr hsteered)
          hnext ..
        rintro _ ⟨⟩
        exact hm
      · dsimp only
        cases h : stage.setMotion? run.actor m with
        | none => exact .nil ⟨hs, trivial⟩
        | some written =>
          refine .inl ⟨.steered run.actor (Command.steer change).kind m, ?_, ?_⟩
          · simp [afterWrite, m]
          · refine ⟨run.motion, change, hr.motion, hregular, ?_, rfl, rfl, hm⟩
            rintro x y rfl
            exact hm ⟨⟨hregular.1, hregular.2⟩, hr.motion.heading⟩
    · rename_i visible
      exact bears_afterWrite (w := .visible visible) hs (fun _ => Write.noConfusion)
        (List.forall_mem_nil _) hrest ..
    · exact .singleton trivial ⟨hs, hrest⟩
    · rename_i kind text
      exact bears_afterWrite (w := .speech (some ⟨kind, text⟩)) hs (fun _ => Write.noConfusion)
        (List.forall_mem_nil _) hrest ..
    · rename_i times body
      split
      · exact .nil ⟨hs, hrest⟩
      · rename_i left hleft
        let inner : Run := { run with todo := body, loops := ⟨left, body, rest⟩ :: run.loops }
        have hsame : inner.leaves = run.leaves := by
          rw [hleaves]
          simp [inner, leaves, leavesOf, Command.unrolled, hleft, List.replicate_succ]
        have hinner : inner.Sound := ⟨hr.motion, hsame ▸ hr.leaves⟩
        exact .nil ⟨hs, hinner⟩
    · exact .singleton trivial ⟨hs, hrest⟩

theorem Sound.nextIteration (h : run.Sound) : run.nextIteration.Sound := by
  have hmotion : run.nextIteration.motion = run.motion := by
    unfold Run.nextIteration
    split
    · rfl
    · split <;> rfl
  refine h.sublist (hmotion ▸ h.motion) ?_
  rw [leaves_nextIteration]
  exact List.subset_append_right ..

theorem Sound.ifPresent (h : run.Sound) (hnext : run.ifPresent stage = some next) :
    next.Sound := by
  unfold Run.ifPresent at hnext
  split at hnext
  · cases hnext
    exact h
  · cases hnext

theorem bears_settle (settings : Settings) (hs : stage.Sound) (hr : run.Sound) (pause : Pause) :
    let o := run.settle settings stage pause
    Bears o.events (o.stage.Sound ∧ ∀ next, o.result = some next → next.Sound) := by
  cases pause with
  | step => exact .singleton trivial ⟨hs.collide _, fun _ => hr.ifPresent⟩
  | wait => exact .nil ⟨hs, fun _ => hr.ifPresent⟩
  | speech =>
    cases h : stage.setSpeech? run.actor none with
    | none =>
      simp only [settle, h]
      refine .nil ⟨hs, fun next hnext => ?_⟩
      cases hnext
    | some written =>
      simp only [settle, h]
      have hsnap : written.2.Sound :=
        hs.published (w := .speech none) (fun _ => Write.noConfusion) h
      refine .singleton hsnap ⟨hs.written? (w := .speech none) h hsnap, ?_⟩
      rintro _ ⟨⟩
      exact hr
  | turnover =>
    refine .nil ⟨hs, fun next hnext => ?_⟩
    obtain ⟨same, hsame, rfl⟩ := Option.map_eq_some_iff.mp hnext
    exact (hr.ifPresent hsame).nextIteration

theorem bears_resume (settings : Settings) (room : Nat) (hs : stage.Sound) (hr : run.Sound)
    (pause : Pause)
    (rest : ∀ next, (run.settle settings stage pause).result = some next →
      (run.settle settings stage pause).stage.Sound → next.Sound →
      let o := next.advance settings room (run.settle settings stage pause).stage
      Bears o.events (o.stage.Sound ∧ o.result.point.Sound)) :
    let o := run.resume settings room stage pause
    Bears o.events (o.stage.Sound ∧ o.result.point.Sound) := by
  have hpaid := bears_settle settings hs hr pause
  unfold resume
  dsimp only
  split
  · exact hpaid.imp fun h => ⟨h.1, trivial⟩
  · rename_i next hnext
    exact hpaid.append fun h => rest next hnext h.1 (h.2 next hnext)

/-- A turn of a run. -/
theorem bears_advance (settings : Settings) (room : Nat) (hs : stage.Sound) (hr : run.Sound) :
    let o := run.advance settings room stage
    Bears o.events (o.stage.Sound ∧ o.result.point.Sound) := by
  refine advance_induction (P := fun _ stage run o => stage.Sound → run.Sound →
    Bears o.events (o.stage.Sound ∧ o.result.point.Sound)) ?finished ?removed ?ready ?suspends ?paid
    room stage run hs hr
  case finished =>
    intro room stage run m ho hs hr
    have hb := bears_perform settings hs hr
    dsimp only at hb
    rw [ho] at hb
    exact hb
  case removed =>
    intro room stage run ho hs hr
    have hb := bears_perform settings hs hr
    dsimp only at hb
    rw [ho] at hb
    exact hb
  case ready =>
    intro room stage run next ho rest ih hs hr
    have hb := bears_perform settings hs hr
    dsimp only at hb
    rw [ho] at hb
    exact hb.append fun h => ih h.1 h.2
  case suspends =>
    intro room stage run next pause length ho _ hs hr
    have hb := bears_perform settings hs hr
    dsimp only at hb
    rw [ho] at hb
    exact hb
  case paid =>
    intro room stage run next pause length ho _ left settled ih hs hr
    have hb := bears_perform settings hs hr
    dsimp only at hb
    rw [ho] at hb
    exact hb.append fun h => bears_resume settings left h.1 h.2 pause ih

end Run

/-- A later turn of a run. -/
theorem Suspension.bears_resume {stage : Stage} {s : Suspension} (settings : Settings)
    (hs : stage.Sound) (hr : s.run.Sound) :
    let o := s.resume settings stage
    Bears o.events (o.stage.Sound ∧ o.result.point.Sound) := by
  by_cases hover : s.IsOver
  · rw [resume_of_isOver hover]
    exact Run.bears_resume settings _ hs hr s.pause fun _ _ hstage hnext =>
      Run.bears_advance settings _ hstage hnext
  · rw [resume_of_not_isOver hover]
    exact .nil ⟨hs, hr⟩

/-! ## Polls -/

def Play.Sound : Play → Prop
  | .suspended s => s.run.Sound
  | .ended (.completed m) => m.Finite
  | _ => True

namespace Playback

variable {pb : Playback} {play : Play}

theorem bears_conclude (pb : Playback) (actor : ActorId) {o : Outcome (Reached Halt)}
    (h : Bears o.events (o.stage.Sound ∧ o.result.point.Sound)) :
    let p := pb.conclude actor o
    Bears p.events (p.playback.stage.Sound ∧ p.result.point.Sound) := by
  unfold conclude
  split
  · rename_i hpoint
    rw [hpoint] at h
    exact h
  · rename_i hpoint
    rw [hpoint] at h
    exact h.append fun h => .singleton h.2 h
  · exact h.append fun h => .singleton trivial ⟨h.1, trivial⟩

/-- A play starts with finite blocks, for those on the stage are. -/
theorem bears_accept (hs : pb.stage.Sound) (hc : pb.stage.Clean) (room : Nat) (actor : ActorId) :
    let p := pb.accept room actor
    Bears p.events (p.playback.stage.Sound ∧ p.result.point.Sound) := by
  unfold accept
  split
  · exact .nil ⟨hs, trivial⟩
  · split
    · exact .nil ⟨hs, trivial⟩
    · rename_i a ha
      have hsnap := hs.actors a (List.mem_of_find?_eq_some ha)
      have hregular : ∀ b ∈ Script.outline a.script, b.2.Regular := fun b hb =>
        (Script.clean_outline (Stage.clean_of_find? hc ha) b hb).regular
      have hrun : (Run.start actor a.motion a.script).Sound := by
        refine ⟨hsnap.motion, ?_⟩
        rw [Run.leaves, Run.start, Run.leavesOf, List.append_nil]
        exact Script.regular_unrolled a.script hregular
      exact (bears_conclude _ actor (Run.bears_advance pb.settings room hs hrun)).cons trivial

theorem bears_poll (hs : pb.stage.Sound) (hc : pb.stage.Clean) (hplay : play.Sound) (room : Nat) :
    let p := pb.poll room play
    Bears p.events (p.playback.stage.Sound ∧ p.result.point.Sound) := by
  cases play with
  | requested actor => exact bears_accept hs hc room actor
  | selected =>
    simp only [poll]
    split
    · exact bears_accept hs hc room _
    · exact .nil ⟨hs, trivial⟩
  | suspended s => exact bears_conclude pb _ (Suspension.bears_resume pb.settings hs hplay)
  | ended result => exact .nil ⟨hs, hplay⟩

end Playback

/-! ## Collision passes -/

namespace Performed

variable {distance : Float} {actor : ActorId} {stage stage' : Stage} {as bs : List Action}
  {es : List Event}

theorem sound (h : Performed distance actor stage as es stage') (hs : stage.Sound)
    (hes : ∀ e ∈ es, e.Sound) : stage'.Sound := by
  induction h with
  | nil => exact hs
  | write hw _ ih =>
    obtain ⟨hsnap, hlater⟩ := List.forall_mem_cons.mp hes
    exact ih (hs.written? hw hsnap) hlater
  | pause _ ih => exact ih hs (List.forall_mem_cons.mp hes).2
  | collide _ ih => exact ih (hs.collide distance) (List.forall_mem_cons.mp hes).2

theorem split (h : Performed distance actor stage (as ++ bs) es stage') :
    ∃ mid first later, es = first ++ later ∧ Performed distance actor stage as first mid ∧
      Performed distance actor mid bs later stage' := by
  induction as generalizing stage es with
  | nil => exact ⟨stage, [], es, rfl, .nil, h⟩
  | cons a as ih =>
    cases h with
    | write hw hrest =>
      obtain ⟨mid, first, later, rfl, hfirst, hlater⟩ := ih hrest
      exact ⟨mid, _, later, rfl, .write hw hfirst, hlater⟩
    | pause hrest =>
      obtain ⟨mid, first, later, rfl, hfirst, hlater⟩ := ih hrest
      exact ⟨mid, _, later, rfl, .pause hfirst, hlater⟩
    | collide hrest =>
      obtain ⟨mid, first, later, rfl, hfirst, hlater⟩ := ih hrest
      exact ⟨mid, _, later, rfl, .collide hfirst, hlater⟩

end Performed

/-- The actions of the next poll of a play make every collision pass on a stage like this. -/
def Playback.Passes (pb : Playback) (play : Play) (P : Stage → Prop) : Prop :=
  let distance := pb.settings.collisionDistance
  let polled := pb.poll turnRoom play
  ∃ actor as,
    Performed distance actor pb.stage as (Event.seen polled.events) polled.playback.stage ∧
    ∀ before after, as = before ++ .collide :: after → ∃ mid first later,
      Event.seen polled.events = first ++ later ∧
      Performed distance actor pb.stage before first mid ∧
      Performed distance actor mid (.collide :: after) later polled.playback.stage ∧ P mid

theorem Playback.Passes.imp {pb : Playback} {play : Play} {P Q : Stage → Prop}
    (h : pb.Passes play P) (hPQ : ∀ stage, P stage → Q stage) : pb.Passes play Q := by
  obtain ⟨actor, as, hperformed, hpasses⟩ := h
  refine ⟨actor, as, hperformed, fun before after has => ?_⟩
  obtain ⟨mid, first, later, hevents, hfirst, hlater, hmid⟩ := hpasses before after has
  exact ⟨mid, first, later, hevents, hfirst, hlater, hPQ mid hmid⟩

theorem Playback.passes_of_sound {pb : Playback} {play : Play} (hs : pb.stage.Sound)
    (hes : ∀ e ∈ (pb.poll turnRoom play).events, e.Sound) : pb.Passes play Stage.Sound := by
  have hseen : ∀ e ∈ Event.seen (pb.poll turnRoom play).events, e.Sound :=
    fun e he => hes e (List.mem_of_mem_filter he)
  obtain ⟨⟨actor, as, hperformed⟩, -⟩ := pb.poll_frame turnRoom play
  refine ⟨actor, as, hperformed, ?_⟩
  rintro before after rfl
  obtain ⟨mid, first, later, hevents, hfirst, hlater⟩ := hperformed.split
  rw [hevents] at hseen
  exact ⟨mid, first, later, hevents, hfirst, hlater,
    hfirst.sound hs (List.forall_mem_append.mp hseen).1⟩

end StagePlay
