import StagePlay.Proofs.Run.Simulation
import StagePlay.Proofs.Stage.Looks

/-!
# StagePlay.Proofs.Run.Speech

Who is heard on a stage while a script is carried out.

A run lets its actor speak before a pause and takes the bubble away after it. Nobody else on the
stage speaks, and when the run goes on, is over or is dropped, nobody does.

* `Stage.voices_setSpeech?`: a bubble is put to the first actor with an id, and taken from it.
* `Run.heard_perform`, `Run.heard_settle`: one block, and what is owed after a pause.
* `Run.heard_advance`, `Suspension.heard_resume`: the turns of a run.
-/

namespace StagePlay

namespace Stage

variable {s t : Stage} {id : ActorId} {sp : Speech} {snap : Snapshot}

/-- What everybody on the stage says. -/
def voices (s : Stage) : List (ActorId × Option Speech) := s.actors.map fun a => (a.id, a.speech)

def Hushed (s : Stage) : Prop := ∀ v ∈ s.voices, v.2 = none

/-- The first actor with this id says this, and nobody else says anything. -/
def Speaking (s : Stage) (id : ActorId) (sp : Speech) : Prop :=
  ∃ before after, s.voices = before ++ (id, some sp) :: after ∧
    (∀ v ∈ before, v.1 ≠ id ∧ v.2 = none) ∧ ∀ v ∈ after, v.2 = none

theorem Hushed.congr (h : s.Hushed) (hsame : t.voices = s.voices) : t.Hushed := by
  rwa [Hushed, hsame]

theorem Speaking.congr (h : s.Speaking id sp) (hsame : t.voices = s.voices) :
    t.Speaking id sp := by
  rwa [Speaking, hsame]

theorem voices_write? {f : Actor → Actor} (hid : ∀ a, (f a).id = a.id)
    (hspeech : ∀ a, (f a).speech = a.speech) (h : s.write? id f = some (t, snap)) :
    t.voices = s.voices := by
  simp only [write?, Option.map_eq_some_iff, Prod.mk.injEq] at h
  obtain ⟨a, ha, rfl, -⟩ := h
  exact map_update ha (by rw [hid, hspeech])

theorem voices_written? {w : Write} (hw : ∀ said, w ≠ .speech said)
    (h : s.written? id w = some (t, snap)) : t.voices = s.voices := by
  cases w with
  | motion m =>
    exact voices_write? (f := fun a => { a with motion := m }) (fun _ => rfl) (fun _ => rfl) h
  | visible v =>
    exact voices_write? (f := fun a => { a with visible := v }) (fun _ => rfl) (fun _ => rfl) h
  | speech said => exact absurd rfl (hw said)

theorem voices_congr (h : t.snapshots = s.snapshots) : t.voices = s.voices := by
  have hvoices : ∀ u : Stage, u.voices = u.snapshots.map fun a => (a.id, a.speech) := by
    intro u
    rw [snapshots, List.map_map]
    rfl
  rw [hvoices, hvoices, h]

/-- A bubble belongs to the first actor with the id. -/
theorem voices_setSpeech? {said : Option Speech} (h : s.setSpeech? id said = some (t, snap)) :
    ∃ before old after, s.voices = before ++ (id, old) :: after ∧ (∀ v ∈ before, v.1 ≠ id) ∧
      t.voices = before ++ (id, said) :: after := by
  simp only [setSpeech?, write?, Option.map_eq_some_iff, Prod.mk.injEq] at h
  obtain ⟨a, ha, rfl, -⟩ := h
  obtain ⟨before, after, hactors, hothers, hindex⟩ := exists_split ha
  refine ⟨before.map fun b => (b.id, b.speech), a.speech,
    after.map fun b => (b.id, b.speech), ?_, ?_, ?_⟩
  · simp [voices, hactors, id_of_find? ha]
  · simpa using hothers
  · simp [voices, update, hindex, hactors, id_of_find? ha]

theorem Hushed.speaking (h : s.Hushed) (ht : s.setSpeech? id (some sp) = some (t, snap)) :
    t.Speaking id sp := by
  obtain ⟨before, old, after, hs, hbefore, ht⟩ := voices_setSpeech? ht
  rw [Hushed, hs] at h
  obtain ⟨hfirst, hlater⟩ := List.forall_mem_append.mp h
  exact ⟨before, after, ht, fun v hv => ⟨hbefore v hv, hfirst v hv⟩,
    (List.forall_mem_cons.mp hlater).2⟩

theorem Hushed.silenced (h : s.Hushed) (ht : s.setSpeech? id none = some (t, snap)) :
    t.Hushed := by
  obtain ⟨before, old, after, hs, hbefore, ht⟩ := voices_setSpeech? ht
  rw [Hushed, hs] at h
  obtain ⟨hfirst, hlater⟩ := List.forall_mem_append.mp h
  rw [Hushed, ht]
  exact List.forall_mem_append.mpr
    ⟨hfirst, List.forall_mem_cons.mpr ⟨rfl, (List.forall_mem_cons.mp hlater).2⟩⟩

/-- The speaker is found first under its id, so the bubble that is taken away is its own. -/
theorem Speaking.silenced (h : s.Speaking id sp) (ht : s.setSpeech? id none = some (t, snap)) :
    t.Hushed := by
  obtain ⟨before, after, hs, hbefore, hafter⟩ := h
  obtain ⟨before', old, after', hs', hbefore', ht⟩ := voices_setSpeech? ht
  have hlength : ∀ {front back : List (ActorId × Option Speech)} {said : Option Speech},
      s.voices = front ++ (id, said) :: back → (∀ v ∈ front, v.1 ≠ id) →
      s.voices.findIdx (·.1 = id) = front.length := by
    intro front back said hsplit hfront
    rw [hsplit, List.findIdx_append, List.findIdx_eq_length.mpr (by simpa using hfront)]
    simp [List.findIdx_cons]
  have hsame : before.length = before'.length :=
    (hlength hs fun v hv => (hbefore v hv).1).symm.trans (hlength hs' hbefore')
  obtain ⟨rfl, hrest⟩ := List.append_inj (hs.symm.trans hs') hsame
  obtain ⟨-, rfl⟩ := List.cons_eq_cons.mp hrest
  rw [Hushed, ht]
  exact List.forall_mem_append.mpr
    ⟨fun v hv => (hbefore v hv).2, List.forall_mem_cons.mpr ⟨rfl, hafter⟩⟩

theorem Hushed.speech_eq_none (h : s.Hushed) {a : Actor} (ha : a ∈ s.actors) : a.speech = none :=
  h (a.id, a.speech) (List.mem_map_of_mem ha)

/-- The one actor that has a bubble is the one that is found under the id. -/
theorem Speaking.exists_actor (h : s.Speaking id sp) :
    ∃ before a after, s.actors = before ++ a :: after ∧ s.find? id = some a ∧
      a.speech = some sp ∧ ∀ b ∈ before ++ after, b.speech = none := by
  obtain ⟨front, back, hs, hfront, hback⟩ := h
  obtain ⟨before, rest, hactors, rfl, hrest⟩ := List.map_eq_append_iff.mp hs
  obtain ⟨a, after, rfl, ha, rfl⟩ := List.map_eq_cons_iff.mp hrest
  obtain ⟨hid, hspeech⟩ := Prod.mk.inj ha
  refine ⟨before, a, after, hactors, ?_, hspeech, ?_⟩
  · refine List.find?_eq_some_iff_append.mpr ⟨by simpa using hid, before, after, hactors, ?_⟩
    intro b hb
    simpa using (hfront _ (List.mem_map_of_mem hb)).1
  · refine List.forall_mem_append.mpr ⟨fun b hb => ?_, fun b hb => ?_⟩
    · exact (hfront _ (List.mem_map_of_mem hb)).2
    · exact hback _ (List.mem_map_of_mem hb)

theorem Speaking.contains (h : s.Speaking id sp) : s.contains id = true := by
  obtain ⟨_, a, _, -, ha, -, -⟩ := h.exists_actor
  rw [Stage.contains, ha]
  rfl

/-- Who has a bubble is the speaker, and stands where the speaker stands. -/
theorem Speaking.eq_of_speech (h : s.Speaking id sp) :
    ∃ n, ∀ (i : Nat) (a : Actor), s.actors[i]? = some a → a.speech ≠ none →
      i = n ∧ s.find? id = some a ∧ a.speech = some sp := by
  obtain ⟨before, speaker, after, hactors, hfind, hspeech, hothers⟩ := h.exists_actor
  refine ⟨before.length, fun i a hi ha => ?_⟩
  rw [hactors] at hi
  rcases Nat.lt_trichotomy i before.length with hlt | rfl | hgt
  · rw [List.getElem?_append_left hlt] at hi
    exact absurd (hothers a (List.mem_append_left _ (List.mem_of_getElem? hi))) ha
  · obtain rfl : speaker = a := by simpa using hi
    exact ⟨rfl, hfind, hspeech⟩
  · obtain ⟨k, hk⟩ := Nat.exists_eq_add_of_lt hgt
    rw [List.getElem?_append_right (Nat.le_of_lt hgt), hk, Nat.add_assoc, Nat.add_sub_cancel_left,
      List.getElem?_cons_succ] at hi
    exact absurd (hothers a (List.mem_append_right _ (List.mem_of_getElem? hi))) ha

/-- Others may put actors on the stage and take them off it, but let nobody speak. -/
theorem voices_after {d : Deed} (hd : ∀ id w, d ≠ .write id w) :
    (s.after d).voices = s.voices ∨ (∃ id, (s.after d).voices = s.voices ++ [(id, none)]) ∨
      ∃ id, (s.after d).voices = s.voices.filter (·.1 ≠ id) := by
  cases d with
  | spawn name =>
    refine .inr (.inl ⟨(s.spawn name).2, ?_⟩)
    simp [after, spawn, voices, Actor.fresh]
  | remove id =>
    simp only [after, remove?]
    split
    · refine .inr (.inr ⟨id, ?_⟩)
      simp only [Option.getD_some, voices, List.filter_map]
      rfl
    · exact .inl rfl
  | place id p =>
    simp only [after]
    cases h : s.place? id p with
    | none => exact .inl rfl
    | some r =>
      refine .inl (voices_write? (f := fun a => { a with motion := a.motion.moveTo p })
        (fun _ => rfl) (fun _ => rfl) h)
  | write id w => exact absurd rfl (hd id w)
  | assign | append | removeBlock | setBlockField | collide =>
    exact .inl (voices_congr (snapshots_after rfl rfl fun _ => Deed.noConfusion))

theorem Hushed.after (h : s.Hushed) {d : Deed} (hd : ∀ id w, d ≠ .write id w) :
    (s.after d).Hushed := by
  rcases s.voices_after hd with hsame | ⟨id, hmore⟩ | ⟨id, hless⟩
  · exact h.congr hsame
  · rw [Hushed, hmore]
    exact List.forall_mem_append.mpr ⟨h, List.forall_mem_singleton.mpr rfl⟩
  · rw [Hushed, hless]
    exact fun v hv => h v (List.mem_filter.mp hv).1

/-- A speaker goes on speaking until it is taken off the stage. -/
theorem Speaking.after (h : s.Speaking id sp) {d : Deed} (hd : ∀ id w, d ≠ .write id w) :
    (s.after d).Speaking id sp ∨ (s.after d).Hushed := by
  rcases s.voices_after hd with hsame | ⟨other, hmore⟩ | ⟨other, hless⟩
  · exact .inl (h.congr hsame)
  · obtain ⟨before, after, hs, hbefore, hafter⟩ := h
    refine .inl ⟨before, after ++ [(other, none)], ?_, hbefore, ?_⟩
    · rw [hmore, hs, List.append_assoc, List.cons_append]
    · exact List.forall_mem_append.mpr ⟨hafter, List.forall_mem_singleton.mpr rfl⟩
  · obtain ⟨before, after, hs, hbefore, hafter⟩ := h
    have hfirst : ∀ v ∈ before.filter (·.1 ≠ other), v.1 ≠ id ∧ v.2 = none :=
      fun v hv => hbefore v (List.mem_filter.mp hv).1
    have hlater : ∀ v ∈ after.filter (·.1 ≠ other), v.2 = none :=
      fun v hv => hafter v (List.mem_filter.mp hv).1
    rw [hs, List.filter_append, List.filter_cons] at hless
    by_cases hother : id = other
    · right
      rw [Hushed, hless, if_neg (by simp [hother])]
      exact List.forall_mem_append.mpr ⟨fun v hv => (hfirst v hv).2, hlater⟩
    · left
      rw [if_pos (by simpa using hother)] at hless
      exact ⟨_, _, hless, hfirst, hlater⟩

end Stage

namespace Run

/-- What is heard on a stage while a run is at a pause, if its script has these leaves: nobody, or
    its own actor, which says what the last leaf lets it say. -/
def Heard (ls : List Leaf) (stage : Stage) (run : Run) (pause : Pause) : Prop :=
  run.leaves <:+ ls ∧
    (stage.Hushed ∨ ∃ sp : Speech, pause = .speech ∧ stage.Speaking run.actor sp ∧
      .speak sp.kind sp.text :: run.leaves <:+ ls)

end Run

/-- The same after one block. -/
def Next.Heard (ls : List Leaf) (stage : Stage) : Next → Prop
  | .ready next => next.leaves <:+ ls ∧ stage.Hushed
  | .paused next pause _ => next.Heard ls stage pause
  | .finished _ | .removed => stage.Hushed

/-- The same where a turn comes to a halt. -/
def Halt.Heard (ls : List Leaf) (stage : Stage) : Halt → Prop
  | .suspended s => s.run.Heard ls stage s.pause
  | .finished _ | .removed => stage.Hushed

namespace Run

variable {settings : Settings} {stage : Stage} {run : Run} {ls : List Leaf}

/-- Whatever others do meanwhile, nobody else is heard. -/
theorem Heard.after {pause : Pause} (h : run.Heard ls stage pause) {d : Deed}
    (hd : ∀ id w, d ≠ .write id w) : run.Heard ls (stage.after d) pause := by
  obtain ⟨hl, hs | ⟨sp, hp, hspeaking, hleaf⟩⟩ := h
  · exact ⟨hl, .inl (hs.after hd)⟩
  · refine ⟨hl, (hspeaking.after hd).symm.imp_right fun hspeaking => ?_⟩
    exact ⟨sp, hp, hspeaking, hleaf⟩

/-- After a write that gives nobody a bubble. -/
theorem heard_afterWrite {actor : ActorId} {w : Write} {next : Run} (hs : stage.Hushed)
    (hl : next.leaves <:+ ls) (hw : ∀ said, w ≠ .speech said) (further : List Event)
    (pause : Pause) (length : Duration) :
    let o := afterWrite stage (stage.written? actor w) further next pause length
    o.result.Heard ls o.stage := by
  cases h : stage.written? actor w with
  | none => exact hs
  | some r => exact ⟨hl, .inl (hs.congr (Stage.voices_written? hw h))⟩

/-- One block of a run that finds everybody silent. -/
theorem heard_perform (settings : Settings) (hs : stage.Hushed) (hl : run.leaves <:+ ls) :
    (run.perform settings stage).result.Heard ls (run.perform settings stage).stage := by
  unfold perform
  split
  · split
    · exact hs
    · exact ⟨hl, .inl hs⟩
  · rename_i c rest htodo
    rw [leaves_of_todo htodo] at hl
    have hrest : ({ run with todo := rest } : Run).leaves <:+ ls :=
      (List.suffix_append ..).trans hl
    split
    · rename_i change
      let m := run.motion.steer change
      have hsteered : ({ run with todo := rest, motion := m } : Run).leaves <:+ ls := hrest
      exact heard_afterWrite (w := .motion m) hs hsteered (fun _ => Write.noConfusion) _ _ _
    · rename_i visible
      exact heard_afterWrite (w := .visible visible) hs hrest (fun _ => Write.noConfusion) _ _ _
    · exact ⟨hrest, .inl hs⟩
    · rename_i kind text
      cases ht : stage.setSpeech? run.actor (some ⟨kind, text⟩) with
      | none => exact hs
      | some r => exact ⟨hrest, .inr ⟨⟨kind, text⟩, rfl, hs.speaking ht, hl⟩⟩
    · rename_i times body
      split
      · exact ⟨hrest, hs⟩
      · rename_i left hleft
        refine ⟨?_, hs⟩
        simpa [leaves, leavesOf, Command.unrolled, hleft, List.replicate_succ] using hl
    · exact ⟨hrest, hs⟩

theorem Heard.hushed {pause : Pause} (h : run.Heard ls stage pause) (hp : pause ≠ .speech) :
    stage.Hushed := by
  obtain ⟨-, hs | ⟨sp, hspeech, -, -⟩⟩ := h
  · exact hs
  · exact absurd hspeech hp

theorem leaves_of_ifPresent {next : Run} (h : run.ifPresent stage = some next) :
    next.leaves = run.leaves := by
  rw [ifPresent] at h
  split at h
  · cases h
    rfl
  · cases h

/-- What is owed after a pause: it leaves everybody silent. -/
theorem heard_settle (settings : Settings) {pause : Pause} (h : run.Heard ls stage pause) :
    (run.settle settings stage pause).stage.Hushed ∧
      ∀ next, (run.settle settings stage pause).result = some next → next.leaves <:+ ls := by
  cases pause with
  | step =>
    refine ⟨(h.hushed (by decide)).congr (Stage.voices_congr (stage.snapshots_collide _)), ?_⟩
    intro next hnext
    rw [leaves_of_ifPresent hnext]
    exact h.1
  | wait =>
    refine ⟨h.hushed (by decide), ?_⟩
    intro next hnext
    rw [leaves_of_ifPresent hnext]
    exact h.1
  | speech =>
    obtain ⟨hl, hheard⟩ := h
    cases ht : stage.setSpeech? run.actor none with
    | none =>
      simp only [settle, ht]
      refine ⟨hheard.resolve_right ?_, ?_⟩
      · rintro ⟨sp, -, hspeaking, -⟩
        obtain ⟨t, snap, hthere⟩ := Stage.exists_written? hspeaking.contains (.speech none)
        rw [Stage.written?, ht] at hthere
        cases hthere
      · intro next hnext
        cases hnext
    | some written =>
      simp only [settle, ht]
      refine ⟨?_, ?_⟩
      · rcases hheard with hs | ⟨sp, -, hspeaking, -⟩
        · exact hs.silenced ht
        · exact hspeaking.silenced ht
      · intro next hnext
        cases hnext
        exact hl
  | turnover =>
    refine ⟨h.hushed (by decide), ?_⟩
    intro next hnext
    obtain ⟨same, hsame, rfl⟩ := Option.map_eq_some_iff.mp hnext
    have hl : same.leaves <:+ ls := by
      rw [leaves_of_ifPresent hsame]
      exact h.1
    rw [leaves_nextIteration]
    rw [leaves] at hl
    exact (List.suffix_append ..).trans hl

theorem heard_resume_of_settle (room : Nat) {pause : Pause} (h : run.Heard ls stage pause)
    (rest : ∀ next, (run.settle settings stage pause).result = some next →
      let o := next.advance settings room (run.settle settings stage pause).stage
      o.result.point.Heard ls o.stage) :
    (run.resume settings room stage pause).result.point.Heard ls
      (run.resume settings room stage pause).stage := by
  obtain ⟨hs, -⟩ := heard_settle settings h
  cases hnext : (run.settle settings stage pause).result with
  | none =>
    simp only [resume, hnext]
    exact hs
  | some next =>
    simp only [resume, hnext]
    exact rest next hnext

/-- A turn of a run that finds everybody silent. -/
theorem heard_advance (settings : Settings) (room : Nat) (hs : stage.Hushed)
    (hl : run.leaves <:+ ls) :
    (run.advance settings room stage).result.point.Heard ls
      (run.advance settings room stage).stage := by
  refine advance_induction (P := fun _ stage run o => stage.Hushed → run.leaves <:+ ls →
    o.result.point.Heard ls o.stage) ?finished ?removed ?ready ?suspends ?paid room stage run hs hl
  case finished =>
    intro room stage run m ho hs hl
    have hh := heard_perform settings hs hl
    rw [ho] at hh
    exact hh
  case removed =>
    intro room stage run ho hs hl
    have hh := heard_perform settings hs hl
    rw [ho] at hh
    exact hh
  case ready =>
    intro room stage run next ho rest ih hs hl
    have hh := heard_perform settings hs hl
    rw [ho] at hh
    exact ih hh.2 hh.1
  case suspends =>
    intro room stage run next pause length ho _ hs hl
    have hh := heard_perform settings hs hl
    rw [ho] at hh
    exact hh
  case paid =>
    intro room stage run next pause length ho _ left settled ih hs hl
    have hh := heard_perform settings hs hl
    rw [ho] at hh
    refine heard_resume_of_settle left hh fun later hlater => ?_
    obtain ⟨hs', hl'⟩ := heard_settle settings hh
    exact ih later hlater hs' (hl' later hlater)

end Run

/-- A later turn of a run. -/
theorem Suspension.heard_resume {stage : Stage} {ls : List Leaf} {s : Suspension}
    (settings : Settings) (h : s.run.Heard ls stage s.pause) :
    (s.resume settings stage).result.point.Heard ls (s.resume settings stage).stage := by
  by_cases hover : s.IsOver
  · rw [resume_of_isOver hover]
    refine Run.heard_resume_of_settle _ h fun next hnext => ?_
    obtain ⟨hs, hl⟩ := Run.heard_settle settings h
    exact Run.heard_advance settings _ hs (hl next hnext)
  · rw [resume_of_not_isOver hover]
    exact h

end StagePlay
