import StagePlay.Proofs.Console.Cancellation

/-!
# StagePlay.Proofs.Console.Captured

What a play takes from the stage, and when.

A play takes the script and the motion of its actor at its first poll, which comes when the session
waits next. From then on its polls are the turns of one run, and whatever lines come between them
are deeds of others.

* `Underway.next`, `Underway.others`: what a poll and what a line make of a play under way.
* `begun_takeAll`: whatever comes in until the play is reported.
* `script_captured`: the script that a play carries out, and where it starts.
-/

namespace StagePlay

open Relation (ReflTransGen)

/-! ## Polls -/

/-- One poll after the other. -/
def Polled.Leads : Polled → Polled → Prop := ReflTransGen fun p q => q = p.next

theorem Polled.isFresh_leads {p q : Polled} (hp : p.inFlight.play.isFresh = false)
    (h : p.Leads q) : q.inFlight.play.isFresh = false := by
  induction h with
  | refl => exact hp
  | tail _ hstep _ =>
    rw [hstep]
    exact Playback.isFresh_poll ..

theorem Polled.leads_until (limit : Option Nat) (p : Polled) : p.Leads (p.until limit) := by
  fun_induction Polled.until limit p with
  | case1 p _ _ => exact .refl
  | case2 p _ _ => exact .refl
  | case3 p _ _ ih => exact .head rfl ih

/-- A play that has ended is not polled. -/
theorem Polled.until_of_ended {p : Polled} (h : p.inFlight.play.result?.isSome = true)
    (limit : Option Nat) : p.until limit = p := by
  rw [Polled.until]
  split
  · rfl
  · simp_all

/-- A play that has ended is left as it is. -/
theorem Polled.next_of_ended {p : Polled} {result : PlayResult}
    (h : p.inFlight.play = .ended result) :
    p.next.playback = p.playback ∧ p.next.inFlight.play = p.inFlight.play ∧
      p.next.events = p.events := by
  have hpoll : p.playback.poll turnRoom p.inFlight.play
      = ⟨p.playback, [], .ended result, turnRoom⟩ := by rw [h]; rfl
  simp [next, hpoll, ← h]

/-- A play whose run was started on this first stage, with the script and the motion that its actor
    had there. The run has had some turns, in which all this was heard, and since then others have
    done something. -/
def Underway (settings : Settings) (id : ActorId) (first : Stage) (a : Actor) (heard : List Event)
    (stage : Stage) (r : InFlight) : Prop :=
  ∃ turns last halt deeds,
    Course settings (.start id a.motion a.script) first turns last halt ∧
    stage = last.afterAll deeds ∧ r.play = halt.play ∧
    Event.seen heard = turns.flatMap fun t => Event.seen t.outcome.events

/-- A play after its first poll, which found the stage like this. -/
structure Begun (settings : Settings) (id : ActorId) (first : Stage) (heard : List Event)
    (pb : Playback) (r : InFlight) : Prop where
  actor_eq : r.actor = id
  settings_eq : pb.settings = settings
  missing : first.find? id = none →
    r.play = .ended (.refused (.actorNotFound id)) ∧ Event.seen heard = []
  underway : ∀ a, first.find? id = some a → Underway settings id first a heard pb.stage r

section Polls

variable {settings : Settings} {first stage : Stage} {a : Actor} {id : ActorId}
  {heard : List Event} {pb pb' : Playback} {r : InFlight} {p q : Polled}

theorem Underway.next
    (h : Underway settings id first a (heard ++ p.events.reverse) p.playback.stage p.inFlight)
    (hsettings : p.playback.settings = settings) :
    Underway settings id first a (heard ++ p.next.events.reverse) p.next.playback.stage
      p.next.inFlight := by
  obtain ⟨turns, last, halt, deeds, hcourse, hstage, hplay, hheard⟩ := h
  by_cases hsuspended : ∃ s, halt = .suspended s
  · obtain ⟨s, rfl⟩ := hsuspended
    let o := s.resume p.playback.settings p.playback.stage
    let t : Turn := ⟨last, deeds, o⟩
    have ht : t.outcome = s.resume settings t.found := by
      rw [Turn.found, ← hstage, ← hsettings]
    have hpoll : p.playback.poll turnRoom p.inFlight.play = p.playback.conclude s.run.actor o := by
      rw [hplay]
      rfl
    obtain ⟨hpoint, hafter, hseen⟩ := p.playback.conclude_play s.run.actor o
    refine ⟨turns ++ [t], o.stage, o.result.point, [], hcourse.snoc (t := t) ht, ?_, ?_, ?_⟩
    · simp only [Polled.next, hpoll, hafter]
      rfl
    · simp only [Polled.next, hpoll, hpoint]
    · simp only [Polled.next, hpoll, List.reverse_append, List.reverse_reverse]
      rw [← List.append_assoc, Event.seen_append, hheard, hseen, List.flatMap_append,
        List.flatMap_singleton]
  · -- the run has ended
    have hended : ∃ result, p.inFlight.play = .ended result := by
      rw [hplay]
      cases halt with
      | suspended s => exact absurd ⟨s, rfl⟩ hsuspended
      | finished m => exact ⟨_, rfl⟩
      | removed => exact ⟨_, rfl⟩
    obtain ⟨result, hresult⟩ := hended
    obtain ⟨hpb, hsame, hevents⟩ := Polled.next_of_ended hresult
    rw [hpb, hevents]
    exact ⟨turns, last, halt, deeds, hcourse, hstage, hsame.trans hplay, hheard⟩

theorem Underway.others (h : Underway settings id first a heard stage r) (d : Deed) :
    Underway settings id first a heard (stage.after d) r := by
  obtain ⟨turns, last, halt, deeds, hcourse, hstage, hplay, hheard⟩ := h
  refine ⟨turns, last, halt, deeds ++ [d], hcourse, ?_, hplay, hheard⟩
  rw [hstage, Stage.afterAll_append]
  rfl

theorem Begun.next (h : Begun settings id first (heard ++ p.events.reverse) p.playback p.inFlight) :
    Begun settings id first (heard ++ p.next.events.reverse) p.next.playback p.next.inFlight where
  actor_eq := h.actor_eq
  settings_eq := (p.playback.settings_poll _ _).trans h.settings_eq
  missing := by
    intro hmissing
    obtain ⟨hplay, hheard⟩ := h.missing hmissing
    obtain ⟨-, hsame, hevents⟩ := Polled.next_of_ended hplay
    rw [hsame, hevents]
    exact ⟨hplay, hheard⟩
  underway := fun a ha => (h.underway a ha).next h.settings_eq

theorem Begun.leads (h : Begun settings id first (heard ++ p.events.reverse) p.playback p.inFlight)
    (hq : p.Leads q) :
    Begun settings id first (heard ++ q.events.reverse) q.playback q.inFlight := by
  induction hq with
  | refl => exact h
  | tail _ hstep ih =>
    rw [hstep]
    exact ih.next

theorem Begun.isFresh (h : Begun settings id first heard pb r) : r.play.isFresh = false := by
  cases hfirst : first.find? id with
  | none =>
    rw [(h.missing hfirst).1]
    rfl
  | some a =>
    obtain ⟨-, -, halt, -, -, -, hplay, -⟩ := h.underway a hfirst
    rw [hplay]
    cases halt <;> rfl

/-- The first poll of a play, while no other one is under way. -/
theorem begun_next (hactor : r.actor = id) (hplay : r.play = .requested id)
    (hactive : pb.active = none) :
    let p := Polled.next ⟨pb, r, []⟩
    Begun pb.settings id pb.stage p.events.reverse p.playback p.inFlight where
  actor_eq := hactor
  settings_eq := pb.settings_poll _ _
  missing := by
    intro hmissing
    have hpoll : pb.poll turnRoom r.play
        = ⟨pb, [], .ended (.refused (.actorNotFound id)), turnRoom⟩ := by
      rw [hplay]
      simp [Playback.poll, Playback.accept, hactive, hmissing]
    simp [Polled.next, hpoll, Event.seen]
  underway := by
    intro a ha
    let begun := { pb with active := some id }
    let o := (Run.start id a.motion a.script).advance pb.settings turnRoom pb.stage
    let t : Turn := ⟨pb.stage, [], o⟩
    have hpoll : pb.poll turnRoom r.play = { begun.conclude id o with
        events := .runStarted id a.script.length :: (begun.conclude id o).events } := by
      rw [hplay]
      simp [Playback.poll, Playback.accept, hactive, ha, begun, o]
    obtain ⟨hpoint, hafter, hseen⟩ := begun.conclude_play id o
    have hcourse : Course pb.settings (.start id a.motion a.script) pb.stage [t] o.stage
        o.result.point := .start (t := t) turnRoom rfl rfl .nil
    refine ⟨[t], o.stage, o.result.point, [], hcourse, ?_, ?_, ?_⟩
    · simp only [Polled.next, hpoll, hafter]
      rfl
    · simp only [Polled.next, hpoll, hpoint]
    · simp only [Polled.next, hpoll, List.append_nil, List.reverse_reverse]
      rw [List.flatMap_singleton]
      exact hseen

/-- Polls of a play that has not been polled yet, if there are any. -/
theorem begun_leads (hactor : r.actor = id) (hplay : r.play = .requested id)
    (hactive : pb.active = none) (hq : Polled.Leads ⟨pb, r, []⟩ q) :
    q = ⟨pb, r, []⟩ ∨ Begun pb.settings id pb.stage q.events.reverse q.playback q.inFlight := by
  rcases hq.cases_head with hsame | ⟨p, hstep, hq⟩
  · exact .inl hsame.symm
  · have hp : Begun pb.settings id pb.stage ([] ++ p.events.reverse) p.playback p.inFlight := by
      rw [hstep]
      exact begun_next hactor hplay hactive
    exact .inr (hp.leads hq)

end Polls

namespace Session

variable {s s' : Session} {settings : Settings} {first : Stage} {id : ActorId}
  {es : List Event} {r : InFlight}

/-! ## Inputs that do not report the play -/

/-- What happens while time passes between the lines. -/
def heard (s : Session) : List Input → List Event
  | [] => []
  | .pause ms :: rest => (s.elapse ms).2 ++ (s.take (.pause ms)).session.heard rest
  | .line files text :: rest => (s.take (.line files text)).session.heard rest

/-- The inputs that come before the first turn of the play that is held. -/
def idle (s : Session) : List Input → List Input
  | [] => []
  | input :: rest =>
    let s' := (s.take input).session
    if s'.run.any (·.play.isFresh) then input :: s'.idle rest else []

/-- Nothing is reported of a play. -/
def Silent (s : Session) (inputs : List Input) : Prop :=
  (s.toldAll inputs).filterMap Notice.settled? = []

theorem leads_elapse (hr : s.run = some r) (ms : Nat) :
    ∃ q, Polled.Leads ⟨s.playback, r, []⟩ q ∧ (s.elapse ms).1.playback = q.playback ∧
      (s.elapse ms).1.run = some q.inFlight ∧ (s.elapse ms).2 = q.events.reverse := by
  unfold elapse
  split
  · simp only [pass, hr]
    split
    · exact ⟨_, .single rfl, rfl, rfl, rfl⟩
    · exact ⟨_, .refl, rfl, hr, rfl⟩
  · simp only [hr]
    exact ⟨_, Polled.leads_until _ _, rfl, rfl, rfl⟩

theorem Edit.settings_eq {request : Console.Request} (h : Edit s request s') :
    s'.playback.settings = s.playback.settings := by
  cases h with
  | nothing => rfl
  | addActor name => rfl
  | removeActor hr =>
    obtain ⟨stage, -, rfl⟩ := Option.map_eq_some_iff.mp hr
    rfl
  | select h =>
    unfold Playback.select? at h
    split at h <;> cases h
    rfl
  | palette h => rfl
  | deed h => rfl

theorem settled_answered (files : Files) (s : Session) {request : Console.Request}
    (hwait : request ≠ .wait) : (s.answered files request).filterMap Notice.settled? = [] := by
  by_cases hplay : request = .play
  · subst hplay
    rw [answered]
    split
    · rw [List.filterMap_map]
      exact List.filterMap_eq_nil_iff.mpr fun _ _ => rfl
    · rfl
  · rw [answered_of_ne hplay hwait, List.filterMap_map]
    exact List.filterMap_eq_nil_iff.mpr fun _ _ => rfl

theorem settled_answered_wait (files : Files) (hr : s.run = some r) :
    (s.answered files .wait).filterMap Notice.settled? = [(s.await r).2.1] := by
  simp [answered, awaited, hr, Notice.settled?]

theorem await_of_ended (hended : r.play.result?.isSome = true) : (s.await r).2.1 = r := by
  have huntil := Polled.until_of_ended (p := ⟨s.playback, r, []⟩) hended none
  rw [await, huntil]

/-- A play that has ended is reported before the next line is read. -/
theorem told_of_ended (files : Files) {text : String} (hr : s.run = some r)
    (hended : r.play.result?.isSome = true) :
    (s.told (.line files text)).filterMap Notice.settled? = [r] := by
  have hreaped : s.reaped = [.settled r] := by simp [reaped, hr, hended]
  have hidle : s.reap.1.run = none := by simp [reap, hr, hended]
  rw [told, List.filterMap_append, hreaped]
  refine congrArg ([r] ++ ·) ?_
  cases Console.Registry.builtin.line text with
  | empty => rfl
  | refused e => rfl
  | request request =>
    by_cases hwait : request = .wait
    · subst hwait
      simp [answered, hidle, Notice.settled?]
    · exact settled_answered files _ hwait

theorem told_of_open (files : Files) (text : String) (hr : s.run = some r)
    (hopen : r.play.result? = none) :
    s.reap = (s, []) ∧ s.told (.line files text) =
      match Console.Registry.builtin.line text with
      | .empty => []
      | .refused e => [.other e.message]
      | .request request => s.answered files request := by
  have hreap : s.reap = (s, []) := reap_of_open fun q hq => by
    rw [hr] at hq
    cases hq
    exact hopen
  have hreaped : s.reaped = [] := by simp [reaped, hr, hopen]
  refine ⟨hreap, ?_⟩
  simp only [told, hreap, hreaped]
  rfl

/-- What an input reports of the play that is held, if anything, is the end that it comes to. -/
theorem settled_told (hr : s.run = some r) (input : Input) :
    (s.told input).filterMap Notice.settled? = [] ∨
      (s.told input).filterMap Notice.settled? = [(s.await r).2.1] := by
  cases input with
  | pause ms => exact .inl rfl
  | line files text =>
    cases hended : r.play.result? with
    | some result =>
      have hended' : r.play.result?.isSome = true := by rw [hended]; rfl
      rw [told_of_ended files hr hended', await_of_ended hended']
      exact .inr rfl
    | none =>
      rw [(told_of_open files text hr hended).2]
      cases Console.Registry.builtin.line text with
      | empty => exact .inl rfl
      | refused e => exact .inl rfl
      | request request =>
        by_cases hwait : request = .wait
        · subst hwait
          exact .inr (settled_answered_wait files hr)
        · exact .inl (settled_answered files s hwait)

/-- A line that reports nothing of the play that is held edits something, or nothing. -/
theorem edit_take (files : Files) {text : String} (hr : s.run = some r)
    (hsilent : (s.told (.line files text)).filterMap Notice.settled? = []) :
    ∃ request, Edit s request (s.take (.line files text)).session := by
  have hopen : r.play.result? = none := by
    cases hended : r.play.result? with
    | none => rfl
    | some result =>
      rw [told_of_ended files hr (by rw [hended]; rfl)] at hsilent
      cases hsilent
  obtain ⟨hreap, htold⟩ := told_of_open files text hr hopen
  rw [htold] at hsilent
  cases h : Console.Registry.builtin.line text with
  | empty =>
    simp only [take, handle, h, hreap, say]
    exact ⟨.help, .nothing _⟩
  | refused e =>
    simp only [take, handle, h, hreap, say]
    exact ⟨.help, .nothing _⟩
  | request request =>
    simp only [take, handle, h, hreap]
    simp only [h] at hsilent
    have hwait : request ≠ .wait := by
      rintro rfl
      rw [settled_answered_wait files hr] at hsilent
      cases hsilent
    by_cases hplay : request = .play
    · subst hplay
      refine ⟨.help, ?_⟩
      cases hanswer : s.play with
      | ok reply =>
        obtain ⟨id, hbusy, -⟩ := play_accepts hanswer
        have hnone := run_of_busy hbusy fun q hq => by
          rw [hr] at hq
          cases hq
          exact hopen
        rw [hr] at hnone
        cases hnone
      | error refusal =>
        simp only [reply, answer, hanswer]
        exact .nothing _
    · exact ⟨request, edit_reply hplay hwait⟩

/-! ## The play among the lines -/

theorem begun_edit {request : Console.Request} (h : Begun settings id first es s.playback r)
    (he : Edit s request s') : Begun settings id first es s'.playback r where
  actor_eq := h.actor_eq
  settings_eq := he.settings_eq.trans h.settings_eq
  missing := h.missing
  underway := by
    intro a ha
    rcases he.stage_eq with hsame | ⟨d, hafter, -⟩
    · rw [hsame]
      exact h.underway a ha
    · rw [hafter]
      exact (h.underway a ha).others d

theorem silent_cons {input : Input} {rest : List Input} (h : s.Silent (input :: rest)) :
    (s.told input).filterMap Notice.settled? = [] ∧ (s.take input).session.Silent rest := by
  rw [Silent, toldAll, List.filterMap_append] at h
  exact List.append_eq_nil_iff.mp h

/-- A play that has begun goes on, whatever comes in before it is reported. -/
theorem begun_takeAll {later : List Input} (hr : s.run = some r)
    (h : Begun settings id first es s.playback r) (hsilent : s.Silent later) :
    ∃ r', (s.takeAll later).run = some r' ∧
      Begun settings id first (es ++ s.heard later) (s.takeAll later).playback r' := by
  induction later generalizing s r es with
  | nil =>
    rw [heard, List.append_nil]
    exact ⟨r, hr, h⟩
  | cons input rest ih =>
    obtain ⟨hfirst, hrest⟩ := silent_cons hsilent
    cases input with
    | pause ms =>
      obtain ⟨q, hleads, hpb, hrun, hevents⟩ := leads_elapse hr ms
      have hnext : Begun settings id first (es ++ (s.elapse ms).2) (s.elapse ms).1.playback
          q.inFlight := by
        rw [hpb, hevents]
        exact Begun.leads (p := ⟨s.playback, r, []⟩) (by simpa using h) hleads
      have := ih hrun hnext hrest
      rwa [List.append_assoc] at this
    | line files text =>
      obtain ⟨request, he⟩ := edit_take files hr hfirst
      exact ih (he.frame.1.trans hr) (begun_edit h he) hrest

/-- A session that holds a play which has not had its first turn. -/
structure Waits (settings : Settings) (id : ActorId) (s : Session) (r : InFlight) : Prop where
  run : s.run = some r
  actor_eq : r.actor = id
  play : r.play = .requested id
  active : s.playback.active = none
  settings_eq : s.playback.settings = settings

theorem waits_edit {request : Console.Request} (h : Waits settings id s r)
    (he : Edit s request s') : Waits settings id s' r where
  run := he.frame.1.trans h.run
  actor_eq := h.actor_eq
  play := h.play
  active := he.frame.2.trans h.active
  settings_eq := he.settings_eq.trans h.settings_eq

theorem idle_cons {input : Input} (hr : (s.take input).session.run = some r) (rest : List Input) :
    s.idle (input :: rest) =
      if r.play.isFresh then input :: (s.take input).session.idle rest else [] := by
  simp only [idle, hr, Option.any_some]

/-- Such a play still waits after some inputs that do not report it, or has begun on the stage that
    those before its first turn have led to. -/
theorem waits_takeAll {later : List Input} (h : Waits settings id s r) (hsilent : s.Silent later) :
    (s.idle later = later ∧ s.heard later = [] ∧ ∃ r', Waits settings id (s.takeAll later) r') ∨
    ∃ r', (s.takeAll later).run = some r' ∧
      Begun settings id (s.takeAll (s.idle later)).playback.stage (s.heard later)
        (s.takeAll later).playback r' := by
  induction later generalizing s r with
  | nil => exact .inl ⟨rfl, rfl, r, h⟩
  | cons input rest ih =>
    obtain ⟨hfirst, hrest⟩ := silent_cons hsilent
    -- an input before the first turn is put in front of what comes later
    have hwaits : ∀ {q}, Waits settings id (s.take input).session q →
        s.heard (input :: rest) = (s.take input).session.heard rest →
        (s.idle (input :: rest) = input :: rest ∧ s.heard (input :: rest) = [] ∧
          ∃ r', Waits settings id (s.takeAll (input :: rest)) r') ∨
        ∃ r', (s.takeAll (input :: rest)).run = some r' ∧
          Begun settings id (s.takeAll (s.idle (input :: rest))).playback.stage
            (s.heard (input :: rest)) (s.takeAll (input :: rest)).playback r' := by
      intro q hq hheard
      have hidle : s.idle (input :: rest) = input :: (s.take input).session.idle rest := by
        rw [idle_cons hq.run, hq.play]
        rfl
      rw [hidle, hheard]
      rcases ih hq hrest with ⟨hsame, hnothing, hlater⟩ | hbegun
      · exact .inl ⟨congrArg _ hsame, hnothing, hlater⟩
      · exact .inr hbegun
    cases input with
    | pause ms =>
      obtain ⟨q, hleads, hpb, hrun, hevents⟩ := leads_elapse h.run ms
      rcases begun_leads h.actor_eq h.play h.active hleads with rfl | hbegun
      · refine hwaits (q := r) ⟨hrun, h.actor_eq, h.play, ?_, ?_⟩ ?_
        · exact (congrArg _ hpb).trans h.active
        · exact (congrArg _ hpb).trans h.settings_eq
        · rw [heard, hevents]
          rfl
      · rw [h.settings_eq] at hbegun
        have htaken : (s.take (.pause ms)).session.run = some q.inFlight := hrun
        have hidle : s.idle (.pause ms :: rest) = [] := by
          rw [idle_cons htaken, hbegun.isFresh]
          rfl
        rw [hidle]
        refine .inr (begun_takeAll (s := (s.elapse ms).1) hrun ?_ hrest)
        rw [hpb, hevents]
        exact hbegun
    | line files text =>
      obtain ⟨request, he⟩ := edit_take files h.run hfirst
      exact hwaits (waits_edit h he) rfl

/-- Whoever waits for a play that has not been reported hears the rest of it. -/
theorem begun_await
    (h : Waits settings id s r ∧ first = s.playback.stage ∧ es = [] ∨
      Begun settings id first es s.playback r) :
    Begun settings id first (es ++ (s.await r).2.2) (s.await r).1.playback (s.await r).2.1 := by
  have hleads := Polled.leads_until none ⟨s.playback, r, []⟩
  rcases h with ⟨hwaits, rfl, rfl⟩ | hbegun
  · rcases begun_leads hwaits.actor_eq hwaits.play hwaits.active hleads with hsame | hbegun
    · have hended := s.result_await r
      rw [await, hsame] at hended
      simp [hwaits.play, Play.result?] at hended
    · rw [hwaits.settings_eq] at hbegun
      exact hbegun
  · exact Begun.leads (p := ⟨s.playback, r, []⟩) (by simpa using hbegun) hleads

/-! ## What a play carries out -/

/-- The script that an actor has on this stage is carried out, from the motion that it has there.
    All that is heard are the turns of this one run, which take the actions off the front of its
    course, and this is the report of its end: that the whole course has been done, or that others
    have removed the actor. -/
def CarriedOut (settings : Settings) (id : ActorId) (first : Stage) (a : Actor) (es : List Event)
    (lines : List String) : Prop :=
  let leaves := Script.unrolled a.script
  ∃ turns last halt done,
    Course settings (.start id a.motion a.script) first turns last halt ∧
    Event.seen es = turns.flatMap (fun t => Event.seen t.outcome.events) ∧
    List.Forall₂ (Turn.Performs settings id) turns done ∧
    (halt = .finished (Leaf.carried a.motion leaves) ∧
        done.flatten = Leaf.course settings a.motion leaves ∧
        lines = [Console.outcome id (.completed (Leaf.carried a.motion leaves))] ∨
      halt = .removed ∧ (∃ t ∈ turns, t.before.Removed id t.deeds) ∧
        done.flatten <+: Leaf.course settings a.motion leaves ∧
        lines = [Console.outcome id .cancelled])

theorem carriedOut_of_underway {a : Actor} {stage : Stage}
    (h : Underway settings id first a es stage r) (ha : first.find? id = some a)
    (hactor : r.actor = id) (hended : r.play.result?.isSome = true) :
    CarriedOut settings id first a es (report r) := by
  obtain ⟨turns, last, halt, -, hcourse, -, hplay, hheard⟩ := h
  obtain ⟨done, hall, hleaves⟩ := hcourse.follows
  rw [Run.prospect_start] at hleaves
  refine ⟨turns, last, halt, done, hcourse, hheard, hall, ?_⟩
  cases halt with
  | suspended s =>
    rw [hplay] at hended
    cases hended
  | finished m =>
    simp only [Halt.Leaves, Prospect.mk.injEq, true_and] at hleaves
    obtain ⟨hactions, hfinal⟩ := hleaves
    refine .inl ⟨by rw [hfinal], hactions.symm, ?_⟩
    rw [report, hplay, hactor, hfinal]
    rfl
  | removed =>
    have there : first.contains id = true := by rw [Stage.contains, ha]; rfl
    refine .inr ⟨rfl, hcourse.removed_of_cancelled there, hleaves, ?_⟩
    rw [report, hplay, hactor]
    rfl

theorem settings_change {log : List Notice} (h : Change s log s') :
    s'.playback.settings = s.playback.settings := by
  cases h with
  | clock now room => rfl
  | poll hr => exact s.playback.settings_poll _ _
  | settle hr hended => rfl
  | accept hrun hbusy hselected => rfl
  | edit lines he => exact he.settings_eq

/-- A line that is answered by accepting a play. -/
theorem accepts_of_lines {files : Files} {text : String}
    (hline : Console.Registry.builtin.line text = .request .play)
    (hanswer : (s.take (.line files text)).lines
      = s.reap.2 ++ ["playing actor " ++ toString id]) :
    let s' := (s.take (.line files text)).session
    s.playback.stage.contains id = true ∧ s'.run = some ⟨id, .requested id, s'.now⟩ ∧
      s'.playback = s.playback := by
  simp only [take, handle, hline, reply, answer] at hanswer ⊢
  have hlines := List.append_cancel_left hanswer
  cases hplay : s.reap.1.play with
  | error refusal =>
    rw [hplay] at hlines
    have hfirst := congrArg (fun lines => lines.head?.bind (·.toList.head?)) hlines
    simp at hfirst
  | ok answer =>
    obtain ⟨⟨n⟩, -, -, hthere, hsession, hsaid⟩ := play_accepts hplay
    obtain ⟨m⟩ := id
    simp only [hplay, hsaid, List.cons.injEq, and_true] at hlines
    have hnumber : Nat.repr n = Nat.repr m := (String.append_right_inj _).mp hlines
    rw [← Nat.repr_inj.mp hnumber, ← playback_reap, hsession]
    exact ⟨hthere, rfl, rfl⟩

/-- Time that passes gives a play its first turn. -/
theorem idle_pause (h : Waits settings id s r) (hdue : r.due ≤ s.now) {ms : Nat} (hms : ms ≠ 0)
    (rest : List Input) : s.idle (.pause ms :: rest) = [] := by
  obtain ⟨hrun, -, hplay, -, -⟩ := h
  have hopen : r.play.result? = none := by rw [hplay]; rfl
  have hpolled : (Polled.until (some (s.now + ms)) ⟨s.playback, r, []⟩).inFlight.play.isFresh
      = false := by
    have hlimit : ¬ s.now + ms ≤ r.due := by omega
    rw [Polled.until]
    split
    · simp_all
    · rw [if_neg (by simpa using hlimit)]
      exact Polled.isFresh_leads (Playback.isFresh_poll ..) (Polled.leads_until _ _)
  have hafter : (s.take (.pause ms)).session.run =
      some (Polled.until (some (s.now + ms)) ⟨s.playback, r, []⟩).inFlight := by
    simp only [take, elapse, if_neg hms, hrun]
    rfl
  rw [idle_cons hafter, hpolled]
  rfl

theorem isPrefix_idle (s : Session) (inputs : List Input) : s.idle inputs <+: inputs := by
  induction inputs generalizing s with
  | nil => exact List.prefix_rfl
  | cons input rest ih =>
    rw [idle]
    split
    · exact (List.prefix_cons_inj input).mpr (ih _)
    · exact List.nil_prefix

/-- **What script a play carries out.** Let a line of a session be answered by accepting a play of
an actor, and let nothing be reported until some inputs later. The line leaves the stage as it was,
and the play has its first turn only when time passes next: at once, if that is what comes first.
The script that is carried out and the motion that it starts from are those that the actor has then,
as the lines before the first turn have left them; no line after it changes either. All that is
heard while time passes are the turns of this one run, and the report, whichever input prompts it,
is of its end. A play that does not find its actor is reported as an error. -/
theorem script_captured {settings : Settings} {earlier : List Input}
    (hs : s = (initial settings).1.takeAll earlier) {files : Files} {text : String}
    {later : List Input} (hline : Console.Registry.builtin.line text = .request .play)
    (hanswer : (s.take (.line files text)).lines = s.reap.2 ++ ["playing actor " ++ toString id])
    (hsilent : (s.take (.line files text)).session.Silent later) :
    let accepted := (s.take (.line files text)).session
    let last := accepted.takeAll later
    let first := (accepted.takeAll (accepted.idle later)).playback.stage
    let es := accepted.heard later ++ last.finish.events
    s.playback.stage.contains id = true ∧ accepted.playback.stage = s.playback.stage ∧
    accepted.idle later <+: later ∧
    (∀ ms rest, later = .pause ms :: rest → ms ≠ 0 → accepted.idle later = []) ∧
    (∀ input, (last.told input).filterMap Notice.settled? = [] ∨
      ((last.told input).filterMap Notice.settled?).flatMap report = last.finish.lines) ∧
    (first.find? id = none →
      last.finish.lines = ["error: actor " ++ toString id ++ " not found"] ∧ Event.seen es = []) ∧
    ∀ a, first.find? id = some a → CarriedOut settings id first a es last.finish.lines := by
  intro accepted last first es
  obtain ⟨hthere, hrun, hplayback⟩ := accepts_of_lines hline hanswer
  have hreachable : accepted = (initial settings).1.takeAll (earlier ++ [.line files text]) := by
    rw [takeAll_append, ← hs]
    rfl
  have horderly : accepted.Orderly := hreachable ▸ orderly_takeAll settings _
  have hsettings : accepted.playback.settings = settings := by
    rw [hreachable]
    exact takeAll_keeps (P := fun s => s.playback.settings = settings)
      (fun _ _ _ hs h => (settings_change h).trans hs) rfl _
  have hwaits : Waits settings id accepted ⟨id, .requested id, accepted.now⟩ :=
    ⟨hrun, rfl, rfl, horderly.active_of_run hrun, hsettings⟩
  -- the play as it is when it is reported
  obtain ⟨r, hheld, hbegun⟩ : ∃ r, last.run = some r ∧
      Begun settings id first (accepted.heard later ++ (last.await r).2.2)
        (last.await r).1.playback (last.await r).2.1 := by
    rcases waits_takeAll hwaits hsilent with ⟨hidle, hnothing, r, hr⟩ | ⟨r, hr, hbegun⟩
    · refine ⟨r, hr.run, begun_await (.inl ⟨hr, ?_, hnothing⟩)⟩
      simp only [first, hidle, last]
    · exact ⟨r, hr, begun_await (.inr hbegun)⟩
  have hlines : last.finish.lines = report (last.await r).2.1 := by
    simp only [finish, wait, hheld]
  have hes : es = accepted.heard later ++ (last.await r).2.2 := by
    simp only [es, finish, wait, hheld]
  have hended := last.result_await r
  rw [hes, hlines]
  refine ⟨hthere, congrArg _ hplayback, isPrefix_idle _ _, ?_, ?_, ?_, ?_⟩
  · rintro ms rest rfl hms
    exact idle_pause hwaits (Nat.le_refl _) hms rest
  · intro input
    refine (settled_told hheld input).imp_right fun htold => ?_
    rw [htold, List.flatMap_singleton]
  · intro hmissing
    obtain ⟨hplay, hheard⟩ := hbegun.missing hmissing
    refine ⟨?_, hheard⟩
    rw [report, hplay, hbegun.actor_eq]
    simp only [Play.result?, Option.map_some, Option.toList_some, Console.outcome,
      PlayError.message, List.cons.injEq, and_true]
    rw [show "error: actor " = "error: " ++ "actor " from rfl]
    simp only [String.append_assoc]
  · intro a ha
    exact carriedOut_of_underway (hbegun.underway a ha) ha hbegun.actor_eq hended

/-- A session with a block in the script of its actor, which is about to play. -/
def stepping : Session := (initial .initial).1.takeAll [.line (Folder.read []) "drag 3"]

/-- The block is taken away as soon as the play has been accepted. -/
def emptying : List Input := [.line (Folder.read []) "drop 0"]

theorem silent_emptying :
    (stepping.take (.line (Folder.read []) "play")).session.Silent emptying := rfl

/-- The play carries out nothing. -/
theorem script_captured_emptied :
    let accepted := (stepping.take (.line (Folder.read []) "play")).session
    let last := accepted.takeAll emptying
    ∃ a, last.playback.stage.find? ⟨1⟩ = some a ∧ a.script = [] ∧
      CarriedOut .initial ⟨1⟩ last.playback.stage a (accepted.heard emptying ++ last.finish.events)
        last.finish.lines := by
  intro accepted last
  have hstepping : stepping = (initial .initial).1.takeAll [.line (Folder.read []) "drag 3"] := rfl
  have hplay : Console.Registry.builtin.line "play" = .request .play := rfl
  have hanswer : (stepping.take (.line (Folder.read []) "play")).lines
      = stepping.reap.2 ++ ["playing actor " ++ toString (⟨1⟩ : ActorId)] := rfl
  obtain ⟨-, -, -, -, -, -, hcarried⟩ :=
    script_captured hstepping hplay hanswer silent_emptying
  exact ⟨_, rfl, rfl, hcarried _ rfl⟩

/-- So it does not carry out the script that its actor had when it was accepted. -/
theorem not_carriedOut_emptied :
    let accepted := (stepping.take (.line (Folder.read []) "play")).session
    let last := accepted.takeAll emptying
    ∃ a, stepping.playback.stage.find? ⟨1⟩ = some a ∧ a.script = [.steer (.goTo 0 0)] ∧
      (stepping.take (.line (Folder.read []) "play")).lines = ["playing actor 1"] ∧
      ¬ CarriedOut .initial ⟨1⟩ stepping.playback.stage a
        (accepted.heard emptying ++ last.finish.events) last.finish.lines := by
  intro accepted last
  refine ⟨_, rfl, rfl, rfl, ?_⟩
  have hlines : last.finish.lines = ["actor 1 finished at (50, 50) heading 0°"] := by
    let p : Polled := ⟨last.playback, ⟨⟨1⟩, .requested ⟨1⟩, 0⟩, []⟩
    let m : Motion := ⟨50, 50, 0⟩
    let begun : Playback := { last.playback with active := some ⟨1⟩ }
    let o := (Run.start ⟨1⟩ m []).advance .initial turnRoom last.playback.stage
    have hpoint : o.result.point = .finished m := Run.advance_of_done rfl rfl
    have hpoll : p.playback.poll turnRoom p.inFlight.play = { begun.conclude ⟨1⟩ o with
        events := .runStarted ⟨1⟩ 0 :: (begun.conclude ⟨1⟩ o).events } := rfl
    have hplay : p.next.inFlight.play = .ended (.completed m) := by
      simp only [Polled.next, hpoll, begun.conclude_play ⟨1⟩ o, hpoint]
      rfl
    have huntil : p.until none = p.next := by
      refine Polled.until_once rfl rfl (.inl ?_)
      rw [hplay]
      rfl
    have hreport : last.finish.lines = report (p.until none).inFlight := rfl
    rw [hreport, huntil, report, hplay]
    decide +kernel
  rw [hlines]
  rintro ⟨-, -, -, -, -, -, -, ⟨-, -, hreport⟩ | ⟨-, -, -, hreport⟩⟩
  · revert hreport
    decide +kernel
  · revert hreport
    decide +kernel

end Session

end StagePlay
