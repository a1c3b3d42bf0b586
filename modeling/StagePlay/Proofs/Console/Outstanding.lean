import StagePlay.Proofs.Console.Captured

/-!
# StagePlay.Proofs.Console.Outstanding

Two things tell that a play is under way: the flag of the playback, which a play takes at its first
poll, and the play that the session holds. Between them a session always knows of the play that is
outstanding, and of no other.

* `Orderly.busy?_iff`: a session is busy with the play that it holds until this play has ended.
* `outstanding_exact`: what the flag, a line that asks for a play and a line that asks for the
  status tell of, in every session.
-/

namespace StagePlay

open Relation (ReflTransGen)
open InFlight (Polls SettledBy)

/-- The message of a busy playback can be told from every other, and names the actor. -/
theorem PlayError.message_eq_busy_iff {e : PlayError} {a : ActorId} :
    e.message = (PlayError.busy a).message ↔ e = .busy a := by
  refine ⟨fun h => ?_, fun h => by rw [h]⟩
  have hlast := congrArg (fun line => line.toList.getLast?) h
  cases e with
  | busy b =>
    obtain ⟨n⟩ := a
    obtain ⟨m⟩ := b
    have hnumber : "actor " ++ Nat.repr m = "actor " ++ Nat.repr n :=
      (String.append_left_inj _).mp h
    rw [Nat.repr_inj.mp ((String.append_right_inj _).mp hnumber)]
  | actorNotFound id => simp [message, List.getLast?_cons, List.getLast?_append] at hlast
  | noActorSelected => simp [message, List.getLast?_cons, List.getLast?_append] at hlast

namespace InFlight

/-- A play for an actor of its own is not turned down for another. -/
theorem Sound.not_busy {r : InFlight} (h : r.Sound) (a : ActorId) :
    r.play ≠ .ended (.refused (.busy a)) := by
  intro hplay
  rw [Sound, hplay] at h
  cases h _ rfl

theorem not_busy_of_settledBy {plays reports : List InFlight}
    (h : List.Forall₂ SettledBy plays reports) :
    ∀ r ∈ reports, ∀ a, r.play ≠ .ended (.refused (.busy a)) := by
  have hboth : List.Forall₂ (fun r first => (∀ a, r.play ≠ .ended (.refused (.busy a))) ∧
      SettledBy first r) reports plays := by
    refine h.flip.imp fun r first hr => ⟨?_, hr⟩
    obtain ⟨result, hplay, -, hrefused⟩ := hr.outcome
    intro a hbusy
    rw [hplay] at hbusy
    cases hbusy
    cases hrefused _ rfl
  exact ((List.forall₂_and_left _ _).mp hboth).1

end InFlight

namespace Session

open InFlight (not_busy_of_settledBy)

variable {s : Session} {r : InFlight} {a : ActorId}

/-! ## Who is busy -/

/-- A play that is held, and whose script has not ended: its next turn is to come. -/
structure Outstanding (s : Session) (r : InFlight) : Prop where
  held : s.run = some r
  unfinished : r.play.result? = none
  ahead : s.now ≤ r.due

/-- A play that has been accepted makes a session busy before its first poll as well as after. -/
theorem Orderly.busy?_iff (hs : s.Orderly) :
    s.busy? = some a ↔ ∃ r, s.run = some r ∧ r.actor = a ∧ r.play.result? = none := by
  refine ⟨hs.run_of_busy, ?_⟩
  rintro ⟨r, hr, rfl, hopen⟩
  have hactive := hs.active_of_run hr
  have hsound := hs.sound r hr
  obtain ⟨actor, play, due⟩ := r
  cases play with
  | requested b =>
    have hidle : s.playback.active = none := hactive
    simp [busy?, hidle, hr, Play.result?]
  | selected => exact hsound.elim
  | suspended p =>
    have hflag : s.playback.active = some p.run.actor := hactive
    have hactor : p.run.actor = actor := hsound
    simp [busy?, hflag, hactor]
  | ended result => cases hopen

theorem busy?_reap (s : Session) : s.reap.1.busy? = s.busy? := by
  cases hr : s.run with
  | none => simp [reap, hr]
  | some r =>
    cases hended : r.play.result?.isSome with
    | true =>
      have hnone : r.play.result?.isNone = false := by simpa using hended
      simp [reap, hr, hended, busy?, spend, Option.filter, hnone]
    | false => simp [reap, hr, hended]

/-! ## What the lines tell -/

theorem play_eq_busy_iff : s.play = .error (.play (.busy a)) ↔ s.busy? = some a := by
  refine ⟨fun h => busy?_of_reports (.inr (.inr h)), fun h => ?_⟩
  simp [play, h]

/-- A play is turned down by the playback, not by the stage, the palette or a script. -/
theorem exists_of_play_eq_error {refusal : Refusal} (h : s.play = .error refusal) :
    ∃ e, refusal = .play e := by
  unfold play at h
  split at h
  · cases h
    exact ⟨_, rfl⟩
  · cases hselected : s.playback.selected with
    | none =>
      simp only [chosen, hselected, bind, Except.bind] at h
      cases h
      exact ⟨_, rfl⟩
    | some id =>
      simp only [chosen, hselected, bind, Except.bind] at h
      split at h <;> cases h
      exact ⟨_, rfl⟩

/-- The answer to a request for a play tells of a busy playback only if the session is busy. -/
theorem lines_reply_play_iff (files : Files) (s : Session) (a : ActorId) :
    (s.reply files .play).lines = ["error: " ++ (PlayError.busy a).message] ↔
      s.busy? = some a := by
  rw [← play_eq_busy_iff]
  cases h : s.play with
  | error refusal =>
    obtain ⟨e, rfl⟩ := exists_of_play_eq_error h
    simp [reply, answer, h, Refusal.message, PlayError.message_eq_busy_iff]
  | ok accepted =>
    obtain ⟨id, -, -, -, -, hlines⟩ := play_accepts h
    have hfirst : "playing actor " ++ toString id ≠ "error: " ++ (PlayError.busy a).message := by
      intro heq
      have := congrArg (fun line => line.toList.head?) heq
      simp at this
    simp [reply, answer, h, hlines, hfirst]

/-- The first line of the status names the actor that the session is busy with. -/
theorem statusLines_iff (s : Session) :
    ∃ first second, s.statusLines = [first, second] ∧
      (∀ a : ActorId, first = "playing actor " ++ toString a ↔ s.busy? = some a) ∧
      (first = "idle" ↔ s.busy? = none) := by
  refine ⟨_, _, rfl, ?_, ?_⟩
  · intro a
    refine ⟨fun h => busy?_of_reports (.inr (.inl ?_)), fun h => by rw [h]⟩
    rw [← h]
    rfl
  · cases h : s.busy? with
    | none => simp
    | some a =>
      have hfirst : "playing actor " ++ toString a ≠ "idle" := by
        intro heq
        have := congrArg (fun line => line.toList.head?) heq
        simp at this
      simp [hfirst]

/-! ## The play that is outstanding -/

/-- A session is busy with the play that is outstanding, and with no other. -/
theorem busy?_takeAll_iff (settings : Settings) (inputs : List Input) (a : ActorId) :
    let s := (initial settings).1.takeAll inputs
    s.busy? = some a ↔ ∃ r, s.Outstanding r ∧ r.actor = a := by
  intro s
  rw [(orderly_takeAll settings inputs).busy?_iff]
  constructor
  · rintro ⟨r, hr, rfl, hopen⟩
    exact ⟨r, ⟨hr, hopen, (attended settings inputs hr hopen).now_le⟩, rfl⟩
  · rintro ⟨r, h, rfl⟩
    exact ⟨r, h.held, rfl, h.unfinished⟩

/-- As long as a play is outstanding no other is accepted. -/
theorem Outstanding.told (hs : s.Orderly) (h : s.Outstanding r) (input : Input) :
    (s.told input).filterMap Notice.accepted? = [] := by
  cases input with
  | pause ms => rfl
  | line files text =>
    rw [(told_of_open files text h.held h.unfinished).2]
    cases Console.Registry.builtin.line text with
    | empty => rfl
    | refused e => rfl
    | request request =>
      by_cases hplay : request = .play
      · have hbusy : s.play = .error (.play (.busy r.actor)) :=
          play_eq_busy_iff.mpr (hs.busy?_iff.mpr ⟨r, h.held, rfl, h.unfinished⟩)
        simp [hplay, answered, hbusy, Notice.accepted?]
      by_cases hwait : request = .wait
      · simp [hwait, answered, awaited, h.held, Notice.accepted?]
      simp only [answered_of_ne hplay hwait, List.filterMap_map]
      exact List.filterMap_eq_nil_iff.mpr fun _ _ => rfl

/-- **What a session knows of the play that is outstanding.** Whatever lines a session is given,
with whatever time between them: of the plays that have been accepted, all are reported but the last
at most, and this is the play that is held. If the flag of the playback names an actor, the play
that is held is of this actor and has not ended. A line that asks for a play is told that an actor
is playing if, and only if, a play of this actor has been accepted and has not ended, whether it has
been polled or not, and the status tells of the same actor. Until this play has ended no other is
accepted. No play ends because another was under way. -/
theorem outstanding_exact (settings : Settings) (inputs : List Input) :
    let s := (initial settings).1.takeAll inputs
    let log := (initial settings).1.toldAll inputs
    (∃ reported pending, log.filterMap Notice.accepted? = reported ++ pending ∧
      List.Forall₂ SettledBy reported (log.filterMap Notice.settled?) ∧
      List.Forall₂ (fun first r => first.play = .requested r.actor ∧ ReflTransGen Polls first r)
        pending s.run.toList) ∧
    (∀ a, s.playback.active = some a → ∃ r, s.Outstanding r ∧ r.actor = a) ∧
    (∀ files text, Console.Registry.builtin.line text = .request .play → ∀ a,
      (s.take (.line files text)).lines = s.reap.2 ++ ["error: " ++ (PlayError.busy a).message] ↔
        ∃ r, s.Outstanding r ∧ r.actor = a) ∧
    (∀ files text, Console.Registry.builtin.line text = .request .status →
      ∃ first second, (s.take (.line files text)).lines = s.reap.2 ++ [first, second] ∧
        (∀ a : ActorId, first = "playing actor " ++ toString a ↔
          ∃ r, s.Outstanding r ∧ r.actor = a) ∧
        (first = "idle" ↔ ¬ ∃ r, s.Outstanding r)) ∧
    (∀ input, (∃ r, s.Outstanding r) → (s.told input).filterMap Notice.accepted? = []) ∧
    (∀ r, r ∈ log.filterMap Notice.settled? ∨ s.run = some r →
      ∀ a, r.play ≠ .ended (.refused (.busy a))) := by
  intro s log
  obtain ⟨horderly, hledger⟩ :=
    orderly_changes (orderly_initial settings) (changes_toldAll (initial settings).1 inputs)
  have hbusy : ∀ a, s.busy? = some a ↔ ∃ r, s.Outstanding r ∧ r.actor = a :=
    busy?_takeAll_iff settings inputs
  obtain ⟨reported, pending, haccepted, hsettled, hpending⟩ := hledger.split
  replace haccepted : log.filterMap Notice.accepted? = reported ++ pending := haccepted
  refine ⟨⟨reported, pending, haccepted, hsettled, ?_⟩, ?_, ?_, ?_, ?_, ?_⟩
  · have hrequested : ∀ first ∈ pending, first.play = .requested first.actor := by
      intro first hfirst
      refine hledger.requested first ?_
      exact haccepted ▸ List.mem_append_right reported hfirst
    refine ((List.forall₂_and_left _ _).mpr ⟨hrequested, hpending⟩).imp ?_
    rintro first r ⟨hplay, hpolls⟩
    exact ⟨by rw [actor_of_polls hpolls, hplay], hpolls⟩
  · intro a ha
    exact (hbusy a).mp (busy?_of_reports (.inl ha))
  · intro files text hline a
    rw [← hbusy, ← busy?_reap, ← lines_reply_play_iff files]
    simp [take, handle, hline]
  · intro files text hline
    obtain ⟨first, second, hlines, hfirst, hidle⟩ := statusLines_iff s.reap.1
    rw [busy?_reap] at hfirst hidle
    refine ⟨first, second, ?_, fun a => (hfirst a).trans (hbusy a), ?_⟩
    · rw [← hlines]
      simp [take, handle, hline, reply, answer, say]
    · rw [hidle, Option.eq_none_iff_forall_ne_some]
      simp [hbusy]
  · rintro input ⟨r, hr⟩
    exact hr.told horderly input
  · rintro r (hr | hr)
    · exact not_busy_of_settledBy hsettled r hr
    · exact (horderly.sound r hr).not_busy

/-- A play that nobody has polled yet turns down the next one, and the status tells of it. -/
theorem outstanding_exact_waiting :
    (waiting.take (.line (Folder.read []) "play")).lines
      = ["error: actor 1 is already playing; wait for it to finish"] ∧
    (waiting.take (.line (Folder.read []) "status")).lines
      = ["playing actor 1", "selected actor 1"] ∧
    waiting.playback.active = none ∧
    ∃ r, waiting.Outstanding r ∧ r.play = .requested ⟨1⟩ := by
  obtain ⟨-, -, hplay, -, -, -⟩ := outstanding_exact .initial
    [.line (Folder.read []) "drag 5", .line (Folder.read []) "play"]
  have hrefused : (waiting.take (.line (Folder.read []) "play")).lines
      = ["error: actor 1 is already playing; wait for it to finish"] := rfl
  obtain ⟨r, hr, -⟩ := (hplay (Folder.read []) "play" rfl ⟨1⟩).mp hrefused
  refine ⟨hrefused, rfl, rfl, r, hr, ?_⟩
  have hheld := hr.held
  cases hheld
  rfl

end Session

end StagePlay
