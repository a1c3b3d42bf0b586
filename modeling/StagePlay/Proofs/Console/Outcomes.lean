import Mathlib.Data.List.Forall2
import Mathlib.Logic.Relation
import StagePlay.Proofs.Console.Change
import StagePlay.Proofs.Playback.Poll

/-!
# StagePlay.Proofs.Console.Outcomes

Every play that a session accepts is reported once.

A session holds the play that it has accepted last until it has reported the end of it, and it
accepts no other play before. A `Ledger` is what is printed while the play that is held goes from
one to another.

* `Ledger.split`: of the accepted plays all are reported but the one that is held.
* `Session.orderly_change`: the flag of the playback names the actor of the play that is held, and
  what is printed is an entry of the ledger.
* `InFlight.SettledBy.announced`: the report names the actor of the play, word by word.
* `Session.plays_settled`: plays and reports come in pairs, in the same order.
-/

namespace StagePlay

namespace InFlight

/-- A play before and after one poll. -/
def Polls (r r' : InFlight) : Prop := ∃ pb, r' = (Polled.next ⟨pb, r, []⟩).inFlight

/-- The play is for the actor that it was accepted for, and is turned down only if that actor is
    not there. -/
def Sound (r : InFlight) : Prop :=
  match r.play with
  | .requested actor => actor = r.actor
  | .selected => False
  | .suspended s => s.run.actor = r.actor
  | .ended result => ∀ e, result = .refused e → e = .actorNotFound r.actor

/-- The report that ends a play: what has become of the play, in the name of its actor. -/
structure SettledBy (r r' : InFlight) : Prop where
  polls : Relation.ReflTransGen Polls r r'
  outcome : ∃ result, r'.play = .ended result ∧
    Session.report r' = [Console.outcome r.actor result] ∧
    ∀ e, result = .refused e → e = .actorNotFound r.actor

theorem SettledBy.head {r r' r'' : InFlight} (hp : Polls r r') (h : SettledBy r' r'') :
    SettledBy r r'' := by
  obtain ⟨polls, outcome⟩ := h
  refine ⟨.head hp polls, ?_⟩
  obtain ⟨pb, rfl⟩ := hp
  exact outcome

theorem Sound.settledBy {r : InFlight} (h : r.Sound) (hended : r.play.result?.isSome = true) :
    SettledBy r r := by
  cases hplay : r.play with
  | ended result =>
    have hreport : Session.report r = [Console.outcome r.actor result] := by
      simp [Session.report, hplay, Play.result?]
    rw [Sound, hplay] at h
    exact ⟨.refl, result, hplay, hreport, h⟩
  | requested actor => simp [hplay, Play.result?] at hended
  | selected => simp [hplay, Play.result?] at hended
  | suspended s => simp [hplay, Play.result?] at hended

/-- A poll keeps a play sound: while it is waiting for its first poll, no other is under way. -/
theorem Sound.next {pb : Playback} {r : InFlight} (h : r.Sound)
    (ha : pb.active = r.play.runner?) : (Polled.next ⟨pb, r, []⟩).inFlight.Sound := by
  unfold Sound at h ⊢
  simp only [Polled.next]
  cases hplay : r.play with
  | requested actor =>
    simp only [hplay] at h ha ⊢
    subst h
    rw [Playback.poll_of_asked (show Play.asked? pb.selected (.requested r.actor) = _ from rfl)]
    rcases Playback.accept_cases ha turnRoom r.actor with
      ⟨s, hpoint, hrun, -⟩ | ⟨-, ⟨m, hpoint⟩ | hpoint | hpoint⟩ <;> rw [hpoint]
    · exact hrun
    · exact fun e he => nomatch he
    · exact fun e he => nomatch he
    · intro e he
      cases he
      rfl
  | selected => simp [hplay] at h
  | suspended s =>
    simp only [hplay] at h ⊢
    rcases pb.poll_suspended_cases turnRoom s with
      ⟨s', hpoint, hrun, -⟩ | ⟨-, ⟨m, hpoint⟩ | hpoint⟩ <;> rw [hpoint]
    · exact hrun.trans h
    · exact fun e he => nomatch he
    · exact fun e he => nomatch he
  | ended result =>
    simp only [hplay] at h
    exact h

end InFlight

/-- The words that report how a play of an actor has ended. -/
inductive Announced (actor : ActorId) : PlayResult → String → Prop where
  | finished (m : Motion) : Announced actor (.completed m)
      ("actor " ++ toString actor.number ++ " finished at (" ++ Console.number m.x ++ ", " ++
        Console.number m.y ++ ") heading " ++ Console.number m.heading ++ "°")
  | cancelled : Announced actor .cancelled
      ("actor " ++ toString actor.number ++ " was removed; run cancelled")
  | absent : Announced actor (.refused (.actorNotFound actor))
      ("error: actor " ++ toString actor.number ++ " not found")

/-- The report that ends a play is one line, in these words. -/
theorem InFlight.SettledBy.announced {r r' : InFlight} (h : r.SettledBy r') :
    ∃ result line, r'.play = .ended result ∧ Session.report r' = [line] ∧
      Announced r.actor result line := by
  obtain ⟨-, result, hplay, hreport, hrefused⟩ := h
  refine ⟨result, _, hplay, hreport, ?_⟩
  have hname : toString r.actor = toString r.actor.number := rfl
  cases result with
  | completed m =>
    have hplace : " finished at (" = " finished at " ++ "(" := rfl
    have hheading : ") heading " = ")" ++ " heading " := rfl
    have hfinished : Announced r.actor _ _ := .finished m
    simp only [hplace, hheading, String.append_assoc] at hfinished
    simpa only [Console.outcome, Console.motion, Console.place, Motion.place, hname,
      String.append_assoc] using hfinished
  | cancelled => exact .cancelled
  | refused e =>
    have herror : "error: actor " = "error: " ++ "actor " := rfl
    have habsent : Announced r.actor _ _ := .absent
    rw [herror] at habsent
    simp only [String.append_assoc] at habsent
    rw [hrefused e rfl]
    simpa only [Console.outcome, PlayError.message, hname, String.append_assoc] using habsent

/-! ## Ledgers -/

/-- What is printed while the play that is held goes from one to another. -/
inductive Ledger : Option InFlight → List Notice → Option InFlight → Prop where
  | nil {held : Option InFlight} : Ledger held [] held
  | polled {r r' : InFlight} {held : Option InFlight} {log : List Notice} :
      r.Polls r' → Ledger (some r') log held → Ledger (some r) log held
  | other {held held' : Option InFlight} {log : List Notice} (line : String) :
      Ledger held log held' → Ledger held (.other line :: log) held'
  | accepted {r : InFlight} {held : Option InFlight} {log : List Notice} :
      r.play = .requested r.actor → Ledger (some r) log held →
      Ledger none (.accepted r :: log) held
  | settled {r : InFlight} {held : Option InFlight} {log : List Notice} :
      r.SettledBy r → Ledger none log held → Ledger (some r) (.settled r :: log) held

namespace Ledger

variable {held held' held'' : Option InFlight} {log log' : List Notice}

theorem append (h : Ledger held log held') (h' : Ledger held' log' held'') :
    Ledger held (log ++ log') held'' := by
  induction h with
  | nil => exact h'
  | polled hp _ ih => exact .polled hp (ih h')
  | other line _ ih => exact .other line (ih h')
  | accepted hf _ ih => exact .accepted hf (ih h')
  | settled hs _ ih => exact .settled hs (ih h')

theorem others (held : Option InFlight) (lines : List String) :
    Ledger held (lines.map .other) held := by
  induction lines with
  | nil => exact .nil
  | cons line rest ih => exact .other line ih

/-- The plays that have been accepted are the ones that are reported, in the same order, and after
    them the one that is held. -/
theorem split (h : Ledger held log held') :
    ∃ reported pending, held.toList ++ log.filterMap Notice.accepted? = reported ++ pending ∧
      List.Forall₂ InFlight.SettledBy reported (log.filterMap Notice.settled?) ∧
      List.Forall₂ (Relation.ReflTransGen InFlight.Polls) pending held'.toList := by
  induction h with
  | @nil held =>
    refine ⟨[], held.toList, List.append_nil _, .nil, ?_⟩
    cases held with
    | none => exact .nil
    | some r => exact .cons .refl .nil
  | @polled r r' _ _ hp _ ih =>
    obtain ⟨reported, pending, haccepted, hsettled, hpending⟩ := ih
    -- the poll belongs to the first of them, which is reported or still held
    cases reported with
    | nil =>
      rw [List.nil_append] at haccepted
      rw [← haccepted] at hpending
      obtain ⟨r'', rest, hpolls, hrest, hheld⟩ := List.forall₂_cons_left_iff.mp hpending
      exact ⟨[], r :: _, rfl, hsettled, hheld ▸ .cons (.head hp hpolls) hrest⟩
    | cons first reported =>
      obtain ⟨rfl, hlater⟩ := List.cons_eq_cons.mp haccepted
      obtain ⟨r'', rest, hfirst, hrest, hlog⟩ := List.forall₂_cons_left_iff.mp hsettled
      exact ⟨r :: reported, pending, congrArg (r :: ·) hlater,
        hlog ▸ .cons (hfirst.head hp) hrest, hpending⟩
  | other line _ ih => exact ih
  | accepted _ _ ih => exact ih
  | @settled r _ _ hs _ ih =>
    obtain ⟨reported, pending, haccepted, hsettled, hpending⟩ := ih
    exact ⟨r :: reported, pending, congrArg (r :: ·) haccepted, .cons hs hsettled, hpending⟩

theorem pairs (h : Ledger held log held') (hclosed : held' = none) :
    List.Forall₂ InFlight.SettledBy (held.toList ++ log.filterMap Notice.accepted?)
      (log.filterMap Notice.settled?) := by
  obtain ⟨reported, pending, haccepted, hsettled, hpending⟩ := h.split
  rw [hclosed] at hpending
  obtain rfl := List.forall₂_nil_right_iff.mp hpending
  rw [haccepted, List.append_nil]
  exact hsettled

/-- A play that is held is what polls have made of the one that was accepted last; all before it
    have been reported. -/
theorem last_accepted {r' : InFlight} (h : Ledger held log held') (hheld : held' = some r') :
    ∃ before r, held.toList ++ log.filterMap Notice.accepted? = before ++ [r] ∧
      (log.filterMap Notice.settled?).length = before.length ∧
      Relation.ReflTransGen InFlight.Polls r r' := by
  obtain ⟨reported, pending, haccepted, hsettled, hpending⟩ := h.split
  rw [hheld] at hpending
  obtain ⟨r, rest, hpolls, hrest, rfl⟩ := List.forall₂_cons_right_iff.mp hpending
  obtain rfl := List.forall₂_nil_right_iff.mp hrest
  exact ⟨reported, r, haccepted, hsettled.length_eq.symm, hpolls⟩

theorem requested (h : Ledger held log held') :
    ∀ r ∈ log.filterMap Notice.accepted?, r.play = .requested r.actor := by
  induction h with
  | nil => exact fun r hr => nomatch hr
  | polled _ _ ih => exact ih
  | other line _ ih => exact ih
  | accepted hf _ ih =>
    intro r hr
    rcases List.mem_cons.mp hr with rfl | hr
    · exact hf
    · exact ih r hr
  | settled _ _ ih => exact ih

/-- At every moment all plays but the last have been reported, and no report comes early. -/
theorem balance (h : Ledger held log held') (n : Nat) :
    ((log.take n).filterMap Notice.settled?).length ≤
        held.toList.length + ((log.take n).filterMap Notice.accepted?).length ∧
      held.toList.length + ((log.take n).filterMap Notice.accepted?).length ≤
        ((log.take n).filterMap Notice.settled?).length + 1 := by
  induction h generalizing n with
  | @nil held => cases held <;> simp
  | polled _ _ ih => exact ih n
  | @other held held' log line _ ih =>
    cases n with
    | zero => exact ih 0
    | succ n => exact ih n
  | accepted _ _ ih =>
    cases n with
    | zero => simp
    | succ n =>
      have := ih n
      simp only [List.take_succ_cons, List.filterMap_cons, Notice.accepted?, Notice.settled?,
        List.length_cons, Option.toList_some, Option.toList_none, List.length_nil] at this ⊢
      omega
  | settled _ _ ih =>
    cases n with
    | zero => simp
    | succ n =>
      have := ih n
      simp only [List.take_succ_cons, List.filterMap_cons, Notice.accepted?, Notice.settled?,
        List.length_cons, Option.toList_some, Option.toList_none, List.length_nil] at this ⊢
      omega

end Ledger

namespace Session

/-- The flag of the playback names the actor of the play that is held, and the play is sound. -/
structure Orderly (s : Session) : Prop where
  active : s.playback.active = s.run.bind (·.play.runner?)
  sound : ∀ r, s.run = some r → r.Sound

theorem orderly_initial (settings : Settings) : (initial settings).1.Orderly where
  active := rfl
  sound := fun _ h => nomatch h

theorem Edit.frame {s s' : Session} {request : Console.Request} (h : Edit s request s') :
    s'.run = s.run ∧ s'.playback.active = s.playback.active := by
  cases h with
  | nothing => exact ⟨rfl, rfl⟩
  | addActor name => exact ⟨rfl, rfl⟩
  | removeActor hr =>
    simp only [Playback.removeActor?, Option.map_eq_some_iff] at hr
    obtain ⟨stage, -, rfl⟩ := hr
    exact ⟨rfl, rfl⟩
  | select hs =>
    unfold Playback.select? at hs
    split at hs <;> cases hs
    exact ⟨rfl, rfl⟩
  | palette _ => exact ⟨rfl, rfl⟩
  | deed _ => exact ⟨rfl, rfl⟩

theorem Orderly.active_of_run {s : Session} (hs : s.Orderly) {r : InFlight} (h : s.run = some r) :
    s.playback.active = r.play.runner? := by rw [hs.active, h, Option.bind_some]

/-- A change of an orderly session is an entry of the ledger, and leaves the session orderly. -/
theorem orderly_change {s s' : Session} {log : List Notice} (hs : s.Orderly)
    (h : Change s log s') : s'.Orderly ∧ Ledger s.run log s'.run := by
  cases h with
  | clock now room => exact ⟨⟨hs.active, hs.sound⟩, .nil⟩
  | @poll r hr =>
    have ha := hs.active_of_run hr
    refine ⟨⟨Playback.active_poll ha, ?_⟩, ?_⟩
    · intro r' hr'
      cases hr'
      exact (hs.sound r hr).next ha
    · rw [hr]
      exact .polled ⟨s.playback, rfl⟩ .nil
  | @settle r hr hended =>
    have ha := hs.active_of_run hr
    have hidle : r.play.runner? = none := by
      cases hplay : r.play <;> simp [hplay, Play.result?, Play.runner?] at hended ⊢
    refine ⟨⟨ha.trans hidle, fun _ h => by cases h⟩, ?_⟩
    rw [hr]
    exact .settled ((hs.sound r hr).settledBy hended) .nil
  | @accept id hrun hbusy hselected =>
    have ha : s.playback.active = none := by rw [hs.active, hrun, Option.bind_none]
    refine ⟨⟨ha, ?_⟩, ?_⟩
    · intro r hr
      cases hr
      rfl
    · rw [hrun]
      exact .accepted rfl .nil
  | edit lines he =>
    obtain ⟨hrun, hactive⟩ := he.frame
    refine ⟨⟨by rw [hactive, hrun, hs.active], by rw [hrun]; exact hs.sound⟩, ?_⟩
    rw [hrun]
    exact .others s.run lines

theorem orderly_changes {s s' : Session} {log : List Notice} (hs : s.Orderly)
    (h : Changes s log s') : s'.Orderly ∧ Ledger s.run log s'.run := by
  induction h with
  | refl => exact ⟨hs, .nil⟩
  | cons hc _ ih =>
    obtain ⟨horderly, hledger⟩ := orderly_change hs hc
    obtain ⟨horderly', hledger'⟩ := ih horderly
    exact ⟨horderly', hledger.append hledger'⟩

theorem orderly_takeAll (settings : Settings) (inputs : List Input) :
    ((initial settings).1.takeAll inputs).Orderly :=
  takeAll_keeps (fun _ _ _ hs h => (orderly_change hs h).1) (orderly_initial settings) inputs

theorem run_closed (s : Session) (inputs : List Input) : (s.closed inputs).run = none := by
  unfold closed finish
  split
  · rename_i h
    exact h
  · rename_i r h
    simp [wait, h, await]

/-- **Every accepted play is reported once.** Whatever lines a session is given, with whatever time
between them, until it is ended: all that is printed is told by its notices. Its acceptances and
its reports come in pairs, in the same order: a play that nobody has polled yet, and what polls
have made of this play. The report is one line, which says in the name of the actor that the play
was accepted for where it has finished or that it was cancelled, or else that this actor was not
found. At every moment at most the last play is without its report, and no report comes before its
play. In the end no play is under way. -/
theorem plays_settled (settings : Settings) (inputs : List Input) :
    let s := (initial settings).1
    let log := s.account inputs
    log.flatMap Notice.lines = s.printed inputs ∧
    List.Forall₂ (fun r r' => r.play = .requested r.actor ∧ r.SettledBy r' ∧
        ∃ result line, r'.play = .ended result ∧ report r' = [line] ∧
          Announced r.actor result line)
      (log.filterMap Notice.accepted?) (log.filterMap Notice.settled?) ∧
    (∀ n, ((log.take n).filterMap Notice.settled?).length ≤
        ((log.take n).filterMap Notice.accepted?).length ∧
      ((log.take n).filterMap Notice.accepted?).length ≤
        ((log.take n).filterMap Notice.settled?).length + 1) ∧
    (s.closed inputs).run = none ∧ (s.closed inputs).playback.active = none := by
  intro s log
  obtain ⟨horderly, hledger⟩ :=
    orderly_changes (orderly_initial settings) (changes_account s inputs)
  have hclosed := run_closed s inputs
  have hsettled := (hledger.pairs hclosed).imp fun r r' h => And.intro h h.announced
  have hpairs := (List.forall₂_and_left _ _).mpr ⟨hledger.requested, hsettled⟩
  refine ⟨lines_account s inputs, hpairs, ?_, hclosed, ?_⟩
  · intro n
    have := hledger.balance n
    simp only [show (initial settings).1.run = none from rfl, Option.toList_none, List.length_nil,
      Nat.zero_add] at this
    exact this
  · rw [horderly.active, hclosed, Option.bind_none]

end Session

end StagePlay
