import StagePlay.Proofs.Console.Departure

/-!
# StagePlay.Proofs.Console.Cancellation

How the play of an actor is reported that is removed while the play is under way.

* `Deserted.settled`, `account_removes`: a play without its actor ends as it has to, and its end is
  the next that is reported.
* `removal_reported`: the report calls the play cancelled, unless the actor was removed before the
  play had its first turn.
-/

namespace StagePlay

open Relation (ReflTransGen)
open InFlight (Polls)

variable {r r' : InFlight}

theorem InFlight.Polls.actor_eq (h : Polls r r') : r'.actor = r.actor := by
  obtain ⟨pb, rfl⟩ := h
  rfl

theorem actor_of_polls (h : ReflTransGen Polls r r') : r'.actor = r.actor := by
  induction h with
  | refl => rfl
  | tail _ hp ih => exact hp.actor_eq.trans ih

namespace Session

variable {s s' : Session} {log : List Notice}

/-! ## After the removal -/

theorem Change.stage_eq (h : Change s log s') :
    s'.playback.stage.Alike s.playback.stage ∨
      ∃ d, s'.playback.stage = s.playback.stage.after d := by
  cases h with
  | clock now room => exact .inl (.refl _)
  | @poll r hr => exact .inl (s.playback.alike_poll turnRoom r.play)
  | settle hr hended => exact .inl (.refl _)
  | accept hrun hbusy hselected => exact .inl (.refl _)
  | edit lines he =>
    rcases he.stage_eq with hsame | ⟨d, hafter, -⟩
    · exact .inl (hsame ▸ .refl _)
    · exact .inr ⟨d, hafter⟩

theorem numbered_change (hs : s.playback.stage.Numbered Stage.numberLimit)
    (h : Change s log s') : s'.playback.stage.Numbered Stage.numberLimit := by
  rcases h.stage_eq with halike | ⟨d, hafter⟩
  · exact hs.congr halike
  · rw [hafter]
    exact hs.after_limit d

theorem lastNumber_changes (hs : s.playback.stage.Numbered Stage.numberLimit)
    (h : Changes s log s') : s.playback.stage.lastNumber ≤ s'.playback.stage.lastNumber := by
  induction h with
  | refl => exact Nat.le_refl _
  | cons hc _ ih =>
    refine Nat.le_trans ?_ (ih (numbered_change hs hc))
    rcases hc.stage_eq with halike | ⟨d, hafter⟩
    · exact Nat.le_of_eq halike.2.symm
    · rw [hafter]
      exact hs.lastNumber_le d

/-- A session that holds a play whose actor has left for good; when it left, the play was `r`. -/
structure Deserted (r : InFlight) (s : Session) (r' : InFlight) : Prop where
  run : s.run = some r'
  bereft : r.Bereft s.playback r'
  absent : s.playback.stage.Absent r.actor
  numbered : s.playback.stage.Numbered Stage.numberLimit

/-- Such a session reports the end of the play, or goes on holding it and reports nothing. -/
theorem Deserted.change (h : Deserted r s r') (hc : Change s log s')
    (hleft : s'.playback.stage.lastNumber < Stage.numberLimit) :
    (log = [.settled r'] ∧ r'.play.result?.isSome = true) ∨
      (log.filterMap Notice.settled? = [] ∧
        ∃ r'', Deserted r s' r'' ∧ ReflTransGen Polls r' r'') := by
  have hnumbered := numbered_change h.numbered hc
  have habsent : s'.playback.stage.Absent r.actor := by
    rcases hc.stage_eq with halike | ⟨d, hafter⟩
    · exact h.absent.congr halike
    · rw [hafter] at hleft ⊢
      exact h.absent.after_limit h.numbered hleft
  cases hc with
  | clock now room => exact .inr ⟨rfl, r', ⟨h.run, h.bereft, habsent, hnumbered⟩, .refl⟩
  | @poll q hq =>
    rw [h.run] at hq
    cases hq
    exact .inr ⟨rfl, _, ⟨rfl, h.bereft.next, habsent, hnumbered⟩, .single ⟨s.playback, rfl⟩⟩
  | @settle q hq hended =>
    rw [h.run] at hq
    cases hq
    exact .inl ⟨rfl, hended⟩
  | accept hrun =>
    rw [h.run] at hrun
    cases hrun
  | edit lines he =>
    obtain ⟨hrun, hactive⟩ := he.frame
    refine .inr ⟨?_, r', ⟨hrun.trans h.run, ⟨habsent.gone, ?_, h.bereft.sound, h.bereft.expires⟩,
      habsent, hnumbered⟩, .refl⟩
    · rw [List.filterMap_map]
      exact List.filterMap_eq_nil_iff.mpr fun _ _ => rfl
    · rw [hactive]
      exact h.bereft.active

/-- **The end of a deserted play.** -/
theorem Deserted.settled (h : Deserted r s r') (hc : Changes s log s')
    (hleft : s'.playback.stage.lastNumber < Stage.numberLimit) (hclosed : s'.run = none) :
    ∃ r'', (log.filterMap Notice.settled?).head? = some r'' ∧ ReflTransGen Polls r' r'' ∧
      r.Expires r'' ∧ r''.play.result?.isSome = true := by
  induction hc generalizing r' with
  | refl =>
    rw [h.run] at hclosed
    cases hclosed
  | @cons s t u log log' hc hrest ih =>
    have hlater := lastNumber_changes (numbered_change h.numbered hc) hrest
    rcases h.change hc (Nat.lt_of_le_of_lt hlater hleft) with
      ⟨rfl, hended⟩ | ⟨hsilent, r'', hnext, hpolls⟩
    · exact ⟨r', rfl, .refl, h.bereft.expires, hended⟩
    · obtain ⟨q, hfirst, hpolls', hexpires, hended⟩ := ih hnext hleft hclosed
      refine ⟨q, ?_, hpolls.trans hpolls', hexpires, hended⟩
      rw [List.filterMap_append, hsilent, List.nil_append, hfirst]

/-! ## The removal -/

/-- What is printed for some inputs. -/
def toldAll (s : Session) : List Input → List Notice
  | [] => []
  | input :: rest => s.told input ++ (s.take input).session.toldAll rest

theorem account_append (s : Session) (earlier later : List Input) :
    s.account (earlier ++ later) = s.toldAll earlier ++ (s.takeAll earlier).account later := by
  induction earlier generalizing s with
  | nil => rfl
  | cons input rest ih =>
    rw [List.cons_append, account, ih, toldAll, List.append_assoc]
    rfl

theorem toldAll_append (s : Session) (earlier later : List Input) :
    s.toldAll (earlier ++ later) = s.toldAll earlier ++ (s.takeAll earlier).toldAll later := by
  induction earlier generalizing s with
  | nil => rfl
  | cons input rest ih =>
    rw [List.cons_append, toldAll, ih, toldAll, List.append_assoc]
    rfl

theorem changes_toldAll (s : Session) (inputs : List Input) :
    Changes s (s.toldAll inputs) (s.takeAll inputs) := by
  induction inputs generalizing s with
  | nil => exact .refl
  | cons input rest ih => exact (changes_take s input).trans (ih _)

/-- A line that removes the actor of the play that is held. -/
theorem take_removes (files : Files) {text : String} (hs : s.Orderly)
    (hnumbered : s.playback.stage.Numbered Stage.numberLimit) (hrun : s.run = some r)
    (hopen : r.play.result? = none)
    (hline : Console.Registry.builtin.line text = .request (.removeActor r.actor))
    (there : s.playback.stage.contains r.actor = true) :
    s.told (.line files text) = [.other ("removed actor " ++ toString r.actor)] ∧
      Deserted r (s.take (.line files text)).session r := by
  have hreap : s.reap = (s, []) := by
    refine reap_of_open fun q hq => ?_
    rw [hrun] at hq
    cases hq
    exact hopen
  have hreaped : s.reaped = [] := by simp [reaped, hrun, hopen]
  have hremove : s.playback.stage.remove? r.actor
      = some (s.playback.stage.after (.remove r.actor)) := by
    simp [Stage.after, Stage.remove?, there]
  obtain ⟨removed, hremoved, hstage⟩ : ∃ removed, s.playback.removeActor? r.actor = some removed ∧
      removed.playback.stage = s.playback.stage.after (.remove r.actor) := by
    rw [Playback.removeActor?, hremove]
    exact ⟨_, rfl, rfl⟩
  have hreply : s.reply files (.removeActor r.actor) = ⟨s.put removed.playback, removed.events,
      ["removed actor " ++ toString r.actor], .proceed⟩ := by
    simp only [reply, answer, hremoved]
  have htaken : (s.take (.line files text)).session = s.put removed.playback := by
    simp only [take, handle, hreap, hline, hreply]
  have hactive : removed.playback.active = s.playback.active :=
    (Edit.removeActor hremoved).frame.2
  refine ⟨?_, ?_⟩
  · simp [told, hreaped, hline, hreap, answered, hreply]
  · rw [htaken]
    have habsent : removed.playback.stage.Absent r.actor := by
      rw [hstage]
      exact hnumbered.absent_after_remove there
    refine ⟨hrun, ⟨habsent.gone, ?_, hs.sound r hrun, .still⟩, habsent, ?_⟩
    · exact hactive.trans (hs.active_of_run hrun)
    · show removed.playback.stage.Numbered Stage.numberLimit
      rw [hstage]
      exact hnumbered.after_limit _

theorem numbered_initial (settings : Settings) :
    (initial settings).1.playback.stage.Numbered Stage.numberLimit :=
  Stage.Numbered.after_limit (d := .spawn none)
    ⟨(Stage.numbered_empty settings.spawnPoint).ids_le, Nat.zero_le _⟩

theorem alike_finish (s : Session) :
    s.finish.session.playback.stage.Alike s.playback.stage := by
  cases hr : s.run with
  | none =>
    simp only [finish, hr, say]
    exact .refl _
  | some r =>
    simp only [finish, wait, hr]
    exact s.alike_await r

/-- A play that has not ended, and whose actor has left, is reported in this way. -/
theorem report_of_expires (hs : r.Sound) (hopen : r.play.result? = none) (h : r.Expires r')
    (hended : r'.play.result?.isSome = true) :
    (r.play ≠ .requested r.actor →
        report r' = ["actor " ++ toString r.actor ++ " was removed; run cancelled"]) ∧
      (r.play = .requested r.actor →
        report r' = ["error: actor " ++ toString r.actor ++ " not found"]) := by
  have hreport : report r' = [Console.outcome r.actor r.farewell] := by
    cases h with
    | still =>
      rw [hopen] at hended
      cases hended
    | begun hplay hbegun => cases hended
    | ended due => rfl
  rw [hreport]
  constructor
  · intro hplay
    cases hs' : r.play with
    | requested a =>
      rw [InFlight.Sound, hs'] at hs
      rw [hs', hs] at hplay
      exact absurd rfl hplay
    | selected =>
      rw [InFlight.Sound, hs'] at hs
      exact hs.elim
    | suspended p => simp only [InFlight.farewell, hs', Console.outcome]
    | ended result =>
      rw [hs'] at hopen
      cases hopen
  · intro hplay
    simp only [InFlight.farewell, hplay, Console.outcome, PlayError.message]
    rw [show "error: actor " = "error: " ++ "actor " from rfl]
    simp only [String.append_assoc]

/-- Once such a line has been given, the end of the play is the first that is reported. -/
theorem account_removes {files : Files} {text : String} {later : List Input} (hs : s.Orderly)
    (hnumbered : s.playback.stage.Numbered Stage.numberLimit) (hrun : s.run = some r)
    (hopen : r.play.result? = none)
    (hline : Console.Registry.builtin.line text = .request (.removeActor r.actor))
    (there : s.playback.stage.contains r.actor = true)
    (hleft : (s.takeAll (.line files text :: later)).playback.stage.lastNumber
      < Stage.numberLimit) :
    ∃ settled,
      ((s.account (.line files text :: later)).filterMap Notice.settled?).head? = some settled ∧
      ReflTransGen Polls r settled ∧ r.Expires settled ∧ settled.play.result?.isSome = true := by
  obtain ⟨htold, hdeserted⟩ := take_removes files hs hnumbered hrun hopen hline there
  have hlast : ((s.take (.line files text)).session.closed later).playback.stage.lastNumber
      < Stage.numberLimit := by
    rw [closed, (alike_finish _).2]
    exact hleft
  obtain ⟨settled, hfirst, hrest⟩ :=
    hdeserted.settled (changes_account _ later) hlast (run_closed _ later)
  refine ⟨settled, ?_, hrest⟩
  rw [account, htold]
  exact hfirst

/-- **How the play of a removed actor is reported.** Let one of the lines that a session is given
remove the actor of a play that was accepted before and has not ended, and let numbers be left for
new actors to the end. Then the report of this play, which is as far down the reports as the play is
down the acceptances, calls the play cancelled if it had its first turn before the removal, at
whichever pause it was then and whatever lines follow. If it did not, the report is an error. -/
theorem removal_reported (settings : Settings) {inputs : List Input} {r : InFlight}
    (h : Removes (initial settings).1 inputs r)
    (hleft : ((initial settings).1.takeAll inputs).playback.stage.lastNumber
      < Stage.numberLimit) :
    let log := (initial settings).1.account inputs
    log.flatMap Notice.lines = (initial settings).1.printed inputs ∧
    ∃ (n : Nat) (accepted settled : InFlight),
      (log.filterMap Notice.accepted?)[n]? = some accepted ∧
      (log.filterMap Notice.settled?)[n]? = some settled ∧
      accepted.play = .requested r.actor ∧
      ReflTransGen Polls accepted r ∧ ReflTransGen Polls r settled ∧
      (r.play ≠ .requested r.actor →
        report settled = ["actor " ++ toString r.actor ++ " was removed; run cancelled"]) ∧
      (r.play = .requested r.actor →
        report settled = ["error: actor " ++ toString r.actor ++ " not found"]) := by
  intro log
  refine ⟨lines_account _ inputs, ?_⟩
  cases h with
  | @line _ files text earlier later hline hrun hopen there =>
    have hearlier := changes_toldAll (initial settings).1 earlier
    obtain ⟨horderly, hledger⟩ := orderly_changes (orderly_initial settings) hearlier
    have hnumbered := hearlier.keeps (fun _ _ _ hs hc => numbered_change hs hc)
      (numbered_initial settings)
    obtain ⟨before, accepted, haccepted, hbefore, hpolls⟩ := hledger.last_accepted hrun
    have hnone : (initial settings).1.run.toList = [] := rfl
    rw [hnone, List.nil_append] at haccepted
    rw [takeAll_append] at hleft
    obtain ⟨settled, hfirst, hpolls', hexpires, hended⟩ :=
      account_removes horderly hnumbered hrun hopen hline there hleft
    have hlog : log = (initial settings).1.toldAll earlier ++
        ((initial settings).1.takeAll earlier).account (.line files text :: later) :=
      account_append ..
    have hreport := report_of_expires (horderly.sound r hrun) hopen hexpires hended
    refine ⟨before.length, accepted, settled, ?_, ?_, ?_, hpolls, hpolls', hreport⟩
    · rw [hlog, List.filterMap_append, haccepted, List.append_assoc,
        List.getElem?_append_right (Nat.le_refl _), Nat.sub_self]
      rfl
    · rw [hlog, List.filterMap_append, ← hbefore,
        List.getElem?_append_right (Nat.le_refl _), Nat.sub_self, ← List.head?_eq_getElem?]
      exact hfirst
    · rw [actor_of_polls hpolls]
      refine hledger.requested accepted ?_
      rw [haccepted]
      exact List.mem_append_right _ (List.mem_singleton_self _)

/-- The only actor is removed right after its play has been accepted. -/
def hasty : List Input :=
  [.line (Folder.read []) "play", .line (Folder.read []) "remove_actor 1"]

theorem removes_hasty :
    Removes (initial .initial).1 hasty ⟨⟨1⟩, .requested ⟨1⟩, 0⟩ :=
  .line [.line (Folder.read []) "play"] [] rfl rfl rfl rfl

theorem removes_removal :
    Removes (initial .initial).1 removal ⟨⟨1⟩, .suspended second, 1000⟩ := by
  let earlier : List Input :=
    [.line (Folder.read []) "drag 5", .line (Folder.read []) "play", .pause 100,
      .line (Folder.read []) "add_actor"]
  have hearlier : (initial .initial).1.takeAll earlier =
      ((waiting.take (.pause 100)).session.take (.line (Folder.read []) "add_actor")).session := rfl
  rw [take_waiting] at hearlier
  refine .line earlier [] rfl ?_ rfl ?_
  · rw [hearlier]
    rfl
  · rw [hearlier]
    rfl

/-- A removal during a pause, and one before the first turn. -/
theorem removal_reported_samples :
    (∃ settled ∈ ((initial .initial).1.account removal).filterMap Notice.settled?,
      report settled = ["actor 1 was removed; run cancelled"]) ∧
    ∃ settled ∈ ((initial .initial).1.account hasty).filterMap Notice.settled?,
      report settled = ["error: actor 1 not found"] := by
  have hremoval : ((initial .initial).1.takeAll removal).playback.stage.lastNumber
      < Stage.numberLimit := by
    obtain ⟨-, -, -, -, hlast⟩ := takeAll_removal
    rw [hlast]
    decide
  have hhasty : ((initial .initial).1.takeAll hasty).playback.stage.lastNumber
      < Stage.numberLimit := by decide
  obtain ⟨-, n, -, settled, -, hsettled, -, -, -, hcancelled, -⟩ :=
    removal_reported .initial removes_removal hremoval
  obtain ⟨-, m, -, settled', -, hsettled', -, -, -, -, herror⟩ :=
    removal_reported .initial removes_hasty hhasty
  exact ⟨⟨settled, List.mem_of_getElem? hsettled, hcancelled fun h => by cases h⟩,
    settled', List.mem_of_getElem? hsettled', herror rfl⟩

/-- So it does not hold of every removal that the report calls the play cancelled. -/
theorem hasty_removal_reported :
    Removes (initial .initial).1 hasty ⟨⟨1⟩, .requested ⟨1⟩, 0⟩ ∧
    (initial .initial).1.printed hasty
      = ["playing actor 1", "removed actor 1", "error: actor 1 not found"] ∧
    "actor 1 was removed; run cancelled" ∉ (initial .initial).1.printed hasty := by
  let p : Polled := ⟨((initial .initial).1.takeAll hasty).playback, ⟨⟨1⟩, .requested ⟨1⟩, 0⟩, []⟩
  have huntil : p.until none = p.next := Polled.until_once rfl rfl (.inl rfl)
  have hprinted : (initial .initial).1.printed hasty
      = ["playing actor 1", "removed actor 1"] ++ report (p.until none).inFlight := rfl
  rw [huntil] at hprinted
  refine ⟨removes_hasty, hprinted, ?_⟩
  rw [hprinted]
  decide

end Session

end StagePlay
