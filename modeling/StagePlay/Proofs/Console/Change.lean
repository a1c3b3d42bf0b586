import StagePlay.Console.Session.Reply
import StagePlay.Proofs.Stage.Deed

/-!
# StagePlay.Proofs.Console.Change

What a console session goes through, one change at a time.

A `Change` is the smallest thing that can happen to a session: its clock moves, its play is polled,
the end of the play is reported, a play is accepted, or a request edits the stage, the selection or
the palette. A `Notice` is something printed, with the play that it is about.

* `answer_edits`: what a request does that neither asks for a play nor waits for one.
* `changes_take`: whatever comes in, a session goes through some changes.
* `lines_told`, `lines_account`: the notices are what is printed, and nothing else is.
-/

namespace StagePlay

open scoped Json.FastRounding

/-- What comes in: a line, with the files as they are then, or nothing for some time. -/
inductive Input where
  | line (files : Files) (text : String)
  | pause (ms : Nat)

/-- Something that a session prints. -/
inductive Notice where
  /-- The answer to a line that asks for a play. -/
  | accepted (r : InFlight)
  /-- The report of the end of a play. -/
  | settled (r : InFlight)
  | other (line : String)

def Notice.lines : Notice → List String
  | .accepted r => ["playing actor " ++ toString r.actor]
  | .settled r => Session.report r
  | .other line => [line]

def Notice.accepted? : Notice → Option InFlight
  | .accepted r => some r
  | _ => none

def Notice.settled? : Notice → Option InFlight
  | .settled r => some r
  | _ => none

/-- A deed that a request asks for: blocks come from the palette, and scripts from texts. -/
def Deed.Offered (palette : Palette) : Deed → Prop
  | .place _ _ | .removeBlock _ _ | .setBlockField _ _ _ _ => True
  | .append _ c => ∃ slot, palette.block slot = .ok c
  | .assign _ script => ∃ text, Script.parse text = .ok script
  | .spawn _ | .remove _ | .write _ _ | .collide _ => False

/-- A deed that is asked for leaves everybody on the stage. -/
theorem Deed.alike_of_offered {palette : Palette} {d : Deed} (h : d.Offered palette)
    (stage : Stage) : (stage.after d).Alike stage := by
  apply Stage.alike_after
  · cases d <;> first | rfl | cases h
  · rintro id rfl
    cases h

namespace Session

/-! ## Histories -/

def take (s : Session) : Input → Reply
  | .line files text => s.handle files text
  | .pause ms => ⟨(s.elapse ms).1, (s.elapse ms).2, [], .proceed⟩

/-- The session after all of these. A line that asks to quit is answered like any other. -/
def takeAll (s : Session) (inputs : List Input) : Session :=
  inputs.foldl (fun s input => (s.take input).session) s

/-- All lines that are printed until the session has ended. -/
def printed (s : Session) : List Input → List String
  | [] => s.finish.lines
  | input :: rest => (s.take input).lines ++ (s.take input).session.printed rest

/-- What is printed about a play that has ended, before a line is read. -/
def reaped (s : Session) : List Notice :=
  match s.run with
  | none => []
  | some r => if r.play.result?.isSome then [.settled r] else []

/-- What is printed once the play under way has been waited for. -/
def awaited (s : Session) : List Notice := s.run.toList.map fun r => .settled (s.await r).2.1

def answered (files : Files) (s : Session) : Console.Request → List Notice
  | .play =>
    match s.play with
    | .ok reply => reply.session.run.toList.map .accepted
    | .error refusal => [.other ("error: " ++ refusal.message)]
  | .wait => if s.run.isNone then [.other "nothing is playing"] else s.awaited
  | request => (s.reply files request).lines.map .other

/-- What is printed for an input. -/
def told (s : Session) : Input → List Notice
  | .line files text =>
    s.reaped ++ match Console.Registry.builtin.line text with
      | .empty => []
      | .refused e => [.other e.message]
      | .request request => s.reap.1.answered files request
  | .pause _ => []

/-- What is printed until the session has ended. -/
def account (s : Session) : List Input → List Notice
  | [] => s.awaited
  | input :: rest => s.told input ++ (s.take input).session.account rest

/-! ## Changes -/

/-- What a request can do that neither asks for a play nor waits for one. Only two requests change
    who is on the stage. -/
inductive Edit (s : Session) : Console.Request → Session → Prop where
  | nothing (request : Console.Request) : Edit s request s
  | addActor (name : Option String) :
      Edit s (.addActor name) (s.put (s.playback.addActor name).playback)
  | removeActor {id : ActorId} {removed : Played Unit} :
      s.playback.removeActor? id = some removed →
      Edit s (.removeActor id) (s.put removed.playback)
  | select {request : Console.Request} {id : ActorId} {pb : Playback} :
      s.playback.select? id = some pb → Edit s request (s.put pb)
  | palette {request : Console.Request} {slot : Nat} {field value : String} {palette : Palette} :
      s.palette.setField slot field value = .ok palette →
      Edit s request { s with palette := palette }
  | deed {request : Console.Request} {d : Deed} :
      d.Offered s.palette → Edit s request (s.putStage (s.playback.stage.after d))

inductive Change (s : Session) : List Notice → Session → Prop where
  | clock (now room : Nat) : Change s [] { s with now := now, room := room }
  | poll {r : InFlight} : s.run = some r →
      Change s [] { s with
        playback := (Polled.next ⟨s.playback, r, []⟩).playback
        run := some (Polled.next ⟨s.playback, r, []⟩).inFlight }
  | settle {r : InFlight} : s.run = some r → r.play.result?.isSome = true →
      Change s [.settled r] { s with run := none }
  | accept {id : ActorId} : s.run = none → s.busy? = none → s.playback.selected = some id →
      Change s [.accepted ⟨id, .requested id, s.now⟩]
        { s with run := some ⟨id, .requested id, s.now⟩ }
  | edit {request : Console.Request} {s' : Session} (lines : List String) :
      Edit s request s' → Change s (lines.map .other) s'

/-- To print a line changes nothing. -/
theorem Change.said (s : Session) (line : String) : Change s [.other line] s :=
  .edit [line] (.nothing (.echo line))

inductive Changes : Session → List Notice → Session → Prop where
  | refl {s : Session} : Changes s [] s
  | cons {s s' s'' : Session} {log log' : List Notice} :
      Change s log s' → Changes s' log' s'' → Changes s (log ++ log') s''

namespace Changes

theorem single {s s' : Session} {log : List Notice} (h : Change s log s') : Changes s log s' := by
  have := Changes.cons h .refl
  rwa [List.append_nil] at this

theorem trans {s s' s'' : Session} {log log' : List Notice} (h : Changes s log s')
    (h' : Changes s' log' s'') : Changes s (log ++ log') s'' := by
  induction h with
  | refl => exact h'
  | cons hs _ ih =>
    rw [List.append_assoc]
    exact .cons hs (ih h')

theorem keeps {P : Session → Prop} (hstep : ∀ s log s', P s → Change s log s' → P s')
    {s s' : Session} {log : List Notice} (h : Changes s log s') (hs : P s) : P s' := by
  induction h with
  | refl => exact hs
  | cons hc _ ih => exact ih (hstep _ _ _ hs hc)

end Changes

/-! ## Requests -/

theorem exists_of_bind {ε α β : Type} {x : Except ε α} {f : α → Except ε β} {b : β}
    (h : x >>= f = .ok b) : ∃ a, x = .ok a ∧ f a = .ok b := by
  cases x with
  | error e => cases h
  | ok a => exact ⟨a, rfl, h⟩

theorem exists_of_map {ε α β : Type} {x : Except ε α} {f : α → β} {b : β}
    (h : x.map f = .ok b) : ∃ a, x = .ok a ∧ f a = b := by
  cases x with
  | error e => cases h
  | ok a =>
    cases h
    exact ⟨a, rfl, rfl⟩

theorem of_mapError {ε ε' α : Type} {x : Except ε α} {f : ε → ε'} {a : α}
    (h : x.mapError f = .ok a) : x = .ok a := by
  cases x with
  | error e => cases h
  | ok b =>
    cases h
    rfl

theorem assign_edits {s : Session} {script : Script} {text : String} {reply : Reply}
    (hparse : Script.parse text = .ok script) (h : s.assign script = .ok reply)
    (request : Console.Request) : Edit s request reply.session := by
  obtain ⟨id, -, h⟩ := exists_of_bind h
  obtain ⟨stage, hassign, h⟩ := exists_of_bind h
  cases h
  have hafter : s.playback.stage.after (.assign id script) = stage := by
    simp [Stage.after, of_mapError hassign, Except.toOption]
  rw [say, ← hafter]
  exact .deed ⟨text, hparse⟩

theorem answer_edits {files : Files} {s : Session} {request : Console.Request} {reply : Reply}
    (h : s.answer files request = .ok reply) (hplay : request ≠ .play) (hwait : request ≠ .wait) :
    Edit s request reply.session := by
  cases request with
  | help | echo text | quit | actors | palette | status =>
    cases h
    exact .nothing _
  | addActor name =>
    cases h
    exact .addActor name
  | removeActor id =>
    simp only [answer] at h
    split at h
    · cases h
    · rename_i removed hr
      cases h
      exact .removeActor hr
  | select id =>
    simp only [answer] at h
    split at h
    · cases h
    · rename_i pb hpb
      cases h
      exact .select hpb
  | place id x y =>
    simp only [answer] at h
    split at h
    · cases h
    · rename_i stage snapshot hp
      cases h
      have hafter : s.playback.stage.after (.place id ⟨x, y⟩) = stage := by
        simp [Stage.after, hp]
      rw [← hafter]
      exact .deed trivial
  | setPalette slot field value =>
    obtain ⟨palette, hset, h⟩ := exists_of_bind h
    obtain ⟨c, -, h⟩ := exists_of_bind h
    cases h
    exact .palette (of_mapError hset)
  | drag slot =>
    obtain ⟨id, -, h⟩ := exists_of_bind h
    obtain ⟨c, hblock, h⟩ := exists_of_bind h
    obtain ⟨⟨stage, index⟩, happend, h⟩ := exists_of_bind h
    cases h
    have hafter : s.playback.stage.after (.append id c) = stage := by
      simp [Stage.after, of_mapError happend, Except.toOption, Except.map]
    rw [say, ← hafter]
    exact .deed ⟨slot, of_mapError hblock⟩
  | drop index =>
    obtain ⟨id, -, h⟩ := exists_of_bind h
    obtain ⟨⟨stage, c⟩, hremove, h⟩ := exists_of_bind h
    cases h
    have hafter : s.playback.stage.after (.removeBlock id index) = stage := by
      simp [Stage.after, of_mapError hremove, Except.toOption, Except.map]
    rw [say, ← hafter]
    exact .deed trivial
  | setBlock index field value =>
    obtain ⟨id, -, h⟩ := exists_of_bind h
    obtain ⟨stage, hset, h⟩ := exists_of_bind h
    cases h
    have hafter : s.playback.stage.after (.setBlockField id index field value) = stage := by
      simp [Stage.after, of_mapError hset, Except.toOption]
    rw [say, ← hafter]
    exact .deed trivial
  | script =>
    obtain ⟨id, -, h⟩ := exists_of_bind h
    split at h
    · cases h
    · cases h
      exact .nothing _
  | assign json =>
    obtain ⟨script, hparse, h⟩ := exists_of_bind h
    exact assign_edits (of_mapError hparse) h _
  | load path =>
    obtain ⟨script, hload, h⟩ := exists_of_bind h
    have hload := of_mapError hload
    unfold Script.load at hload
    split at hload
    · exact assign_edits hload h _
    · cases hload
  | play => exact absurd rfl hplay
  | wait => exact absurd rfl hwait

/-- A play is accepted while none is under way, for the selected actor, which is there. -/
theorem play_accepts {s : Session} {reply : Reply} (h : s.play = .ok reply) :
    ∃ id, s.busy? = none ∧ s.playback.selected = some id ∧
      s.playback.stage.contains id = true ∧
      reply.session = { s with run := some ⟨id, .requested id, s.now⟩ } ∧
      reply.lines = ["playing actor " ++ toString id] := by
  unfold play at h
  split at h
  · cases h
  · rename_i hbusy
    obtain ⟨id, hchosen, h⟩ := exists_of_bind h
    unfold chosen at hchosen
    split at hchosen
    · rename_i selected hselected
      cases hchosen
      split at h
      · rename_i hthere
        cases h
        exact ⟨id, hbusy, hselected, hthere, rfl, rfl⟩
      · cases h
    · cases hchosen

/-! ## Time -/

theorem changes_until {s : Session} {limit : Option Nat} {p : Polled}
    (hpb : s.playback = p.playback) (hrun : s.run = some p.inFlight) :
    Changes s [] { s with
      playback := (p.until limit).playback
      run := some (p.until limit).inFlight } := by
  fun_induction Polled.until limit p generalizing s with
  | case1 p r h =>
    rw [← hpb, ← hrun]
    exact .refl
  | case2 p h hl =>
    rw [← hpb, ← hrun]
    exact .refl
  | case3 p h hl ih =>
    have hnext : Change s [] { s with
        playback := p.next.playback, run := some p.next.inFlight } := by
      have := Change.poll hrun
      rwa [hpb] at this
    exact .cons hnext (ih rfl rfl)

theorem changes_pass (s : Session) : Changes s [] s.pass.1 := by
  unfold pass
  split
  · exact .single (.clock _ _)
  · rename_i r hr
    split
    · exact .cons (.clock _ _) (.single (.poll hr))
    · exact .single (.clock _ _)

theorem changes_elapse (s : Session) (ms : Nat) : Changes s [] (s.elapse ms).1 := by
  unfold elapse
  split
  · exact changes_pass s
  · split
    · exact .single (.clock _ _)
    · rename_i r hr
      exact .cons (.clock _ _) (changes_until rfl hr)

theorem changes_await {s : Session} {r : InFlight} (h : s.run = some r) :
    Changes s [.settled (s.await r).2.1] (s.await r).1 := by
  have hended := s.result_await r
  have hpolled : Changes s [] { s with
      playback := (Polled.until none ⟨s.playback, r, []⟩).playback
      run := some (Polled.until none ⟨s.playback, r, []⟩).inFlight } := changes_until rfl h
  exact hpolled.trans (.cons (.settle rfl hended) (.single (.clock _ _)))

/-! ## Lines -/

theorem changes_reap (s : Session) : Changes s s.reaped s.reap.1 := by
  cases hr : s.run with
  | none =>
    simp only [reaped, reap, hr]
    exact .refl
  | some r =>
    cases hended : r.play.result?.isSome with
    | true =>
      simp only [reaped, reap, hr, hended, ↓reduceIte]
      exact .cons (.settle hr hended) (.single (.clock _ _))
    | false =>
      simp only [reaped, reap, hr, hended, Bool.false_eq_true, ↓reduceIte]
      exact .refl

/-- A session that has reported the end of its play holds none that has ended. -/
theorem run_reap {s : Session} {r : InFlight} (h : s.reap.1.run = some r) :
    r.play.result? = none := by
  cases hr : s.run with
  | none =>
    simp only [reap, hr] at h
    cases h
  | some r' =>
    cases hended : r'.play.result? with
    | some result => simp [reap, hr, hended] at h
    | none =>
      simp only [reap, hr, hended, Option.isSome_none, Bool.false_eq_true, ↓reduceIte,
        Option.some.injEq] at h
      rw [← h, hended]

theorem playback_reap (s : Session) : s.reap.1.playback = s.playback := by
  unfold reap
  split
  · rfl
  · split <;> rfl

theorem reap_of_open {s : Session} (h : ∀ r, s.run = some r → r.play.result? = none) :
    s.reap = (s, []) := by
  unfold reap
  split
  · rfl
  · rename_i r hr
    simp [h r hr]

theorem run_of_busy {s : Session} (hbusy : s.busy? = none)
    (h : ∀ r, s.run = some r → r.play.result? = none) : s.run = none := by
  cases hr : s.run with
  | none => rfl
  | some r =>
    have hopen := h r hr
    cases ha : s.playback.active <;> simp [busy?, hr, hopen, ha] at hbusy

theorem edit_reply {files : Files} {s : Session} {request : Console.Request}
    (hplay : request ≠ .play) (hwait : request ≠ .wait) :
    Edit s request (s.reply files request).session := by
  unfold reply
  split
  · rename_i answer h
    exact answer_edits h hplay hwait
  · exact .nothing _

theorem answered_of_ne {files : Files} {s : Session} {request : Console.Request}
    (hplay : request ≠ .play) (hwait : request ≠ .wait) :
    s.answered files request = (s.reply files request).lines.map .other := by
  cases request <;> first | rfl | contradiction

theorem changes_reply {s : Session} (hopen : ∀ r, s.run = some r → r.play.result? = none)
    (files : Files) (request : Console.Request) :
    Changes s (s.answered files request) (s.reply files request).session := by
  by_cases hplay : request = .play
  · subst hplay
    cases h : s.play with
    | error refusal =>
      have hsame : (s.reply files .play).session = s := by simp [reply, answer, h]
      simp only [answered, h, hsame]
      exact .single (.said s ("error: " ++ refusal.message))
    | ok answer =>
      obtain ⟨id, hbusy, hselected, -, hsession, -⟩ := play_accepts h
      have hthen : (s.reply files .play).session = answer.session := by
        simp [reply, Session.answer, h]
      simp only [answered, h, hthen, hsession]
      exact .single (.accept (run_of_busy hbusy hopen) hbusy hselected)
  by_cases hwait : request = .wait
  · subst hwait
    cases h : s.run with
    | none =>
      have hsame : (s.reply files .wait).session = s := by simp [reply, answer, wait, h, say]
      simp only [answered, h, hsame]
      exact .single (.said s "nothing is playing")
    | some r =>
      have hthen : (s.reply files .wait).session = (s.await r).1 := by
        simp [reply, answer, wait, h]
      simp only [answered, awaited, h, hthen]
      exact changes_await h
  rw [answered_of_ne hplay hwait]
  exact .single (.edit _ (edit_reply hplay hwait))

theorem changes_take (s : Session) (input : Input) :
    Changes s (s.told input) (s.take input).session := by
  cases input with
  | pause ms => exact changes_elapse s ms
  | line files text =>
    refine (changes_reap s).trans ?_
    cases h : Console.Registry.builtin.line text with
    | empty =>
      simp only [take, handle, h, say]
      exact .refl
    | refused e =>
      simp only [take, handle, h, say]
      exact .single (.said _ e.message)
    | request request =>
      simp only [take, handle, h]
      exact changes_reply (fun _ h => run_reap h) ..

/-- What holds of a session and is kept by every change holds ever after. -/
theorem takeAll_keeps {P : Session → Prop} (hstep : ∀ s log s', P s → Change s log s' → P s')
    {s : Session} (hs : P s) (inputs : List Input) : P (s.takeAll inputs) := by
  induction inputs generalizing s with
  | nil => exact hs
  | cons input rest ih => exact ih ((changes_take s input).keeps hstep hs)

/-- The session once it has ended after these inputs. -/
def closed (s : Session) (inputs : List Input) : Session := (s.takeAll inputs).finish.session

theorem changes_finish (s : Session) : Changes s s.awaited s.finish.session := by
  cases h : s.run with
  | none =>
    simp only [awaited, finish, h, say]
    exact .refl
  | some r =>
    simp only [awaited, finish, wait, h]
    exact changes_await h

theorem changes_account (s : Session) (inputs : List Input) :
    Changes s (s.account inputs) (s.closed inputs) := by
  induction inputs generalizing s with
  | nil => exact changes_finish s
  | cons input rest ih => exact (changes_take s input).trans (ih _)

/-! ## What is printed -/

theorem lines_reaped (s : Session) : s.reaped.flatMap Notice.lines = s.reap.2 := by
  cases hr : s.run with
  | none => simp [reaped, reap, hr]
  | some r => cases hended : r.play.result?.isSome <;> simp [reaped, reap, hr, hended, Notice.lines]

theorem lines_other (lines : List String) :
    (lines.map Notice.other).flatMap Notice.lines = lines := by
  induction lines with
  | nil => rfl
  | cons line rest ih =>
    rw [List.map_cons, List.flatMap_cons, ih, Notice.lines, List.singleton_append]

theorem lines_awaited (s : Session) : s.awaited.flatMap Notice.lines = s.finish.lines := by
  cases h : s.run with
  | none => simp [awaited, finish, h, say]
  | some r => simp [awaited, finish, wait, h, Notice.lines]

theorem lines_answered (files : Files) (s : Session) (request : Console.Request) :
    (s.answered files request).flatMap Notice.lines = (s.reply files request).lines := by
  by_cases hplay : request = .play
  · subst hplay
    cases h : s.play with
    | error refusal => simp [answered, reply, answer, h, Notice.lines]
    | ok answer =>
      obtain ⟨id, -, -, -, hsession, hlines⟩ := play_accepts h
      simp [answered, reply, Session.answer, h, hsession, hlines, Notice.lines]
  by_cases hwait : request = .wait
  · subst hwait
    cases h : s.run with
    | none => simp [answered, reply, answer, wait, h, say, Notice.lines]
    | some r => simp [answered, awaited, reply, answer, wait, h, Notice.lines]
  rw [answered_of_ne hplay hwait, lines_other]

theorem lines_told (s : Session) (input : Input) :
    (s.told input).flatMap Notice.lines = (s.take input).lines := by
  cases input with
  | pause ms => rfl
  | line files text =>
    cases h : Console.Registry.builtin.line text with
    | empty => simp [told, take, handle, h, lines_reaped, say]
    | refused e => simp [told, take, handle, h, lines_reaped, say, Notice.lines]
    | request request => simp [told, take, handle, h, lines_reaped, lines_answered]

theorem lines_account (s : Session) (inputs : List Input) :
    (s.account inputs).flatMap Notice.lines = s.printed inputs := by
  induction inputs generalizing s with
  | nil => exact lines_awaited s
  | cons input rest ih => rw [account, printed, List.flatMap_append, lines_told, ih]

end Session

end StagePlay
