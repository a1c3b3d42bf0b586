import StagePlay.Proofs.Playback.Poll

/-!
# StagePlay.Proofs.Playback.Exclusion

One play at a time, whoever holds plays and in whatever order they are polled and dropped.

A `Programme` is a playback with all the plays that have ever been asked for. A play is under way
from the poll that accepts it to the poll that ends it, or until it is dropped.

* `Programme.single_after`: the flag names the actor of the only play under way, and each move
  keeps this.
* `active_iff_underWay`: so it is after any moves, and a play is turned down exactly while another
  one is under way.
-/

namespace StagePlay

/-! ## Plays that are held -/

/-- A play that somebody holds or has dropped, and the actor it is for. A play of the selected
    actor is for nobody before its first poll. -/
structure Held where
  actor : Option ActorId
  play : Play
  dropped : Bool

namespace Held

/-- The actor of a play that has been accepted, and has neither ended nor been dropped. -/
def underWay? (h : Held) : Option ActorId :=
  if h.dropped then none
  else match h.play with
    | .suspended _ => h.actor
    | _ => none

/-- The actor that the play is for once it is polled. -/
def subject? (h : Held) (selected : Option ActorId) : Option ActorId :=
  match h.play with
  | .selected => selected
  | _ => h.actor

end Held

structure Programme where
  playback : Playback
  /-- All plays, in the order in which they were asked for. -/
  held : List Held

/-- What can be done to a playback by those who hold plays, and by everybody else. -/
inductive Move where
  | request (actor : ActorId)
  | requestSelected
  /-- A poll, with the room that there is in the turn of a first one. -/
  | poll (index room : Nat)
  | drop (index : Nat)
  | addActor (name : Option String)
  | removeActor (id : ActorId)
  | select (id : ActorId)
  | edit (d : Deed)

namespace Programme

def opening (settings : Settings) (stage : Stage) : Programme :=
  ⟨⟨settings, stage, none, none⟩, []⟩

def underWay (g : Programme) : List ActorId := g.held.filterMap Held.underWay?

def put (g : Programme) (pb : Playback) : Programme := { g with playback := pb }

def poll (g : Programme) (index room : Nat) : Programme :=
  match g.held[index]? with
  | none => g
  | some h =>
    if h.dropped then g
    else
      let polled := g.playback.poll room h.play
      ⟨polled.playback, g.held.set index
        { h with actor := h.subject? g.playback.selected, play := polled.result.point }⟩

def drop (g : Programme) (index : Nat) : Programme :=
  match g.held[index]? with
  | none => g
  | some h =>
    if h.dropped then g
    else ⟨g.playback.drop h.play, g.held.set index { h with dropped := true }⟩

def after (g : Programme) : Move → Programme
  | .request actor => { g with held := g.held ++ [⟨some actor, .requested actor, false⟩] }
  | .requestSelected => { g with held := g.held ++ [⟨none, .selected, false⟩] }
  | .poll index room => g.poll index room
  | .drop index => g.drop index
  | .addActor name => g.put (g.playback.addActor name).playback
  | .removeActor id => g.put (((g.playback.removeActor? id).map (·.playback)).getD g.playback)
  | .select id => g.put ((g.playback.select? id).getD g.playback)
  | .edit d => g.put { g.playback with stage := g.playback.stage.after d }

def afterAll (g : Programme) (moves : List Move) : Programme := moves.foldl after g

/-- At most one play is under way, the flag names its actor, and every play is for the actor that
    it was asked for. -/
structure Single (g : Programme) : Prop where
  active : g.underWay = g.playback.active.toList
  actor : ∀ h ∈ g.held, ∀ a, h.play.actor? = some a → h.actor = some a

variable {g : Programme} {index room : Nat} {h : Held}

theorem poll_eq (hi : g.held[index]? = some h) (hd : h.dropped = false) :
    g.poll index room =
      ⟨(g.playback.poll room h.play).playback, g.held.set index
        { h with
          actor := h.subject? g.playback.selected
          play := (g.playback.poll room h.play).result.point }⟩ := by
  simp [poll, hi, hd]

theorem drop_eq (hi : g.held[index]? = some h) (hd : h.dropped = false) :
    g.drop index = ⟨g.playback.drop h.play, g.held.set index { h with dropped := true }⟩ := by
  simp [drop, hi, hd]

/-- One play among the others: what is under way before it, itself, and after it. -/
theorem underWay_set (hi : g.held[index]? = some h) (pb : Playback) (h' : Held) :
    ∃ before later, g.underWay = before ++ h.underWay?.toList ++ later ∧
      (⟨pb, g.held.set index h'⟩ : Programme).underWay =
        before ++ h'.underWay?.toList ++ later := by
  obtain ⟨hlt, hget⟩ := List.getElem?_eq_some_iff.mp hi
  have hone : ∀ k : Held, [k].filterMap Held.underWay? = k.underWay?.toList := by
    intro k
    cases hk : k.underWay? <;> simp [hk]
  have hheld : g.held = g.held.take index ++ [h] ++ g.held.drop (index + 1) := by
    rw [← hget, List.append_assoc, List.singleton_append, List.getElem_cons_drop,
      List.take_append_drop]
  have hset : g.held.set index h' = g.held.take index ++ [h'] ++ g.held.drop (index + 1) := by
    rw [List.set_eq_take_append_cons_drop, if_pos hlt, List.append_assoc, List.singleton_append]
  refine ⟨(g.held.take index).filterMap Held.underWay?,
    (g.held.drop (index + 1)).filterMap Held.underWay?, ?_, ?_⟩
  · rw [underWay]
    conv => lhs; rw [hheld]
    rw [List.filterMap_append, List.filterMap_append, hone]
  · rw [underWay, hset, List.filterMap_append, List.filterMap_append, hone]

theorem actor_set (hs : g.Single) (pb : Playback) {h' : Held}
    (hactor : ∀ a, h'.play.actor? = some a → h'.actor = some a) :
    ∀ k ∈ (⟨pb, g.held.set index h'⟩ : Programme).held,
      ∀ a, k.play.actor? = some a → k.actor = some a := by
  intro k hk
  rcases List.mem_or_eq_of_mem_set hk with hk | rfl
  · exact hs.actor k hk
  · exact hactor

/-- A play that was not under way and still is not, with the flag as it was. -/
theorem Single.set_idle (hs : g.Single) (hi : g.held[index]? = some h) {pb : Playback} {h' : Held}
    (hbefore : h.underWay? = none) (hafter : h'.underWay? = none)
    (ha : pb.active = g.playback.active)
    (hactor : ∀ a, h'.play.actor? = some a → h'.actor = some a) :
    (⟨pb, g.held.set index h'⟩ : Programme).Single := by
  obtain ⟨before, later, hold, hnew⟩ := underWay_set hi pb h'
  refine ⟨?_, actor_set hs pb hactor⟩
  rw [hnew, hafter, ha, ← hs.active, hold, hbefore]

/-- A play that takes the flag, or that has it: it is the only one. -/
theorem Single.set_only (hs : g.Single) (hi : g.held[index]? = some h) {pb : Playback} {h' : Held}
    (hbefore : g.playback.active.toList.length = h.underWay?.toList.length)
    (hafter : h'.underWay? = pb.active)
    (hactor : ∀ a, h'.play.actor? = some a → h'.actor = some a) :
    (⟨pb, g.held.set index h'⟩ : Programme).Single := by
  obtain ⟨before, later, hold, hnew⟩ := underWay_set hi pb h'
  have hlength := congrArg List.length (hold.symm.trans hs.active)
  rw [List.length_append, List.length_append, hbefore] at hlength
  have hnone : before = [] ∧ later = [] := by
    constructor <;> exact List.length_eq_zero_iff.mp (by omega)
  refine ⟨?_, actor_set hs pb hactor⟩
  rw [hnew, hafter, hnone.1, hnone.2, List.nil_append, List.append_nil]

theorem Single.active_of_underWay (hs : g.Single) (hi : g.held[index]? = some h) {a : ActorId}
    (ha : h.underWay? = some a) : g.playback.active = some a := by
  have hmem : a ∈ g.underWay :=
    List.mem_filterMap.mpr ⟨h, List.mem_of_getElem? hi, ha⟩
  rw [hs.active] at hmem
  exact Option.mem_toList.mp hmem

theorem underWay?_suspended {s : Suspension} (hd : h.dropped = false)
    (hp : h.play = .suspended s) : h.underWay? = h.actor := by
  simp [Held.underWay?, hd, hp]

theorem underWay?_of_asked {selected : Option ActorId} {a : ActorId}
    (hp : h.play.asked? selected = some a) : h.underWay? = none := by
  unfold Held.underWay?
  split
  · rfl
  · split
    · rename_i s hs
      rw [hs] at hp
      cases hp
    · rfl

theorem Single.subject_of_asked (hs : g.Single) (hi : g.held[index]? = some h) {actor : ActorId}
    (hp : h.play.asked? g.playback.selected = some actor) :
    h.subject? g.playback.selected = some actor := by
  obtain ⟨for?, play, dropped⟩ := h
  cases play with
  | requested a =>
    cases hp
    exact hs.actor _ (List.mem_of_getElem? hi) actor rfl
  | selected => exact hp
  | suspended s => cases hp
  | ended r => cases hp

/-- To drop a play that is not under way changes nothing. -/
theorem Single.drop_idle (hs : g.Single) (hi : g.held[index]? = some h) (hd : h.dropped = false)
    (hidle : h.underWay? = none) : g.playback.drop h.play = g.playback := by
  cases hplay : h.play with
  | suspended s =>
    have hactor := hs.actor h (List.mem_of_getElem? hi) s.run.actor (by rw [hplay]; rfl)
    rw [underWay?_suspended hd hplay, hactor] at hidle
    cases hidle
  | requested a => rfl
  | selected => rfl
  | ended r => rfl

theorem drop_active (hu : h.underWay?.isSome = true) (pb : Playback) :
    (pb.drop h.play).active = none := by
  unfold Held.underWay? at hu
  split at hu
  · cases hu
  · split at hu
    · rename_i s hs
      rw [hs]
      rfl
    · cases hu

theorem single_poll_asked (hs : g.Single) (hi : g.held[index]? = some h) (hd : h.dropped = false)
    {actor : ActorId} (hp : h.play.asked? g.playback.selected = some actor) (room : Nat) :
    (g.poll index room).Single := by
  have hidle := underWay?_of_asked hp
  have hsubject := hs.subject_of_asked hi hp
  rw [poll_eq hi hd]
  cases ha : g.playback.active with
  | some active =>
    -- turned down, as another play is under way
    rw [Playback.poll_busy hp ha]
    exact hs.set_idle hi hidle (by simp [Held.underWay?]) rfl (fun a he => nomatch he)
  | none =>
    rw [Playback.poll_of_asked hp]
    refine hs.set_only hi (by rw [ha, hidle]) ?_ ?_
    · rcases Playback.accept_cases ha room actor with
        ⟨s, hpoint, -, hactive⟩ | ⟨hactive, ⟨m, hpoint⟩ | hpoint | hpoint⟩ <;>
        simp [Held.underWay?, hd, hpoint, hactive, hsubject]
    · intro a he
      rcases Playback.accept_cases ha room actor with
        ⟨s, hpoint, hrun, -⟩ | ⟨-, ⟨m, hpoint⟩ | hpoint | hpoint⟩ <;>
        rw [hpoint] at he <;> cases he
      rw [hrun, hsubject]

theorem single_poll_suspended (hs : g.Single) (hi : g.held[index]? = some h)
    (hd : h.dropped = false) {s : Suspension} (hplay : h.play = .suspended s) (room : Nat) :
    (g.poll index room).Single := by
  have hactor : h.actor = some s.run.actor :=
    hs.actor h (List.mem_of_getElem? hi) s.run.actor (by rw [hplay]; rfl)
  have hunder : h.underWay? = some s.run.actor := by rw [underWay?_suspended hd hplay, hactor]
  have hactive := hs.active_of_underWay hi hunder
  rw [poll_eq hi hd, hplay]
  refine hs.set_only hi (by rw [hactive, hunder]) ?_ ?_
  · rcases g.playback.poll_suspended_cases room s with
      ⟨s', hpoint, -, ha⟩ | ⟨ha, ⟨m, hpoint⟩ | hpoint⟩ <;>
      simp [Held.underWay?, Held.subject?, hd, hplay, hpoint, ha, hactor, hactive]
  · intro a he
    rcases g.playback.poll_suspended_cases room s with
      ⟨s', hpoint, hrun, -⟩ | ⟨-, ⟨m, hpoint⟩ | hpoint⟩ <;>
      rw [hpoint] at he <;> cases he
    simp [Held.subject?, hplay, hactor, hrun]

theorem single_poll (hs : g.Single) (index room : Nat) : (g.poll index room).Single := by
  cases hi : g.held[index]? with
  | none => simpa [poll, hi] using hs
  | some h =>
    cases hd : h.dropped with
    | true => simpa [poll, hi, hd] using hs
    | false =>
      cases hplay : h.play with
      | requested a => exact single_poll_asked hs hi hd (by rw [hplay]; rfl) room
      | selected =>
        cases hsel : g.playback.selected with
        | some a => exact single_poll_asked hs hi hd (by rw [hplay, hsel]; rfl) room
        | none =>
          have hpoll : g.playback.poll room h.play =
              ⟨g.playback, [], .ended (.refused .noActorSelected), room⟩ := by
            simp [Playback.poll, hplay, hsel]
          rw [poll_eq hi hd, hpoll]
          exact hs.set_idle hi (by simp [Held.underWay?, hplay]) (by simp [Held.underWay?]) rfl
            (fun a he => by cases he)
      | suspended s => exact single_poll_suspended hs hi hd hplay room
      | ended r =>
        have hpoll : g.playback.poll room h.play = ⟨g.playback, [], .ended r, room⟩ := by
          rw [hplay]
          rfl
        rw [poll_eq hi hd, hpoll]
        exact hs.set_idle hi (by simp [Held.underWay?, hplay]) (by simp [Held.underWay?]) rfl
          (fun a he => by cases he)

theorem single_drop (hs : g.Single) (index : Nat) : (g.drop index).Single := by
  cases hi : g.held[index]? with
  | none => simpa [drop, hi] using hs
  | some h =>
    cases hd : h.dropped with
    | true => simpa [drop, hi, hd] using hs
    | false =>
      rw [drop_eq hi hd]
      have hgone : ({ h with dropped := true } : Held).underWay? = none := by
        simp [Held.underWay?]
      have hactor := hs.actor h (List.mem_of_getElem? hi)
      by_cases hunder : h.underWay? = none
      · rw [hs.drop_idle hi hd hunder]
        exact hs.set_idle hi hunder hgone rfl hactor
      · obtain ⟨a, ha⟩ := Option.ne_none_iff_exists'.mp hunder
        have hactive := hs.active_of_underWay hi ha
        refine hs.set_only hi (by rw [hactive, ha]) ?_ hactor
        rw [hgone, drop_active (by rw [ha]; rfl)]

theorem Single.put (hs : g.Single) {pb : Playback} (h : pb.active = g.playback.active) :
    (g.put pb).Single := by
  refine ⟨?_, hs.actor⟩
  show g.underWay = pb.active.toList
  rw [h, hs.active]

theorem Single.append (hs : g.Single) {h : Held} (hidle : h.underWay? = none)
    (hactor : ∀ a, h.play.actor? = some a → h.actor = some a) :
    ({ g with held := g.held ++ [h] } : Programme).Single := by
  refine ⟨?_, ?_⟩
  · have hactive := hs.active
    simp only [underWay] at hactive ⊢
    rw [List.filterMap_append, hactive]
    simp [hidle]
  · intro k hk
    rcases List.mem_append.mp hk with hk | hk
    · exact hs.actor k hk
    · rw [List.mem_singleton.mp hk]
      exact hactor

theorem single_after (hs : g.Single) (move : Move) : (g.after move).Single := by
  cases move with
  | request actor =>
    refine hs.append rfl ?_
    intro a ha
    cases ha
    rfl
  | requestSelected =>
    refine hs.append rfl ?_
    intro a ha
    cases ha
  | poll index room => exact single_poll hs index room
  | drop index => exact single_drop hs index
  | addActor name => exact hs.put rfl
  | removeActor id =>
    refine hs.put ?_
    cases hr : g.playback.removeActor? id with
    | none => rfl
    | some removed =>
      simp only [Playback.removeActor?, Option.map_eq_some_iff] at hr
      obtain ⟨stage, -, rfl⟩ := hr
      rfl
  | select id =>
    refine hs.put ?_
    unfold Playback.select?
    split <;> rfl
  | edit d => exact hs.put rfl

theorem single_afterAll (hs : g.Single) (moves : List Move) : (g.afterAll moves).Single := by
  induction moves generalizing g with
  | nil => exact hs
  | cons move rest ih => exact ih (single_after hs move)

theorem single_opening (settings : Settings) (stage : Stage) : (opening settings stage).Single where
  active := rfl
  actor := fun _ h => nomatch h

end Programme

/-- **The flag is mutual exclusion.** However many plays are asked for on whatever stage, and in
whatever order they are polled and dropped while others act: the flag names an actor exactly if one
play is under way, and that for this actor. A first poll while a play is under way is turned down
with the name of its actor and changes nothing else. A poll that ends a play otherwise, because it
is completed or cancelled or its actor is not there, leaves the flag clear, and so does dropping
the play under way; to drop any other changes nothing. With a clear flag no play is turned down as
busy. -/
theorem active_iff_underWay (settings : Settings) (stage : Stage) (moves : List Move) :
    let g := (Programme.opening settings stage).afterAll moves
    (∀ a, g.playback.active = some a ↔ g.underWay = [a]) ∧
    (g.playback.active = none ↔ g.underWay = []) ∧
    ∀ (index : Nat) (h : Held), g.held[index]? = some h → h.dropped = false →
      (∀ room actor active, h.play.asked? g.playback.selected = some actor →
        g.playback.active = some active →
        g.poll index room =
          ⟨g.playback, g.held.set index ⟨some actor, .ended (.refused (.busy active)), false⟩⟩) ∧
      (∀ room result, h.play.result? = none →
        (g.playback.poll room h.play).result.point = .ended result →
        (∀ e, result = .refused e → ∃ id, e = .actorNotFound id) →
        (g.poll index room).playback.active = none) ∧
      (∀ room active, g.playback.active = none → h.play.result? = none →
        (g.playback.poll room h.play).result.point ≠ .ended (.refused (.busy active))) ∧
      (h.underWay?.isSome = true → (g.drop index).playback.active = none) ∧
      (h.underWay? = none → (g.drop index).playback = g.playback) := by
  intro g
  have hs : g.Single := Programme.single_afterAll (Programme.single_opening settings stage) moves
  have hflag := hs.active
  refine ⟨?_, ?_, ?_⟩
  · intro a
    rw [hflag]
    cases g.playback.active with
    | none => simp
    | some b => simp
  · rw [hflag]
    cases g.playback.active with
    | none => simp
    | some b => simp
  intro index h hi hd
  refine ⟨?_, ?_, ?_, ?_, ?_⟩
  · intro room actor active hasked hactive
    rw [Programme.poll_eq hi hd, Playback.poll_busy hasked hactive,
      hs.subject_of_asked hi hasked, hd]
  · intro room result hplay hended hresult
    rw [Programme.poll_eq hi hd]
    rcases Playback.poll_ended hplay hended with ⟨hclear, -⟩ | ⟨active, -, rfl⟩ | rfl
    · exact hclear
    · obtain ⟨id, he⟩ := hresult _ rfl
      cases he
    · obtain ⟨id, he⟩ := hresult _ rfl
      cases he
  · intro room active hclear hplay hended
    rcases Playback.poll_ended hplay hended with ⟨-, hresult⟩ | ⟨other, hactive, -⟩ | hnone
    · obtain ⟨id, he⟩ := hresult _ rfl
      cases he
    · rw [hclear] at hactive
      cases hactive
    · cases hnone
  · intro hunder
    rw [Programme.drop_eq hi hd]
    exact Programme.drop_active hunder _
  · intro hidle
    rw [Programme.drop_eq hi hd]
    exact hs.drop_idle hi hd hidle

/-- Two plays are asked for and the first is polled: while its actor hides the second one is turned
    down, and the flag is clear again once the first is dropped. A play of an actor that is not
    there leaves it clear. -/
theorem active_iff_underWay_hiding :
    let g := (Programme.opening Settings.initial (.empty ⟨50, 50⟩)).afterAll
      [.addActor none, .addActor none, .edit (.assign ⟨1⟩ [.appear false]), .request ⟨1⟩,
        .request ⟨2⟩, .poll 0 turnRoom]
    g.playback.active = some ⟨1⟩ ∧ g.underWay = [⟨1⟩] ∧
      (∃ h, (g.poll 1 turnRoom).held[1]? = some h ∧
        h.play.result? = some (.refused (.busy ⟨1⟩))) ∧
      (g.drop 0).playback.active = none ∧
      (((Programme.opening Settings.initial (.empty ⟨50, 50⟩)).afterAll [.request ⟨7⟩]).poll 0
        turnRoom).playback.active = none := by
  intro g
  let g₀ := (Programme.opening Settings.initial (.empty ⟨50, 50⟩)).afterAll
    [.addActor none, .addActor none, .edit (.assign ⟨1⟩ [.appear false]), .request ⟨1⟩,
      .request ⟨2⟩]
  let run := Run.start ⟨1⟩ ⟨50, 50, 0⟩ [.appear false]
  have hadvance : run.advance Settings.initial turnRoom g₀.playback.stage =
      { run.perform Settings.initial g₀.playback.stage with
        result := ⟨.suspended ⟨{ run with todo := [] }, .step, .ofMillis 500, true⟩, turnRoom⟩ } :=
    Run.advance_of_suspends rfl rfl
  have hpoll : g₀.playback.poll turnRoom (.requested ⟨1⟩) =
      { ({ g₀.playback with active := some ⟨1⟩ } : Playback).conclude ⟨1⟩
          (run.advance Settings.initial turnRoom g₀.playback.stage) with
        events := .runStarted ⟨1⟩ 1 ::
          (({ g₀.playback with active := some ⟨1⟩ } : Playback).conclude ⟨1⟩
            (run.advance Settings.initial turnRoom g₀.playback.stage)).events } := rfl
  have hg : g = g₀.poll 0 turnRoom := rfl
  have hheld : g₀.held[0]? = some ⟨some ⟨1⟩, .requested ⟨1⟩, false⟩ := rfl
  have hactive : g.playback.active = some ⟨1⟩ := by
    rw [hg, Programme.poll_eq hheld rfl, hpoll, hadvance]
    rfl
  have hfirst : ∃ s, g.held[0]? = some ⟨some ⟨1⟩, .suspended s, false⟩ := by
    rw [hg, Programme.poll_eq hheld rfl, hpoll, hadvance]
    exact ⟨_, rfl⟩
  have hsecond : g.held[1]? = some ⟨some ⟨2⟩, .requested ⟨2⟩, false⟩ := by
    rw [hg, Programme.poll_eq hheld rfl]
    rfl
  obtain ⟨s, hfirst⟩ := hfirst
  obtain ⟨hflag, -, hmoves⟩ := active_iff_underWay Settings.initial (.empty ⟨50, 50⟩)
    [.addActor none, .addActor none, .edit (.assign ⟨1⟩ [.appear false]), .request ⟨1⟩,
      .request ⟨2⟩, .poll 0 turnRoom]
  obtain ⟨hbusy, -⟩ := hmoves 1 _ hsecond rfl
  obtain ⟨-, -, -, hdrop, -⟩ := hmoves 0 _ hfirst rfl
  obtain ⟨-, -, hlost⟩ :=
    active_iff_underWay Settings.initial (.empty ⟨50, 50⟩) [.request ⟨7⟩]
  obtain ⟨-, hclear, -⟩ := hlost 0 ⟨some ⟨7⟩, .requested ⟨7⟩, false⟩ rfl rfl
  refine ⟨hactive, (hflag ⟨1⟩).mp hactive, ?_, hdrop rfl, ?_⟩
  · rw [hbusy turnRoom ⟨2⟩ ⟨1⟩ rfl hactive]
    obtain ⟨hlt, -⟩ := List.getElem?_eq_some_iff.mp hsecond
    exact ⟨_, List.getElem?_set_self hlt, rfl⟩
  · refine hclear turnRoom (.refused (.actorNotFound ⟨7⟩)) rfl rfl ?_
    intro e he
    cases he
    exact ⟨⟨7⟩, rfl⟩

end StagePlay
