import StagePlay.Proofs.Decimal.Hundredths
import StagePlay.Proofs.Console.Export
import StagePlay.Proofs.Stage.Finite

/-!
# StagePlay.Proofs.Console.Display

The numbers that the console shows of an actor.

Numbers are shown in hundredths, and on the way there a number is made a hundred times as large.

* `displays_number`: a finite number is shown in full, unless that is too large for a double. Then
  it is shown as an infinity, although neither the number nor its hundredths are one.
* `Session.shown_unless_large`: the same for the numbers in the list of actors, in the answer to a
  line that places an actor and in the report of a play.
-/

namespace StagePlay

open Binary64 (value isNegative ofPattern infinity)
open Numeral (InFull)

namespace Console

variable {x : Float}

theorem isFinite_hundredths (h : x.isFinite = true)
    (hsmall : 100 * |value x| < 2 ^ 1024 - 2 ^ 970) : (hundredths x).isFinite = true :=
  Binary64.isFinite_div_hundred (Binary64.isFinite_roundHalfAway
    ((Binary64.mul_hundred h).1 ((Binary64.lt_overflow_iff x).mpr hsmall)))

theorem hundredths_of_large (h : x.isFinite = true)
    (hlarge : 2 ^ 1024 - 2 ^ 970 ≤ 100 * |value x|) :
    hundredths x = ofPattern (isNegative x) infinity := by
  have hover : Binary64.overflow ≤ 100 * Binary64.units (Binary64.pattern x) :=
    Nat.not_lt.mp fun hlt => not_lt.mpr hlarge ((Binary64.lt_overflow_iff x).mp hlt)
  rw [hundredths, (Binary64.mul_hundred h).2 hover]
  cases isNegative x <;> decide +kernel

/-- How a finite number is shown: in full, as a number that is finite when it is read, or as an
    infinity if its hundredfold is beyond the largest double. -/
inductive Displays (x : Float) : String → Prop where
  | inFull {text : String} : 100 * |value x| < 2 ^ 1024 - 2 ^ 970 → InFull text.toList →
      (∃ y, Numeral.float? text.toList = some y ∧ y.isFinite = true) → Displays x text
  | infinite : 2 ^ 1024 - 2 ^ 970 ≤ 100 * |value x| →
      Displays x (if isNegative x then "-inf" else "inf")

theorem displays_number (h : x.isFinite = true) : Displays x (number x) := by
  rcases lt_or_ge (100 * |value x|) (2 ^ 1024 - 2 ^ 970) with hsmall | hlarge
  · have hfinite := isFinite_hundredths h hsmall
    refine .inFull hsmall ?_ ⟨_, ?_, Binary64.isFinite_signless hfinite⟩
    · rw [number, String.toList_ofList]
      exact inFull_shown hfinite
    · rw [number, String.toList_ofList]
      exact float?_shown _
  · have hnumber : number x = if isNegative x then "-inf" else "inf" := by
      rw [number, hundredths_of_large h hlarge]
      cases isNegative x <;> decide +kernel
    rw [hnumber]
    exact .infinite hlarge

/-- The numbers that are not shown in full are those with a hundredfold that is too large. -/
theorem Displays.infinite_iff {text : String} (h : Displays x text) :
    text ∈ ["inf", "-inf", "NaN"] ↔ 2 ^ 1024 - 2 ^ 970 ≤ 100 * |value x| := by
  cases h with
  | inFull hsmall hfull _ =>
    refine iff_of_false (fun hmem => ?_) (not_le.mpr hsmall)
    obtain ⟨c, hc, hword⟩ : ∃ c ∈ text.toList, c = 'n' ∨ c = 'N' := by
      simp only [List.mem_cons, List.not_mem_nil, or_false] at hmem
      rcases hmem with rfl | rfl | rfl <;> simp
    rcases hword with rfl | rfl <;> exact absurd (hfull.char hc) (by decide)
  | infinite hlarge =>
    refine iff_of_true ?_ hlarge
    split <;> simp

end Console

/-! ## The answers of a session -/

namespace Session

open Console (Displays)

/-- What the list of actors tells of an actor after its numbers. -/
def particulars (a : Snapshot) : String :=
  (if a.visible then "" else " hidden") ++
    (a.speech.elim "" fun speech => " " ++ Console.verb speech.kind ++ " \"" ++ speech.text ++ "\"")

theorem describe_eq (a : Snapshot) : Console.describe a =
    "#" ++ toString a.id ++ " " ++ a.name ++ " at " ++ Console.motion a.motion ++
      particulars a := by
  rw [Console.describe, particulars]
  cases a.speech <;> simp only [Option.elim, String.append_assoc]

theorem lines_actors {s : Session} (h : s.playback.stage.snapshots ≠ []) (files : Files) :
    (s.reply files .actors).lines = s.playback.stage.snapshots.map fun a =>
      (if s.playback.selected = some a.id then "*" else " ") ++ " " ++ Console.describe a := by
  change s.actorLines = _
  unfold actorLines
  split
  next hnone => exact absurd hnone h
  next => rfl

theorem lines_place {s : Session} {id : ActorId} (hid : s.playback.stage.contains id = true)
    (files : Files) (p : Point) :
    (s.reply files (.place id p.x p.y)).lines =
      ["placed actor " ++ toString id ++ " at " ++ Console.place p] := by
  obtain ⟨a, ha⟩ := Option.isSome_iff_exists.mp hid
  have hplace : s.playback.stage.place? id ⟨p.x, p.y⟩ =
      some (s.playback.stage.update id { a with motion := a.motion.moveTo p },
        { a.toSnapshot with motion := a.motion.moveTo p }) := by
    rw [Stage.place?, Stage.write?, ha]
    rfl
  simp only [reply, answer, hplace]

/-- **The numbers of an actor are shown as finite numbers, but for some that are too large.** An
actor at a finite place, with a finite heading, has one text for each of its three numbers: the
number in full, or an infinity if its hundredfold is beyond the largest double. These three are the
texts in the list of actors, in the answer to a line that places it there, and in the report of a
play that has led it there. -/
theorem shown_unless_large {m : Motion} (hm : m.Finite) :
    ∃ x y heading : String,
      Displays m.place.x x ∧ Displays m.place.y y ∧ Displays m.heading heading ∧
      (∀ (s : Session) (files : Files), ∀ a ∈ s.playback.stage.snapshots, a.motion = m →
        (if s.playback.selected = some a.id then "*" else " ") ++ " #" ++ toString a.id ++ " " ++
          a.name ++ " at (" ++ x ++ ", " ++ y ++ ") heading " ++ heading ++ "°" ++ particulars a
            ∈ (s.reply files .actors).lines) ∧
      (∀ (s : Session) (files : Files) (id : ActorId), s.playback.stage.contains id = true →
        (s.reply files (.place id m.place.x m.place.y)).lines =
          ["placed actor " ++ toString id ++ " at (" ++ x ++ ", " ++ y ++ ")"]) ∧
      ∀ r : InFlight, r.play.result? = some (.completed m) →
        report r = ["actor " ++ toString r.actor ++ " finished at (" ++ x ++ ", " ++ y ++
          ") heading " ++ heading ++ "°"] := by
  have hopen : " at (" = " at " ++ "(" := rfl
  have hclose : ") heading " = ")" ++ " heading " := rfl
  refine ⟨_, _, _, Console.displays_number hm.place.x, Console.displays_number hm.place.y,
    Console.displays_number hm.heading, fun s files a ha hmotion => ?_, fun s files id hid => ?_,
    fun r hr => ?_⟩
  · have hmark : " #" = " " ++ "#" := rfl
    rw [lines_actors (List.ne_nil_of_mem ha), List.mem_map]
    refine ⟨a, ha, ?_⟩
    simp only [describe_eq, hmotion, Console.motion, Console.place, hmark, hopen, hclose,
      String.append_assoc]
  · have hlines := lines_place hid files m.place
    simpa only [Console.place, hopen, String.append_assoc] using hlines
  · have hfinished : " finished at (" = " finished at " ++ "(" := rfl
    rw [report, hr]
    simp only [Option.map_some, Option.toList_some, Console.outcome, Console.motion, Console.place,
      hfinished, hclose, String.append_assoc]

/-- A number whose hundredfold is too large, although it is itself far from it. -/
def large : Float := Decimal.toFloat false ⟨1, 307⟩

theorem finite_large {y heading : Float} (hy : y.isFinite = true)
    (hheading : heading.isFinite = true) : (Motion.mk large y heading).Finite := by
  have hlarge : large.isFinite = true := by decide +kernel
  exact ⟨⟨by simpa only [Motion.place] using hlarge, hy⟩, hheading⟩

/-- An actor is placed where one coordinate is too large, and a play ends there. -/
theorem shown_unless_large_placed :
    let s := (initial .initial).1
    ∃ x y heading : String, Displays large x ∧ Displays (-0.005) y ∧ Displays 90 heading ∧
      (s.reply (Folder.read []) (.place ⟨1⟩ large (-0.005))).lines =
        ["placed actor 1 at (" ++ x ++ ", " ++ y ++ ")"] ∧
      report ⟨⟨1⟩, .ended (.completed ⟨large, -0.005, 90⟩), 0⟩ =
        ["actor 1 finished at (" ++ x ++ ", " ++ y ++ ") heading " ++ heading ++ "°"] := by
  intro s
  obtain ⟨x, y, heading, hx, hy, hheading, -, hplace, hreport⟩ :=
    shown_unless_large (m := ⟨large, -0.005, 90⟩)
      (finite_large (by decide +kernel) (by decide +kernel))
  simp only [Motion.place] at hx hy hplace
  exact ⟨x, y, heading, hx, hy, hheading, hplace s _ ⟨1⟩ rfl, hreport ⟨⟨1⟩, _, 0⟩ rfl⟩

/-- So a finite number need not be shown as one. The actor is at a finite place, and the answer and
    the list of actors show it at an infinite one. -/
theorem shown_infinite_large :
    let placed := (initial .initial).1.handle (Folder.read []) "place 1 1e307 0"
    (∃ a ∈ placed.session.playback.stage.snapshots, a.motion.Finite) ∧
    placed.lines = ["placed actor 1 at (inf, 0)"] ∧
    (placed.session.handle (Folder.read []) "actors").lines =
      ["* #1 Sprite 1 at (inf, 0) heading 0°"] := by
  intro placed
  have hlarge : Console.number large = "inf" := by decide +kernel
  have hzero : Console.number 0 = "0" := by decide +kernel
  have hline : Console.Registry.builtin.line "place 1 1e307 0" =
      .request (.place ⟨1⟩ large 0) := rfl
  have hplaced : placed = (initial .initial).1.reply (Folder.read []) (.place ⟨1⟩ large 0) := by
    simp only [placed, handle, hline]
    rfl
  have hactors : placed.session.playback.stage.snapshots =
      [⟨⟨1⟩, "Sprite 1", ⟨large, 0, 0⟩, true, none⟩] := by
    rw [hplaced]
    rfl
  refine ⟨?_, ?_, ?_⟩
  · rw [hactors]
    exact ⟨_, List.mem_singleton_self _, finite_large (by decide) (by decide)⟩
  · rw [hplaced, lines_place (p := ⟨large, 0⟩) rfl, Console.place, hlarge, hzero]
    rfl
  · have hlist : Console.Registry.builtin.line "actors" = .request .actors := rfl
    have hanswer : (placed.session.handle (Folder.read []) "actors").lines =
        (placed.session.reply (Folder.read []) .actors).lines := by
      simp only [handle, hlist]
      rfl
    have hselected : placed.session.playback.selected = some ⟨1⟩ := rfl
    rw [hanswer, lines_actors (by simp [hactors]), hactors, List.map_singleton, hselected,
      Console.describe, Console.motion, Console.place]
    simp only [Motion.place, hlarge, hzero]
    rfl

end Session

end StagePlay
