import StagePlay.Run.Duration
import StagePlay.Stage.Motion

/-!
# StagePlay.Settings

Pacing, the collision distance, and where actors appear.

* `normalized_idem`: settings that have been normalized stay as they are.
-/

namespace StagePlay

structure Settings where
  /-- The pause after a block that moves, turns, shows or hides. -/
  step : Duration
  /-- How long a speech bubble stays. -/
  speech : Duration
  collisionDistance : Float
  spawnPoint : Point

namespace Settings

def defaultDistance : Float := 50
def defaultSpawnPoint : Point := ⟨50, 50⟩

def defaultStep : Duration := .ofMillis 500
def defaultSpeech : Duration := .ofMillis 2000

def initial : Settings := ⟨defaultStep, defaultSpeech, defaultDistance, defaultSpawnPoint⟩

/-- Replaces a distance or a place that collisions cannot be told by. -/
def normalized (s : Settings) : Settings :=
  { s with
    collisionDistance :=
      if !s.collisionDistance.isFinite || s.collisionDistance < 0 then defaultDistance
      else s.collisionDistance
    spawnPoint :=
      if !s.spawnPoint.x.isFinite || !s.spawnPoint.y.isFinite then defaultSpawnPoint
      else s.spawnPoint }

theorem normalized_idem (s : Settings) : s.normalized.normalized = s.normalized := by
  have distance : (!defaultDistance.isFinite || decide (defaultDistance < 0)) = false := by
    decide +kernel
  have place : (!defaultSpawnPoint.x.isFinite || !defaultSpawnPoint.y.isFinite) = false := by
    decide +kernel
  simp only [normalized, mk.injEq, true_and]
  constructor
  · split
    · rw [if_neg (by simp [distance])]
    · rfl
  · split
    · rw [if_neg (by simp [place])]
    · rfl

end Settings

end StagePlay
