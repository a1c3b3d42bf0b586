import StagePlay.Proofs.Script.RoundTrip
import StagePlay.Proofs.Script.Step

/-!
# StagePlay.Proofs.Script.Truncated

A script that is cut off is no script.

The reader stops at the closing bracket of the array, and only there. Before it every text leaves
the reader waiting for more, so that a text that ends early is refused, wherever the cut is: inside
a string or an escape, between two digits of a number, or between two bytes of one character.

* `ScriptReading.eq_of_step_ended`: a script ends with a closing bracket.
* `ScriptReading.exists_core`: an accepted text starts with the one that is read.
* `Script.truncated_refused`: no text that stops short of it is accepted.
-/

namespace StagePlay

open Json (Step consume byteLength)

namespace ScriptReading

variable [Json.Rounding] {r r' : ScriptReading} {c : Char} {cs : List Char} {s : Script}

/-- A script ends with a closing bracket. -/
theorem eq_of_step_ended (h : r.step c = .ended s) : c = ']' := by
  obtain ⟨blocks, phase⟩ := r
  have htook := h ▸ took_step ⟨blocks, phase⟩ c
  cases htook with
  | ended _ => rfl
  | number _ hend => cases hend with | ended _ => rfl

theorem step_ne_before (r : ScriptReading) (c : Char) (s : Script) : r.step c ≠ .before s := by
  intro h
  obtain ⟨blocks, phase⟩ := r
  have htook := h ▸ took_step ⟨blocks, phase⟩ c
  cases htook with
  | number _ hend => cases hend

/-- An accepted text starts with one that the reader has taken when the script ends. -/
theorem exists_core {offset : Nat} (h : r.feed offset cs = .ok s) :
    ∃ core rest, cs = core ++ rest ∧ consume step r core = .ended s := by
  induction cs generalizing r offset with
  | nil => cases h
  | cons c cs ih =>
    rw [feed] at h
    cases hs : r.step c with
    | more next =>
      rw [hs] at h
      obtain ⟨core, rest, rfl, hcore⟩ := ih h
      exact ⟨c :: core, rest, rfl, by rw [Json.consume_cons hs, hcore]⟩
    | ended s' =>
      rw [hs] at h
      cases h
      exact ⟨[c], cs, rfl, by rw [Json.consume_singleton, hs]⟩
    | before s' => exact absurd hs (r.step_ne_before c s')
    | refused f =>
      rw [hs] at h
      cases h

theorem feed_append_more (h : consume step r cs = .more r') (more : List Char) (offset : Nat) :
    r.feed offset (cs ++ more) = r'.feed (offset + byteLength cs) more := by
  induction cs generalizing r offset with
  | nil =>
    cases h
    rfl
  | cons c cs ih =>
    obtain ⟨next, hs, hcs⟩ := Json.of_consume_cons h
    rw [List.cons_append, feed, hs]
    simp only [ih hcs, byteLength, Nat.add_assoc]

/-- A text after which the reader waits for more is refused if it ends there. -/
theorem feed_of_more (h : consume step r cs = .more r') (offset : Nat) :
    r.feed offset cs = .error (r'.cut, offset + byteLength cs) := by
  have hfeed := feed_append_more h [] offset
  rwa [List.append_nil] at hfeed

end ScriptReading

/-- If a file that holds only the first bytes of a text can be read at all, it holds a beginning of
    the text. -/
theorem Files.text_of_cut {files : Files} {path t whole : String} {n : Nat}
    (hn : n < whole.utf8ByteSize) (hfile : files path = .ok (whole.toByteArray.extract 0 n))
    (h : files.text path = .ok t) : ∃ missing, whole = t ++ missing ∧ missing ≠ "" := by
  unfold text at h
  rw [hfile] at h
  simp only [String.fromUTF8?] at h
  split at h
  · rename_i t' ht'
    split at ht'
    · rename_i hvalid
      cases h
      cases ht'
      obtain ⟨front, missing, rfl, hfront⟩ := String.Pos.Raw.isValid_iff_exists_append.mp
        (String.Pos.Raw.isValid_iff_isValidUTF8_extract_zero.mpr
          ⟨show (⟨n⟩ : String.Pos.Raw) ≤ whole.rawEndPos from Nat.le_of_lt hn, hvalid⟩)
      have hsize : n = front.utf8ByteSize := by
        simpa using congrArg String.Pos.Raw.byteIdx hfront
      subst hsize
      refine ⟨missing, ?_, ?_⟩
      · congr 1
        apply String.toByteArray_inj.mp
        simp [String.fromUTF8, ← String.size_toByteArray, ByteArray.extract_append_eq_left]
      · rintro rfl
        simp at hn
    · cases ht'
  · cases h

/-- **A cut-off script is refused.** An accepted text starts with a core that ends with a closing
bracket. Whatever follows the core, it is read as the same script, and no text that stops short of
its end is accepted, nor is a file that does, were it between two bytes of one character. -/
theorem Script.truncated_refused [Json.Rounding] {text : String} {s : Script}
    (h : Script.parse text = .ok s) :
    ∃ core rest : String, text = core ++ rest ∧ core.toList.getLast? = some ']' ∧
      (∀ more, Script.parse (core ++ more) = .ok s) ∧
      (∀ part missing : String, core = part ++ missing → missing ≠ "" →
        ∃ e, Script.parse part = .error e) ∧
      ∀ (files : Files) (path : String) (n : Nat), n < core.utf8ByteSize →
        files path = .ok (core.toByteArray.extract 0 n) →
        ∃ e, Script.load files path = .error e := by
  obtain ⟨core, rest, htext, hcore⟩ := ScriptReading.exists_core (Script.feed_of_parse h)
  obtain ⟨init, last, r, rfl, -, hlast⟩ := Json.consume_eq_ended hcore
  have hshort : ∀ part missing : String, String.ofList (init ++ [last]) = part ++ missing →
      missing ≠ "" → ∃ e, Script.parse part = .error e := by
    intro part missing hsplit hne
    have hsplit' : init ++ [last] = part.toList ++ missing.toList := by
      rw [← String.toList_append, ← hsplit, String.toList_ofList]
    rw [hsplit'] at hcore
    obtain ⟨r', hmore, -⟩ := Json.more_of_append_ended (by simpa using hne) hcore
    rw [Script.parse, ScriptReading.feed_of_more hmore]
    exact ⟨_, rfl⟩
  refine ⟨.ofList (init ++ [last]), .ofList rest, ?_, ?_, fun more => ?_, hshort, ?_⟩
  · rw [← String.ofList_append, ← htext, String.ofList_toList]
  · rw [String.toList_ofList, List.getLast?_concat, ScriptReading.eq_of_step_ended hlast]
  · rw [Script.parse, String.toList_append, String.toList_ofList,
      ScriptReading.feed_append hcore]
  · intro files path n hn hfile
    unfold Script.load
    cases ht : files.text path with
    | error fault => exact ⟨_, rfl⟩
    | ok t =>
      obtain ⟨missing, hsplit, hne⟩ := Files.text_of_cut hn hfile ht
      exact hshort t missing hsplit hne

open scoped Json.FastRounding in
/-- More text stands behind the script, with a bracket in it, and the script is cut off inside a
    string that holds one too. -/
theorem Script.truncated_refused_string :
    Script.parse "[\"]\"] as [in]" = .ok [.unknown] ∧ ∃ e, Script.parse "[\"]" = .error e := by
  have hparse : Script.parse "[\"]\"] as [in]" = .ok [.unknown] := by cbv
  refine ⟨hparse, ?_⟩
  obtain ⟨core, rest, htext, -, hwhole, hshort, -⟩ := Script.truncated_refused hparse
  have hopen : ∀ more, core ++ more ≠ "[\"]" := by
    intro more h
    have hmore := hwhole more
    rw [h] at hmore
    have hcut : Script.parse "[\"]"
        = .error (.malformed (.json .textCutShort) [.index 0] ⟨1, 3⟩) := by cbv
    rw [hcut] at hmore
    cases hmore
  have hlists : core.toList ++ rest.toList = "[\"]".toList ++ "\"] as [in]".toList := by
    rw [← String.toList_append, ← htext, ← String.toList_append]
    rfl
  -- the cut is inside the script, for the reader does not accept what stands before it
  rcases List.append_eq_append_iff.mp hlists with ⟨more, hmore, -⟩ | ⟨missing, hmissing, -⟩
  · refine absurd ?_ (hopen (.ofList more))
    exact String.toList_injective (by rw [String.toList_append, String.toList_ofList, hmore])
  · have hcore : core = "[\"]" ++ .ofList missing :=
      String.toList_injective (by simp [hmissing])
    refine hshort _ (.ofList missing) hcore fun hnil => hopen "" ?_
    rw [String.append_empty, hcore, hnil, String.append_empty]

end StagePlay
