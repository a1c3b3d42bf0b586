import StagePlay.Console.Session.Reply
import StagePlay.Proofs.Script.Label
import StagePlay.Proofs.Script.Tree

/-!
# StagePlay.Proofs.Console.Listing

What the console lists of a script tells which script it is.

An entry has the label of a block, after the index of the block or after blanks for the loops that
the block is in. Labels begin with a letter, so an entry gives away its blanks and its label. The
blanks of all entries together give away which blocks are inside which.

* `Console.listing_eq_places`: one entry for each place of the script, in reading order.
* `Console.entry_inj`, `Console.listing_eq_iff`: equal lists are of equal scripts.
* `Session.listing_faithful`: both for the answer of a session.
-/

namespace StagePlay

open Script (Alike)

/-! ## Entries by places -/

namespace Console

/-- What stands before a label: the index of an outermost block, or four blanks for each loop
    around another one. -/
def lead : List Nat → String
  | [i] => toString i ++ ": "
  | p => String.ofList (List.replicate (4 * (p.length - 1)) ' ')

end Console

/-- The entry for the block at a place. -/
def Script.entryAt (s : Script) (p : List Nat) : String :=
  Console.lead p ++ ((s.at? p).map Command.label).getD ""

namespace Console

/-- The entry for a block inside loops, of which there are this many. -/
def insideEntry (b : Nat × Option Command) : String :=
  String.ofList (List.replicate (4 * b.1) ' ') ++ (b.2.map Command.label).getD ""

theorem entry_inside (i : Nat) {b : Nat × Command} (hb : 1 ≤ b.1) :
    entry i b = insideEntry (b.1, some b.2) := by
  obtain ⟨d, c⟩ := b
  cases d with
  | zero => exact absurd hb (Nat.not_succ_le_zero 0)
  | succ d => rfl

/-- The entries for what is inside a block, whose index is no longer told there. -/
theorem map_entry_inside (i : Nat) {s body : Script}
    (h : ∀ j p, s.at? (i :: j :: p) = body.at? (j :: p)) :
    (Script.outlineAt 1 body).map (entry i) = (body.places.map (i :: ·)).map s.entryAt := by
  have hplaces := Script.map_placesFrom [] body 1
  calc (Script.outlineAt 1 body).map (entry i)
      = ((Script.outlineAt 1 body).map fun b => (b.1, some b.2)).map insideEntry := by
        rw [List.map_map]
        exact List.map_congr_left fun b hb => entry_inside i (Script.le_depth hb)
    _ = (body.places.map fun p => (p.length - 1 + 1, body.at? p)).map insideEntry := by
        rw [← hplaces]
        rfl
    _ = (body.places.map (i :: ·)).map s.entryAt := by
        rw [List.map_map, List.map_map]
        refine List.map_congr_left fun p hp => ?_
        obtain ⟨j, q, rfl⟩ := Script.exists_of_mem_placesFrom hp
        simp only [Function.comp_apply, Script.entryAt, h, lead, insideEntry, List.length_cons,
          Nat.add_sub_cancel]

theorem listingFrom_eq_places (before s : Script) :
    listingFrom before.length s =
      (Script.placesFrom before.length s).map (before ++ s).entryAt := by
  induction s generalizing before with
  | nil => simp [listingFrom, Script.placesFrom]
  | cons c rest ih =>
    have hlater := ih (before ++ [c])
    rw [List.append_assoc, List.singleton_append, List.length_append, List.length_singleton]
      at hlater
    have hfirst : (before ++ c :: rest).entryAt [before.length] = entry before.length (0, c) := by
      simp [Script.entryAt, lead, Script.at?, entry]
    have hat : ∀ j p, (before ++ c :: rest).at? (before.length :: j :: p) = c.inner.at? (j :: p) :=
      fun j p => by simp [Script.at?]
    have hinside := map_entry_inside before.length hat
    rw [listingFrom, Script.placesFrom, Command.outlineAt_eq, List.map_append, hlater,
      List.map_cons, List.map_cons, hfirst, hinside]
    rfl

/-- A script is listed place by place. -/
theorem listing_eq_places (s : Script) : listing s = s.places.map s.entryAt :=
  listingFrom_eq_places [] s

/-! ## Entries apart -/

/-- Labels begin with a letter. -/
theorem label_eq_cons (c : Command) :
    ∃ a rest, c.label.toList = a :: rest ∧ a ≠ ' ' := by
  rcases c with (x | x | ⟨x, y⟩) | (_ | _) | x | ⟨(_ | _), t⟩ | ⟨n, body⟩ | _ <;>
    simp [Command.label]

/-- The digits of an index end at its colon. -/
theorem index_inj {i i' : Nat} {a b : String}
    (h : toString i ++ ": " ++ a = toString i' ++ ": " ++ b) : a = b := by
  have htext : ∀ n : Nat, (toString n).toList = Nat.toDigits 10 n := fun _ => String.toList_ofList
  have hlist := congrArg (List.dropWhile Char.isDigit) (congrArg String.toList h)
  simp only [String.toList_append, htext, List.append_assoc] at hlist
  rw [(Numeral.takeWhile_digits (Numeral.digits_toDigits i) (by simp)).2,
    (Numeral.takeWhile_digits (Numeral.digits_toDigits i') (by simp)).2] at hlist
  exact String.toList_inj.mp (List.append_cancel_left hlist)

/-- Blanks end where a label begins. -/
theorem blanks_inj {m n : Nat} {a a' : Char} {rest rest' : List Char} (ha : a ≠ ' ')
    (ha' : a' ≠ ' ')
    (h : List.replicate m ' ' ++ a :: rest = List.replicate n ' ' ++ a' :: rest') :
    m = n ∧ a :: rest = a' :: rest' := by
  induction m generalizing n with
  | zero =>
    cases n with
    | zero => exact ⟨rfl, h⟩
    | succ n =>
      injection h with hhead
      exact absurd hhead ha
  | succ m ih =>
    cases n with
    | zero =>
      injection h with hhead
      exact absurd hhead.symm ha'
    | succ n =>
      injection h with _ htail
      obtain ⟨hmn, hrest⟩ := ih htail
      exact ⟨congrArg Nat.succ hmn, hrest⟩

theorem indent_inj {m n : Nat} {c c' : Command}
    (h : String.ofList (List.replicate m ' ') ++ c.label =
      String.ofList (List.replicate n ' ') ++ c'.label) : m = n ∧ c.label = c'.label := by
  obtain ⟨a, rest, hlabel, ha⟩ := label_eq_cons c
  obtain ⟨a', rest', hlabel', ha'⟩ := label_eq_cons c'
  rw [String.ext_iff, String.toList_append, String.toList_append, String.toList_ofList,
    String.toList_ofList, hlabel, hlabel'] at h
  obtain ⟨hmn, hrest⟩ := blanks_inj ha ha' h
  exact ⟨hmn, String.toList_inj.mp (by rw [hlabel, hlabel', hrest])⟩

/-- An index is not taken for blanks. -/
theorem entry_ne {i i' d : Nat} {c c' : Command} : entry i (0, c) ≠ entry i' (d + 1, c') := by
  intro h
  have htext : (toString i).toList = Nat.toDigits 10 i := String.toList_ofList
  obtain ⟨a, rest, hdigits⟩ := List.exists_cons_of_ne_nil (Nat.toDigits_ne_nil (n := i) (b := 10))
  have hdigit : a.isDigit = true :=
    Numeral.digits_toDigits i a (hdigits ▸ List.mem_cons_self)
  have hhead := congrArg List.head? (congrArg String.toList h)
  simp only [entry, String.toList_append, htext, hdigits, String.toList_ofList, List.cons_append,
    List.head?_cons, Nat.mul_add, List.replicate_succ, Option.some.injEq] at hhead
  subst hhead
  cases hdigit

/-- An entry gives away how many loops are around the block, and the label. -/
theorem entry_inj {i i' : Nat} {b b' : Nat × Command} (h : entry i b = entry i' b') :
    b.1 = b'.1 ∧ b.2.label = b'.2.label := by
  obtain ⟨d, c⟩ := b
  obtain ⟨d', c'⟩ := b'
  cases d with
  | zero =>
    cases d' with
    | zero => exact ⟨rfl, index_inj h⟩
    | succ d' => exact absurd h entry_ne
  | succ d =>
    cases d' with
    | zero => exact absurd h.symm entry_ne
    | succ d' =>
      obtain ⟨hdepth, hlabel⟩ := indent_inj h
      exact ⟨Nat.eq_of_mul_eq_mul_left (by decide) hdepth, hlabel⟩

/-! ## Lists apart -/

/-- The entries of a script are those of its outline, with some indices. -/
theorem forall₂_listingFrom (i : Nat) (s : Script) :
    List.Forall₂ (fun e b => ∃ j, e = entry j b) (listingFrom i s) (Script.outlineAt 0 s) := by
  induction s generalizing i with
  | nil => exact .nil
  | cons c rest ih =>
    refine List.rel_append ?_ (ih (i + 1))
    exact List.forall₂_map_left_iff.mpr (List.forall₂_same.mpr fun b _ => ⟨i, rfl⟩)

theorem forall₂_common {α β : Type} {R : α → β → Prop} {Q : β → β → Prop} {as : List α}
    {bs bs' : List β} (h : List.Forall₂ R as bs) (h' : List.Forall₂ R as bs')
    (hQ : ∀ a, ∀ b ∈ bs, ∀ b' ∈ bs', R a b → R a b' → Q b b') : List.Forall₂ Q bs bs' := by
  induction h generalizing bs' with
  | nil =>
    cases h'
    exact .nil
  | cons hfirst _ ih =>
    cases h' with
    | cons hfirst' hrest' =>
      refine .cons (hQ _ _ List.mem_cons_self _ List.mem_cons_self hfirst hfirst') (ih hrest' ?_)
      exact fun a b hb b' hb' => hQ a b (List.mem_cons_of_mem _ hb) b' (List.mem_cons_of_mem _ hb')

variable {s s' : Script}

/-- Equal lists are of equal scripts. -/
theorem same_of_listing (hs : ∀ b ∈ s.outline, b.2.Finite) (hs' : ∀ b ∈ s'.outline, b.2.Finite)
    (h : listing s = listing s') : Script.same s s' = true := by
  have hlist := forall₂_listingFrom 0 s
  have hlist' := forall₂_listingFrom 0 s'
  change listingFrom 0 s = listingFrom 0 s' at h
  rw [← h] at hlist'
  refine Script.same_iff_outline.mpr (forall₂_common hlist hlist' ?_)
  rintro e b hb b' hb' ⟨j, rfl⟩ ⟨j', he⟩
  obtain ⟨hdepth, hlabel⟩ := entry_inj he
  exact ⟨hdepth, (Command.label_eq_iff (hs b hb) (hs' b' hb')).mp hlabel⟩

theorem map_entry_of_alike {bs bs' : List (Nat × Command)} (hbs : ∀ b ∈ bs, b.2.Finite)
    (hbs' : ∀ b ∈ bs', b.2.Finite) (h : List.Forall₂ Alike bs bs') (i : Nat) :
    bs.map (entry i) = bs'.map (entry i) := by
  induction h with
  | nil => rfl
  | @cons b b' _ _ hfirst _ ih =>
    obtain ⟨hb, hrest⟩ := List.forall_mem_cons.mp hbs
    obtain ⟨hb', hrest'⟩ := List.forall_mem_cons.mp hbs'
    have hlabel := (Command.label_eq_iff hb hb').mpr hfirst.bare
    have hentry : entry i b = entry i b' := by
      obtain ⟨d, c⟩ := b
      obtain ⟨d', c'⟩ := b'
      obtain rfl : d = d' := hfirst.depth
      cases d <;> simp only [entry, hlabel]
    rw [List.map_cons, List.map_cons, hentry, ih hrest hrest']

/-- Equal scripts have equal lists. -/
theorem listingFrom_of_same (hs : ∀ b ∈ s.outline, b.2.Finite)
    (hs' : ∀ b ∈ s'.outline, b.2.Finite) (h : Script.same s s' = true) (i : Nat) :
    listingFrom i s = listingFrom i s' := by
  induction s generalizing s' i with
  | nil =>
    cases s' with
    | nil => rfl
    | cons => cases h
  | cons c rest ih =>
    cases s' with
    | nil => cases h
    | cons c' rest' =>
      obtain ⟨hc, hrest⟩ := Script.forall_outlineAt_cons.mp hs
      obtain ⟨hc', hrest'⟩ := Script.forall_outlineAt_cons.mp hs'
      rw [Script.same, Bool.and_eq_true] at h
      have hfirst : List.Forall₂ Alike (c.outlineAt 0) (c'.outlineAt 0) := by
        have hsingle : Script.same [c] [c'] = true := by rw [Script.same, h.1]; rfl
        simpa [Script.outlineAt] using Script.forall₂_outline hsingle 0
      rw [listingFrom, listingFrom, map_entry_of_alike hc hc' hfirst,
        ih hrest hrest' h.2]

theorem listing_eq_iff (hs : ∀ b ∈ s.outline, b.2.Finite) (hs' : ∀ b ∈ s'.outline, b.2.Finite) :
    listing s = listing s' ↔ Script.same s s' = true :=
  ⟨same_of_listing hs hs', fun h => listingFrom_of_same hs hs' h 0⟩

end Console

/-! ## The answer of a session -/

namespace Session

variable {s : Session} {id : ActorId} {script : Script}

theorem lines_script (hselected : s.playback.selected = some id)
    (hscript : s.playback.stage.script? id = some script) (hne : script ≠ []) (files : Files) :
    (s.reply files .script).lines = Console.listing script ++ ["json: " ++ script.toJson] := by
  have hanswer : s.answer files .script = .ok (s.say (scriptLines id script)) := by
    simp only [answer, chosen, hselected]
    simp only [bind, Except.bind, hscript]
    rfl
  rw [reply, hanswer]
  simp [say, scriptLines, hne]

/-- **The listing of a script is faithful.** If the chosen actor has a script of some blocks, all
numbers of which are finite, then the answer to `script` is one entry for each place of the script
and the line with the JSON. The places come in reading order; the entry for one has the index of an
outermost block, or four blanks for each loop around another one, and the label of the block. In
any session, the entries of such a script are these only if it is an equal script, block by block
and at every depth. -/
theorem listing_faithful (hselected : s.playback.selected = some id)
    (hscript : s.playback.stage.script? id = some script) (hne : script ≠ [])
    (hfinite : ∀ b ∈ script.outline, b.2.Finite) :
    (∀ p, p ∈ script.places ↔ (script.at? p).isSome = true) ∧
    script.places.Pairwise (· < ·) ∧
    (∀ files, (s.reply files .script).lines =
      script.places.map script.entryAt ++ ["json: " ++ script.toJson]) ∧
    ∀ (s' : Session) (id' : ActorId) (script' : Script) (entries : List String),
      s'.playback.selected = some id' → s'.playback.stage.script? id' = some script' →
      script' ≠ [] → (∀ b ∈ script'.outline, b.2.Finite) →
      (∀ files, (s'.reply files .script).lines = entries ++ ["json: " ++ script'.toJson]) →
      (entries = script.places.map script.entryAt ↔ Script.same script script' = true) := by
  refine ⟨fun p => Script.mem_places_iff, Script.sorted_placesFrom 0 script, fun files => ?_, ?_⟩
  · rw [lines_script hselected hscript hne, Console.listing_eq_places]
  · intro s' id' script' entries hselected' hscript' hne' hfinite' hlines
    have hentries : entries = Console.listing script' := by
      have h := hlines (Folder.read [])
      rw [lines_script hselected' hscript' hne'] at h
      exact (List.append_cancel_right h).symm
    rw [hentries, ← Console.listing_eq_places, eq_comm]
    exact Console.listing_eq_iff hfinite hfinite'

/-- A session whose only actor has this script. -/
def holding (script : Script) : Session :=
  (initial .initial).1.putStage
    ⟨[⟨⟨⟨1⟩, "Sprite 1", ⟨50, 50, 0⟩, true, none⟩, script⟩], 1, ⟨50, 50⟩⟩

/-- A block that hides stands after a loop, and another one inside it. What the block before it
    says looks like an entry, but the blanks in front tell them apart. -/
theorem listing_faithful_blanks :
    let after : Script := [.loop 2 [.speak .say "1: Hide"], .appear false]
    let inside : Script := [.loop 2 [.speak .say "1: Hide", .appear false]]
    ((holding after).reply (Folder.read []) .script).lines =
      ["0: Repeat 2 times", "    Say 1: Hide", "1: Hide", "json: " ++ after.toJson] ∧
    inside.places.map inside.entryAt ≠ after.places.map after.entryAt := by
  intro after inside
  have hafter : ∀ b ∈ after.outline, b.2.Finite := by
    simp [after, Script.outline, Script.outlineAt, Command.outlineAt, Command.Finite,
      Command.contents]
  have hinside : ∀ b ∈ inside.outline, b.2.Finite := by
    simp [inside, Script.outline, Script.outlineAt, Command.outlineAt, Command.Finite,
      Command.contents]
  have hselected : ∀ script, (holding script).playback.selected = some ⟨1⟩ := fun _ => rfl
  have hscript : ∀ script, (holding script).playback.stage.script? ⟨1⟩ = some script :=
    fun _ => rfl
  obtain ⟨-, -, hlines, hsame⟩ :=
    listing_faithful (hselected after) (hscript after) (by simp [after]) hafter
  obtain ⟨-, -, hlines', -⟩ :=
    listing_faithful (hselected inside) (hscript inside) (by simp [inside]) hinside
  refine ⟨?_, fun hentries => ?_⟩
  · have hlist : Console.listing after =
        ["0: Repeat 2 times", "    Say 1: Hide", "1: Hide"] := by decide +kernel
    rw [hlines, ← Console.listing_eq_places, hlist]
    rfl
  · have hother : Script.same after inside = true :=
      (hsame _ _ _ _ (hselected inside) (hscript inside) (by simp [inside]) hinside hlines').mp
        hentries
    simp [after, inside, Script.same, Command.same] at hother

end Session

end StagePlay
