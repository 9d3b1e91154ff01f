import Savegame.Proofs.SlotStore

/-!
# Falling back on the save before

Bytes from outside in the place of a slot's file cost no more than the latest save. Whatever calls
were made before, the backup holds the save before the latest, if the slot was saved twice since it
was last removed, and nothing else is ever taken for it.
-/

namespace Savegame.SaveDirectory

open FileTree

/-- A game as it was given to be saved, with the date. -/
structure GameSave where
  date : Date
  game : Game

/-- The saves of a slot after a call, the latest first. -/
def StoreCall.note (slot : UInt16) (past : List GameSave) : StoreCall → List GameSave
  | save i date g => if i = slot then ⟨date, g⟩ :: past else past
  | remove i => if i = slot then [] else past
  | load _ _ | list => past

/-- What a slot was saved with since it was last removed, the latest first. -/
def savedWith (slot : UInt16) (calls : List StoreCall) : List GameSave :=
  calls.foldl (StoreCall.note slot) []

/-- The game is put out as the bytes of the save. -/
def GameSave.Puts (given : GameSave) (save : SlotSave) : Prop :=
  (given.game.saveToBytes given.date).answer = .ok save.bytes

namespace Store

variable {settings : Settings} {s : Store} {slot : UInt16} {call : StoreCall}
  {calls : List StoreCall} {given past : List GameSave} {save last : SlotSave} {g h : Game}
  {bytes raw : Bytes} {m : SlotMetadata}

namespace IsSound

theorem puts_step (hs : s.IsSound settings) (hsettings : settings.validate = .ok ())
    (hcall : call.IsUnder settings) (hputs : past.Forall₂ GameSave.Puts (s.saves slot)) :
    (call.note slot past).Forall₂ GameSave.Puts ((s.step call).saves slot) := by
  cases call with
  | save i date g =>
    obtain ⟨save, -, hbytes, hsaved⟩ := exists_save hsettings hcall i date
    rw [step_save_of_ok hbytes (hsaved s hs).1, StoreCall.note]
    dsimp only
    by_cases hi : i = slot
    · subst hi
      rw [if_pos rfl, Function.update_self]
      exact .cons hbytes hputs
    · rw [if_neg hi, Function.update_of_ne (Ne.symm hi)]
      exact hputs
  | load i g => exact hputs
  | remove i =>
    rw [step_remove_of_ok (hs.removeSlot_eq i), StoreCall.note]
    dsimp only
    by_cases hi : i = slot
    · subst hi
      rw [if_pos rfl, Function.update_self]
      exact .nil
    · rw [if_neg hi, Function.update_of_ne (Ne.symm hi)]
      exact hputs
  | list => exact hputs

theorem puts_foldl (hs : s.IsSound settings) (hsettings : settings.validate = .ok ())
    (hcalls : ∀ call ∈ calls, call.IsUnder settings)
    (hputs : past.Forall₂ GameSave.Puts (s.saves slot)) :
    (calls.foldl (StoreCall.note slot) past).Forall₂ GameSave.Puts
      ((calls.foldl step s).saves slot) := by
  induction calls generalizing s past with
  | nil => exact hputs
  | cons call rest ih =>
    obtain ⟨hcall, hrest⟩ := List.forall_mem_cons.mp hcalls
    obtain ⟨_, hstep⟩ := isSlotwise_step hsettings hcall
    exact ih (hstep s hs).1 hrest (hs.puts_step hsettings hcall hputs)

theorem hasLayout (hs : s.IsSound settings) (hsaves : (s.saves slot).head? = some save) :
    s.files.HasLayout := by
  refine hs.layout.resolve_left fun hempty => ?_
  have hprimary := hs.files .primary slot
  rw [hempty, held, hsaves] at hprimary
  cases hprimary

/-- The sidecar of a slot tells the checksum of its latest save. -/
theorem checksum_of_sidecar (hs : s.IsSound settings)
    (hside : readPresent s.files (sidecarLocation slot) = .ok (some raw))
    (hm : SlotMetadata.ofBytes? raw = some m) :
    ∃ save, (s.saves slot).head? = some save ∧ save.bytes.checksum = m.checksum := by
  rw [sidecarLocation_eq, hs.readPresent_files, Except.ok.injEq, held,
    Option.map_eq_some_iff] at hside
  obtain ⟨save, hsave, rfl⟩ := hside
  have hsound := hs.head_isSound hsave
  rw [hsound.readable, Option.some.injEq] at hm
  subst hm
  exact ⟨save, hsave, hsound.checksum⟩

theorem sidecar_of_saved (hs : s.IsSound settings) (hsaves : (s.saves slot).head? = some save) :
    ∃ raw m, readPresent s.files (sidecarLocation slot) = .ok (some raw) ∧
      SlotMetadata.ofBytes? raw = some m ∧ save.bytes.checksum = m.checksum := by
  have hsound := hs.head_isSound hsaves
  refine ⟨_, _, ?_, hsound.readable, hsound.checksum⟩
  rw [sidecarLocation_eq, hs.readPresent_files, held, hsaves]
  rfl

/-- Other bytes can always be put into the file of a slot that was saved. -/
theorem write_saved (hs : s.IsSound settings) (hsaves : (s.saves slot).head? = some save)
    (bytes : Bytes) :
    s.files.write (slotLocation slot) bytes = .ok (s.files.put .primary slot bytes) := by
  rw [slotLocation_eq]
  exact write_location (hs.hasLayout hsaves .primary) (hs.isClear slot .primary) bytes

theorem readPresent_put (hs : s.IsSound settings) {f : SlotFile} (hf : f ≠ .primary)
    (bytes : Bytes) :
    readPresent (s.files.put .primary slot bytes) (f.location slot) =
      .ok (held (s.saves slot) f) := by
  rw [← hs.readPresent_files]
  exact readPresent_put_of_ne hf.symm s.files slot bytes

/-- With other bytes in the slot's file, a load comes down to the backup. -/
theorem loadSlot_put (hs : s.IsSound settings)
    (hside : readPresent s.files (sidecarLocation slot) = .ok (some raw))
    (hm : SlotMetadata.ofBytes? raw = some m) (hne : bytes.checksum ≠ m.checksum) (h : Game) :
    loadSlot slot (s.files.put .primary slot bytes) h =
      loadBackup slot (s.files.put .primary slot bytes) h
        (.corrupt (.checksum m.checksum bytes.checksum)) := by
  obtain ⟨save, hsaves, -⟩ := hs.checksum_of_sidecar hside hm
  have hslots : (s.files.put .primary slot bytes).HasDirectory "slots" :=
    hasDirectory_put.mpr (hs.hasLayout hsaves .primary)
  refine loadSlot_of_ne (readPresent_primary hslots ?_) ?_ hm hne h
  · rw [lookup_put, if_pos ⟨rfl, rfl⟩]
  · rw [← hside, sidecarLocation_eq, hs.readPresent_put (by decide), hs.readPresent_files]

theorem loadSlot_put_of_single (hs : s.IsSound settings) (hsaves : s.saves slot = [last])
    (hside : readPresent s.files (sidecarLocation slot) = .ok (some raw))
    (hm : SlotMetadata.ofBytes? raw = some m) (hne : bytes.checksum ≠ m.checksum) (h : Game) :
    loadSlot slot (s.files.put .primary slot bytes) h =
      ⟨.error (.backupMissing (.corrupt (.checksum m.checksum bytes.checksum))), h, []⟩ := by
  rw [hs.loadSlot_put hside hm hne]
  refine loadBackup_of_none ?_ h _
  rw [backupLocation_eq, hs.readPresent_put (by decide), hsaves]
  rfl

theorem loadSlot_put_of_saved {previous : SlotSave} {rest : List SlotSave}
    (hs : s.IsSound settings) (hsaves : s.saves slot = last :: previous :: rest)
    (hside : readPresent s.files (sidecarLocation slot) = .ok (some raw))
    (hm : SlotMetadata.ofBytes? raw = some m) (hne : bytes.checksum ≠ m.checksum)
    (hh : h.settings = settings) :
    ∃ d, Record.decode settings.maxDescriptionLength previous.bytes = .ok d ∧
      (loadSlot slot (s.files.put .primary slot bytes) h).Restores h d.record := by
  have hmem : previous ∈ s.saves slot := by simp [hsaves]
  obtain ⟨d, hdecode⟩ := (hs.saves slot previous hmem).decodes
  rw [hs.loadSlot_put hside hm hne]
  subst hh
  refine ⟨d, hdecode, restores_backup _ ?_ hdecode⟩
  rw [backupLocation_eq, hs.readPresent_put (by decide), hsaves]
  rfl

end IsSound

/-- The saves that are noted are those that the calls ask for. -/
theorem puts_run (hsettings : settings.validate = .ok ())
    (hcalls : ∀ call ∈ calls, call.IsUnder settings) (slot : UInt16) :
    (savedWith slot calls).Forall₂ GameSave.Puts ((run calls).saves slot) :=
  (IsSound.empty settings).puts_foldl hsettings hcalls .nil

/-- Whatever calls were made from an empty directory on, if then other bytes take the place of a
slot's file and the sidecar speaks against them, a load restores the save before the latest. Where
there was only one since the slot was last removed, the load fails for want of a backup and leaves
the game as it was. -/
theorem loadSlot_of_replaced (hsettings : settings.validate = .ok ())
    (hcalls : ∀ call ∈ calls, call.IsUnder settings)
    (hside : readPresent (run calls).files (sidecarLocation slot) = .ok (some raw))
    (hm : SlotMetadata.ofBytes? raw = some m) (hne : bytes.checksum ≠ m.checksum)
    (hh : h.settings = settings) :
    ∃ t last past, (run calls).files.write (slotLocation slot) bytes = .ok t ∧
      savedWith slot calls = last :: past ∧
      match past with
      | [] => loadSlot slot t h =
          ⟨.error (.backupMissing (.corrupt (.checksum m.checksum bytes.checksum))), h, []⟩
      | previous :: _ => ∃ saved d,
          (previous.game.saveToBytes previous.date).answer = .ok saved ∧
            Record.decode settings.maxDescriptionLength saved = .ok d ∧
              (loadSlot slot t h).Restores h d.record := by
  have hs := isSound_run hsettings hcalls
  have hputs := puts_run hsettings hcalls slot
  obtain ⟨save, hsaves, -⟩ := hs.checksum_of_sidecar hside hm
  have hwrite := hs.write_saved hsaves bytes
  -- The calls and the files agree on how often the slot was saved.
  cases hgiven : savedWith slot calls with
  | nil =>
    rw [hgiven, List.forall₂_nil_left_iff] at hputs
    rw [hputs] at hsaves
    cases hsaves
  | cons last past =>
    rw [hgiven] at hputs
    obtain ⟨latest, saves, -, hpast, hlatest⟩ := List.forall₂_cons_left_iff.mp hputs
    refine ⟨_, last, past, hwrite, rfl, ?_⟩
    cases hpast with
    | nil => exact hs.loadSlot_put_of_single hlatest hside hm hne h
    | cons hprevious _ =>
      obtain ⟨d, hdecode, hrestores⟩ := hs.loadSlot_put_of_saved hlatest hside hm hne hh
      exact ⟨_, d, hprevious, hdecode, hrestores⟩

/-- A slot that was saved, removed and saved twice, its file then replaced by what a fourth game
would be saved as: a load restores the save between. -/
theorem loadSlot_of_replaced_third :
    let calls : List StoreCall := [.save 1 {} ((Game.start {}).setNodeType 1), .remove 1,
      .save 1 {} ((Game.start {}).setNodeType 2), .save 2 {} ((Game.start {}).setNodeType 1), .list,
      .save 1 {} ((Game.start {}).setNodeType 3)]
    ∃ raw m bytes t r, (∀ call ∈ calls, call.IsUnder {}) ∧
      readPresent (run calls).files (sidecarLocation 1) = .ok (some raw) ∧
      SlotMetadata.ofBytes? raw = some m ∧ bytes.checksum ≠ m.checksum ∧
      (run calls).files.write (slotLocation 1) bytes = .ok t ∧
      (loadSlot 1 t (.start {})).Restores (.start {}) r ∧ r.nodeType = 2 := by
  have hstart : Reachable {} (Game.start {}) := .start
  generalize Game.start {} = g at hstart ⊢
  intro calls
  have hfirst : Reachable {} (g.setNodeType 1) := .after (.setNodeType 1) hstart
  have hsecond : Reachable {} (g.setNodeType 2) := .after (.setNodeType 2) hstart
  have hthird : Reachable {} (g.setNodeType 3) := .after (.setNodeType 3) hstart
  have hfourth : Reachable {} (g.setNodeType 4) := .after (.setNodeType 4) hstart
  have hcalls : ∀ call ∈ calls, call.IsUnder {} := by
    simp [calls, StoreCall.IsUnder, hfirst, hsecond, hthird]
  have hgiven : savedWith 1 calls = [⟨{}, g.setNodeType 3⟩, ⟨{}, g.setNodeType 2⟩] := by
    simp [savedWith, calls, StoreCall.note]
  have hputs := puts_run rfl hcalls 1
  rw [hgiven] at hputs
  obtain ⟨latest, saves, hlatest, -, hsaves⟩ := List.forall₂_cons_left_iff.mp hputs
  obtain ⟨raw, m, hside, hm, hsum⟩ :=
    (isSound_run rfl hcalls).sidecar_of_saved (by rw [hsaves, List.head?_cons])
  obtain ⟨bytes, -, hbytes, -⟩ := hfourth.saved rfl {}
  have hne : bytes.checksum ≠ m.checksum := by
    rw [← hsum]
    exact hstart.checksum_ne_of_nodeType rfl {} (m := 4) (n := 3) (by decide) hbytes hlatest
  obtain ⟨t, _, _, hwrite, hpast, hload⟩ :=
    loadSlot_of_replaced rfl hcalls hside hm hne hstart.isSavable.1
  rw [hgiven] at hpast
  cases hpast
  obtain ⟨saved, d, hsaved, hdecode, hrestores⟩ := hload
  obtain ⟨-, found, hfound, hkept⟩ := hsecond.saved_of_ok rfl hsaved
  cases hdecode.symm.trans hfound
  refine ⟨raw, m, bytes, t, d.record, hcalls, hside, hm, hne, hwrite, hrestores, ?_⟩
  rw [hkept, Game.nodeType_keptRecord]
  rfl

end Store

end Savegame.SaveDirectory
