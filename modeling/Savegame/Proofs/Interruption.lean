import Savegame.Proofs.Restoring
import Savegame.Proofs.SavedGame

/-!
# Interrupted saves

A save that is interrupted has made the first of its calls. Up to the call that removes the slot's
file a load restores the old record, and from the call after it on the old or the new one. Between
the two there is nothing to load, although the backup holds the old record.
-/

namespace Savegame

namespace Call

open FileTree

variable {t u : FileTree} {call : Call} {calls rest : List Call} {P : FileTree → Prop}

/-- Whatever number of the calls was made, the tree left behind has a property. -/
def Always (P : FileTree → Prop) (t : FileTree) (calls : List Call) : Prop :=
  ∀ n, P (runAll t (calls.take n)).state

theorem always_nil (h : P t) : Always P t [] := by
  intro n
  rw [List.take_nil]
  exact h

theorem always_cons {blocked : Prop} (h : P t) (hcall : Settles t u blocked (run t call))
    (hrest : Always P u rest) : Always P t (call :: rest) := by
  intro n
  cases n with
  | zero => exact h
  | succ n =>
    rw [List.take_succ_cons, runAll, Outcome.andThen]
    cases hrun : run t call with
    | mk answer state events =>
      rw [hrun] at hcall
      cases hcall with
      | done _ => exact hrest n
      | blocked e _ => exact h

theorem Always.runAll (h : Always P t calls) : P (runAll t calls).state := by
  have hall := h calls.length
  rwa [List.take_length] at hall

end Call

namespace SaveDirectory

open FileTree Call

variable {t u : FileTree} {slot : UInt16} {date : Date} {g h : Game} {old new : Bytes}
  {preview : SlotMetadata} {a b : Record.Decoded}

/-- The calls of a save up to the one that removes the slot's file. -/
def firstCalls (slot : UInt16) (bytes : Bytes) : List Call :=
  [.makeDirectories ⟨[SlotFile.primary.directory]⟩, .makeDirectories ⟨[SlotFile.sidecar.directory]⟩,
    .makeDirectories ⟨[SlotFile.primary.directory]⟩,
    .backUp (SlotFile.primary.location slot) (SlotFile.backup.location slot),
    .write (SlotFile.pending.location slot) bytes]

/-- The calls of a save from the one that puts the new file in its place. -/
def lastCalls (slot : UInt16) (preview : Bytes) : List Call :=
  [.makeDirectories ⟨[SlotFile.sidecar.directory]⟩,
    .write (SlotFile.pendingSidecar.location slot) preview,
    .clear (SlotFile.sidecar.location slot),
    .move (SlotFile.pendingSidecar.location slot) (SlotFile.sidecar.location slot)]

theorem saveCalls_eq (hnew : (g.saveToBytes date).answer = .ok new) :
    saveCalls slot date g =
      firstCalls slot new ++ .clear (SlotFile.primary.location slot) ::
        .move (SlotFile.pending.location slot) (SlotFile.primary.location slot) ::
          lastCalls slot (SlotMetadata.of slot (g.saveToBytes date).state new).toBytes := by
  rw [saveCalls, hnew]
  dsimp only
  rw [slotCalls, replace_primary_eq, replace_sidecar_eq]
  rfl

theorem take_firstCalls_append (slot : UInt16) (bytes : Bytes) (calls : List Call) (m : Nat) :
    (firstCalls slot bytes ++ calls).take (6 + m) = firstCalls slot bytes ++ calls.take (m + 1) := by
  have hlength : (firstCalls slot bytes).length = 5 := rfl
  have hrest : 6 + m - 5 = m + 1 := by omega
  rw [List.take_append, hlength, hrest, List.take_of_length_le (by omega)]

/-- The tree before the slot's file is removed. -/
def prepared (t : FileTree) (slot : UInt16) (bytes : Bytes) : FileTree :=
  (t.copied .primary .backup slot).put .pending slot bytes

theorem leads_firstCalls (ht : t.HasLayout) (slot : UInt16) (bytes : Bytes) :
    Leads slot t (firstCalls slot bytes) (prepared t slot bytes) := by
  have hcopied : (t.copied .primary .backup slot).HasLayout := hasLayout_copied.mpr ht
  exact .cons (.makeDirectories (ht _)) (.cons (.makeDirectories (ht _))
    (.cons (.makeDirectories (ht _)) (.cons (.backUp (ht _) (ht _)) (.write (hcopied _) bytes))))

/-- A new record about to take the place of an old one that matches its sidecar. -/
structure Exchange (h : Game) (old new raw : Bytes) (a b : Record.Decoded) : Prop where
  decodeOld : Record.decode h.settings.maxDescriptionLength old = .ok a
  decodeNew : Record.decode h.settings.maxDescriptionLength new = .ok b
  agrees : Agrees (some raw) old
  readable : ∃ preview, SlotMetadata.ofBytes? raw = some preview

def RestoresEither (slot : UInt16) (h : Game) (a b : Record.Decoded) (u : FileTree) : Prop :=
  (loadSlot slot u h).Restores h a.record ∨ (loadSlot slot u h).Restores h b.record

namespace Exchange

variable {raw : Bytes} (x : Exchange h old new raw a b)
include x

theorem restores_old (hu : u.HasLayout) (hprimary : u.lookup .primary slot = some (.file old))
    (hside : u.lookup .sidecar slot = some (.file raw)) : RestoresEither slot h a b u :=
  .inl (restores_of_agrees hu x.agrees hprimary hside x.decodeOld)

/-- While the sidecar is the old one, the new record is restored only if it happens to have the
checksum of the old one. -/
theorem restores_between (hu : u.HasLayout) (hprimary : u.lookup .primary slot = some (.file new))
    (hbackup : u.lookup .backup slot = some (.file old))
    (hside : u.lookup .sidecar slot = some (.file raw)) : RestoresEither slot h a b u := by
  obtain ⟨preview, hpreview⟩ := x.readable
  by_cases hsame : new.checksum = preview.checksum
  · have hagrees : Agrees (some raw) new := (agrees_iff hpreview).mpr hsame
    exact .inr (restores_of_agrees hu hagrees hprimary hside x.decodeNew)
  · have hread := readPresent_primary (hu .primary) hprimary
    have hraw := readPresent_sidecar (hu .sidecar) hside
    have hprevious := readPresent_backup (hu .backup) hbackup
    exact .inl (restores_of_ne hread hraw hpreview hsame hprevious x.decodeOld)

theorem always_firstCalls (ht : t.HasLayout) (hprimary : t.lookup .primary slot = some (.file old))
    (hside : t.lookup .sidecar slot = some (.file raw)) :
    Always (RestoresEither slot h a b) t (firstCalls slot new) := by
  have hmake : ∀ f : SlotFile, Settles t t False (run t (.makeDirectories ⟨[f.directory]⟩)) :=
    fun f => settles_makeDirectories_of_hasDirectory (ht f)
  have hstill : RestoresEither slot h a b t := x.restores_old ht hprimary hside
  have hcopied : (t.copied .primary .backup slot).HasLayout := hasLayout_copied.mpr ht
  have hkept : RestoresEither slot h a b (t.copied .primary .backup slot) := by
    refine x.restores_old hcopied ?_ ?_
    · rw [lookup_copied _ _ _ _ _ _ (.inl (by decide))]
      exact hprimary
    · rw [lookup_copied _ _ _ _ _ _ (.inl (by decide))]
      exact hside
  have hwritten : RestoresEither slot h a b (prepared t slot new) := by
    refine x.restores_old (hasLayout_put.mpr hcopied) ?_ ?_
    · simp [prepared, lookup_put, lookup_copied, hprimary]
    · simp [prepared, lookup_put, lookup_copied, hside]
  exact always_cons hstill (hmake _) (always_cons hstill (hmake _) (always_cons hstill (hmake _)
    (always_cons hstill (settles_backUp (ht _) (ht _))
      (always_cons hkept (settles_write (hcopied _) new) (always_nil hwritten)))))

theorem always_lastCalls {preview : Bytes} (hpreview : Agrees (some preview) new)
    (hu : u.HasLayout) (hprimary : u.lookup .primary slot = some (.file new))
    (hbackup : u.lookup .backup slot = some (.file old))
    (hside : u.lookup .sidecar slot = some (.file raw)) :
    Always (RestoresEither slot h a b) u (lastCalls slot preview) := by
  have hbetween : RestoresEither slot h a b u := x.restores_between hu hprimary hbackup hside
  let written := u.put .pendingSidecar slot preview
  let cleared := written.drop .sidecar slot
  let moved := (cleared.drop .pendingSidecar slot).put .sidecar slot preview
  have hlaid : written.HasLayout := hasLayout_put.mpr hu
  have hempty : cleared.HasLayout := hasLayout_drop.mpr hlaid
  have hfull : moved.HasLayout := hasLayout_put.mpr (hasLayout_drop.mpr hempty)
  have hwritten : RestoresEither slot h a b written := by
    refine x.restores_between hlaid ?_ ?_ ?_
    · simp [written, lookup_put, hprimary]
    · simp [written, lookup_put, hbackup]
    · simp [written, lookup_put, hside]
  have hcleared : RestoresEither slot h a b cleared := by
    refine .inr (restores_of_agrees hempty (agrees_none new) ?_ ?_ x.decodeNew)
    · simp [cleared, written, lookup_drop, lookup_put, hprimary]
    · simp [cleared, lookup_drop]
  have hmoved : RestoresEither slot h a b moved := by
    refine .inr (restores_of_agrees hfull hpreview ?_ ?_ x.decodeNew)
    · simp [moved, cleared, written, lookup_drop, lookup_put, hprimary]
    · simp [moved, lookup_put]
  have hpending : cleared.lookup .pendingSidecar slot = some (.file preview) := by
    simp [cleared, written, lookup_drop, lookup_put]
  exact always_cons hbetween (settles_makeDirectories_of_hasDirectory (hu _))
    (always_cons hbetween (settles_write (hu _) preview)
      (always_cons hwritten (settles_clear (hlaid _))
        (always_cons hcleared (settles_move (hempty _) (hempty _) hpending) (always_nil hmoved))))

theorem always_overwritten (ht : t.HasLayout) (hprimary : t.lookup .primary slot = some (.file old))
    (hside : t.lookup .sidecar slot = some (.file raw)) {preview : Bytes}
    (hpreview : Agrees (some preview) new) :
    Always (RestoresEither slot h a b) (t.overwritten slot new) (lastCalls slot preview) := by
  refine x.always_lastCalls hpreview (hasLayout_overwritten.mpr ht) lookup_overwritten_primary ?_ ?_
  · rw [lookup_overwritten_backup]
    exact lookup_copied_self hprimary
  · rw [lookup_overwritten_sidecar]
    exact hside

end Exchange

/-- The tree after the slot's file was removed, and before the new one is in its place. -/
def between (t : FileTree) (slot : UInt16) (bytes : Bytes) : FileTree :=
  (prepared t slot bytes).drop .primary slot

theorem hasLayout_prepared : (prepared t slot new).HasLayout ↔ t.HasLayout :=
  hasLayout_put.trans hasLayout_copied

theorem hasLayout_between : (between t slot new).HasLayout ↔ t.HasLayout :=
  hasLayout_drop.trans hasLayout_prepared

theorem run_clear_prepared (ht : t.HasLayout)
    (hprimary : t.lookup .primary slot = some (.file old)) :
    run (prepared t slot new) (.clear (SlotFile.primary.location slot)) =
      ⟨.ok (), between t slot new, []⟩ := by
  refine (settles_clear (hasLayout_prepared.mpr ht _)).eq_of_not ?_
  simp [prepared, lookup_put, lookup_copied, hprimary]

theorem run_move_between (ht : t.HasLayout) :
    run (between t slot new)
        (.move (SlotFile.pending.location slot) (SlotFile.primary.location slot)) =
      ⟨.ok (), t.overwritten slot new, []⟩ := by
  have hu : (between t slot new).HasLayout := hasLayout_between.mpr ht
  have hpending : (between t slot new).lookup .pending slot = some (.file new) := by
    simp [between, prepared, lookup_drop, lookup_put]
  refine (settles_move (hu _) (hu _) hpending).eq_of_not ?_
  simp [between, lookup_drop]

/-- Between the removal of the slot's file and the call after it, there is nothing to load. -/
theorem loadSlot_between (ht : t.HasLayout) (h : Game) :
    loadSlot slot (between t slot new) h = ⟨.error (.slotNotFound slot), h, []⟩ := by
  refine loadSlot_of_none ?_ h
  rw [slotLocation_eq]
  exact readPresent_of_none (hasLayout_between.mpr ht _) (by simp [between, lookup_drop])

/-- A save over an intact slot that is interrupted. There is one call, the removal of the slot's
file, right after which nothing can be loaded; after any other number of calls, a load restores the
old or the new record. -/
theorem loadSlot_interrupted (hintact : Intact slot t old preview)
    (hold : Record.decode h.settings.maxDescriptionLength old = .ok a)
    (hnew : (g.saveToBytes date).answer = .ok new)
    (hdecode : Record.decode h.settings.maxDescriptionLength new = .ok b) :
    ∃ k, (saveCalls slot date g)[k]? = some (.clear (slotLocation slot)) ∧
      ∀ n, let o := runAll t ((saveCalls slot date g).take n)
        if n = k + 1 ∧ o.answer.isOk then
          loadSlot slot o.state h = ⟨.error (.slotNotFound slot), h, []⟩
        else
          (loadSlot slot o.state h).Restores h a.record ∨
            (loadSlot slot o.state h).Restores h b.record := by
  obtain ⟨ht, hprimary, raw, hside, hagrees, hpreview⟩ := hintact.files
  have x : Exchange h old new raw a b := ⟨hold, hdecode, hagrees, preview, hpreview⟩
  have hfirst : Always (RestoresEither slot h a b) t (firstCalls slot new) :=
    x.always_firstCalls ht hprimary hside
  have hremoval : (saveCalls slot date g)[5]? = some (.clear (slotLocation slot)) := by
    rw [saveCalls_eq hnew, slotLocation_eq]
    rfl
  refine ⟨5, hremoval, fun n => ?_⟩
  rw [saveCalls_eq hnew]
  dsimp only
  rcases Nat.lt_or_ge n 6 with hn | hn
  · rw [List.take_append_of_le_length (Nat.le_of_lt_succ hn), if_neg (by omega)]
    exact hfirst n
  obtain ⟨m, rfl⟩ := Nat.exists_eq_add_of_le hn
  rw [take_firstCalls_append]
  cases hanswer : (runAll t (firstCalls slot new)).answer with
  | error e =>
    rw [runAll_append_of_error hanswer, hanswer, if_neg (by simp [Except.isOk, Except.toBool])]
    exact hfirst.runAll
  | ok _ =>
    rw [runAll_append_of_ok ((leads_firstCalls ht slot new).eq hanswer), List.take_succ_cons,
      runAll_cons_of_run (run_clear_prepared ht hprimary)]
    cases m with
    | zero =>
      rw [List.take_zero, runAll, if_pos ⟨rfl, rfl⟩]
      exact loadSlot_between ht h
    | succ m =>
      rw [List.take_succ_cons, runAll_cons_of_run (run_move_between ht), if_neg (by omega)]
      exact x.always_overwritten ht hprimary hside (agrees_preview slot _ rfl) m

/-- The first save of a slot, in an empty directory, can go on to a second one. -/
theorem intact_first {settings : Settings} (hsettings : settings.validate = .ok ())
    (hg : Reachable settings g) (slot : UInt16) (date : Date) :
    ∃ old preview a, Intact slot (saveSlot slot date g {}).state.2 old preview ∧
      (saveSlot slot date g {}).state.2.IsClear slot ∧
      Record.decode g.settings.maxDescriptionLength old = .ok a := by
  obtain ⟨old, a, hold, ha, -, hlength⟩ := hg.saved hsettings date
  have hok := answer_saveSlot slot admitsLayout_empty (isClear_empty slot) hold
  rw [← hg.isSavable.1] at ha
  exact ⟨old, _, a, intact_saveSlot hok hold hlength, isClear_saveSlot (isClear_empty slot) hok, ha⟩

theorem loadSlot_interrupted_second :
    let t := (saveSlot 1 {} (.start {}) {}).state.2
    ∃ old preview a new b, Intact 1 t old preview ∧ Record.decode 256 old = .ok a ∧
      ((Game.start {}).saveToBytes { day := 2 }).answer = .ok new ∧
      Record.decode 256 new = .ok b ∧
      ∃ k, (saveCalls 1 { day := 2 } (.start {}))[k]? = some (.clear (slotLocation 1)) ∧
        ∀ n, let o := runAll t ((saveCalls 1 { day := 2 } (.start {})).take n)
          if n = k + 1 ∧ o.answer.isOk then
            loadSlot 1 o.state (.start {}) = ⟨.error (.slotNotFound 1), .start {}, []⟩
          else
            (loadSlot 1 o.state (.start {})).Restores (.start {}) a.record ∨
              (loadSlot 1 o.state (.start {})).Restores (.start {}) b.record := by
  have hlimit : (Game.start {}).settings.maxDescriptionLength = 256 := rfl
  have hstart : Reachable {} (Game.start {}) := .start
  generalize Game.start {} = g at hlimit hstart ⊢
  obtain ⟨old, preview, a, hintact, -, ha⟩ := intact_first rfl hstart 1 {}
  obtain ⟨new, b, hnew, hb, -, -⟩ := hstart.saved rfl { day := 2 }
  rw [← hstart.isSavable.1] at hb
  have hall := loadSlot_interrupted hintact ha hnew hb
  rw [hlimit] at ha hb
  exact ⟨old, preview, a, new, b, hintact, ha, hnew, hb, hall⟩

/-- A second save that is interrupted right after it removed the slot's file: the first is lost to
a load, and the second not there yet. -/
theorem loadSlot_interrupted_lost :
    let t := (saveSlot 1 {} (.start {}) {}).state.2
    (∃ old preview a, Intact 1 t old preview ∧ Record.decode 256 old = .ok a ∧
        (loadSlot 1 t (.start {})).Restores (.start {}) a.record) ∧
      loadSlot 1 (runAll t ((saveCalls 1 { day := 2 } (.start {})).take 6)).state (.start {}) =
        ⟨.error (.slotNotFound 1), .start {}, []⟩ := by
  have hlimit : (Game.start {}).settings.maxDescriptionLength = 256 := rfl
  have hstart : Reachable {} (Game.start {}) := .start
  generalize Game.start {} = g at hlimit hstart ⊢
  intro t
  obtain ⟨old, preview, a, hintact, hclear, ha⟩ := intact_first rfl hstart 1 {}
  obtain ⟨new, b, hnew, -, -, -⟩ := hstart.saved rfl { day := 2 }
  obtain ⟨ht, hprimary, raw, hside, hagrees, -⟩ := hintact.files
  have hfirst := leads_firstCalls ht 1 new
  have hlost : (runAll t ((saveCalls 1 { day := 2 } g).take 6)).state = between t 1 new := by
    have htake : (saveCalls 1 { day := 2 } g).take 6 =
        firstCalls 1 new ++ [.clear (SlotFile.primary.location 1)] := by
      rw [saveCalls_eq hnew]
      rfl
    rw [htake, runAll_append_of_ok (hfirst.eq (hfirst.answer hclear)),
      runAll_cons_of_run (run_clear_prepared ht hprimary), runAll]
  have hrestores := restores_of_agrees ht hagrees hprimary hside ha
  rw [hlimit] at ha
  refine ⟨⟨old, preview, a, hintact, ha, hrestores⟩, ?_⟩
  rw [hlost]
  exact loadSlot_between ht g

end SaveDirectory

end Savegame
