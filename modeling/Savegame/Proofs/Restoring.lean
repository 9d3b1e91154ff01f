import Savegame.Proofs.Effect
import Savegame.Proofs.Replacement
import Savegame.Proofs.Sidecar

/-!
# Which file a load restores

A load of a slot reads the slot's own file if the sidecar has nothing against it, and otherwise the
backup.
-/

namespace Savegame

/-- A load that brings a record back: it succeeds, and the game goes on from the record. -/
structure Outcome.Restores (o : Outcome Game Unit) (g : Game) (r : Record) : Prop where
  answer : o.answer = .ok ()
  state : o.state = { g with record := { r with running := true } }

/-- A load restores one record, up to its running flag. -/
theorem Outcome.Restores.unique {o : Outcome Game Unit} {g : Game} {r s : Record}
    (hr : o.Restores g r) (hs : o.Restores g s) :
    ({ r with running := true } : Record) = { s with running := true } :=
  congrArg Game.record (hr.state.symm.trans hs.state)

variable {g : Game} {bytes raw : Bytes} {d : Record.Decoded}

namespace SaveDirectory

open FileTree

variable {t : FileTree} {f : SlotFile} {slot : UInt16} {m : SlotMetadata} {side : Option Bytes}

theorem readPresent_location (h : t.HasDirectory f.directory) :
    readPresent t (f.location slot) =
      match t.lookup f slot with
      | some .directory => .error (.stream (.system .isDirectory))
      | some (.file content) => .ok (some content)
      | none => .ok none := by
  rw [readPresent, read_location h]
  cases t.lookup f slot with
  | none => rfl
  | some entry => cases entry <;> rfl

theorem readPresent_of_file (h : t.HasDirectory f.directory)
    (hfile : t.lookup f slot = some (.file bytes)) :
    readPresent t (f.location slot) = .ok (some bytes) := by
  rw [readPresent_location h, hfile]

theorem readPresent_primary (h : t.HasDirectory "slots")
    (hfile : t.lookup .primary slot = some (.file bytes)) :
    readPresent t (slotLocation slot) = .ok (some bytes) := by
  rw [slotLocation_eq]
  exact readPresent_of_file h hfile

theorem readPresent_backup (h : t.HasDirectory "slots")
    (hfile : t.lookup .backup slot = some (.file bytes)) :
    readPresent t (backupLocation slot) = .ok (some bytes) := by
  rw [backupLocation_eq]
  exact readPresent_of_file h hfile

theorem readPresent_sidecar (h : t.HasDirectory "meta")
    (hfile : t.lookup .sidecar slot = some (.file bytes)) :
    readPresent t (sidecarLocation slot) = .ok (some bytes) := by
  rw [sidecarLocation_eq]
  exact readPresent_of_file h hfile

theorem readPresent_of_sidecar (ht : t.HasLayout)
    (hside : t.lookup .sidecar slot = side.map .file) :
    readPresent t (sidecarLocation slot) = .ok side := by
  rw [sidecarLocation_eq, readPresent_location (ht .sidecar), hside]
  cases side <;> rfl

theorem readPresent_of_none (h : t.HasDirectory f.directory) (hnone : t.lookup f slot = none) :
    readPresent t (f.location slot) = .ok none := by
  rw [readPresent_location h, hnone]

theorem file_of_readPresent (h : readPresent t (f.location slot) = .ok (some bytes)) :
    t.HasDirectory f.directory ∧ t.lookup f slot = some (.file bytes) := by
  have hdirectory : t.HasDirectory f.directory := by
    rw [HasDirectory]
    cases hentry : t.entries.find? [f.directory] with
    | none =>
      rw [readPresent, FileTree.read, place_location_eq, hentry] at h
      cases h
    | some entry =>
      cases entry with
      | directory => rfl
      | file _ =>
        rw [readPresent, FileTree.read, place_location_eq, hentry] at h
        cases h
  refine ⟨hdirectory, ?_⟩
  rw [readPresent_location hdirectory] at h
  cases hentry : t.lookup f slot with
  | none =>
    rw [hentry] at h
    cases h
  | some entry =>
    rw [hentry] at h
    cases entry with
    | directory => cases h
    | file found =>
      cases h
      rfl

theorem readPresent_congr {u : FileTree}
    (hdirectory : u.entries.find? [f.directory] = t.entries.find? [f.directory])
    (hentry : u.lookup f slot = t.lookup f slot) :
    readPresent u (f.location slot) = readPresent t (f.location slot) := by
  rw [readPresent, readPresent, FileTree.read, FileTree.read, place_location_eq, place_location_eq,
    hdirectory, hentry]

theorem readPresent_put_of_ne {p : SlotFile} (hne : p ≠ f) (t : FileTree) (slot : UInt16)
    (bytes : Bytes) :
    readPresent (t.put p slot bytes) (f.location slot) = readPresent t (f.location slot) := by
  apply readPresent_congr find?_name_put
  rw [lookup_put, if_neg fun h => hne h.1]

theorem readPresent_empty (f : SlotFile) (slot : UInt16) :
    readPresent {} (f.location slot) = .ok none := by
  rw [readPresent, FileTree.read, place_location_eq]
  rfl

/-- What a sidecar has nothing against: it is not there, is unreadable, or has the checksum. -/
def Agrees (side : Option Bytes) (bytes : Bytes) : Prop :=
  ∀ raw ∈ side, ∀ m ∈ SlotMetadata.ofBytes? raw, bytes.checksum = m.checksum

theorem agrees_none (bytes : Bytes) : Agrees none bytes := by
  intro raw hraw
  cases hraw

theorem agrees_iff (hm : SlotMetadata.ofBytes? raw = some m) :
    Agrees (some raw) bytes ↔ bytes.checksum = m.checksum := by
  refine ⟨fun h => h raw rfl m hm, ?_⟩
  rintro h _ ⟨⟩ found hfound
  rw [Option.mem_def, hm] at hfound
  cases hfound
  exact h

theorem agrees_preview {saved : Bytes} (slot : UInt16) (g : Game)
    (h : bytes.checksum = saved.checksum) :
    Agrees (some (SlotMetadata.of slot g saved).toBytes) bytes := by
  intro raw hraw m hm
  cases hraw
  rw [SlotMetadata.ofBytes?_toBytes] at hm
  split at hm
  · cases hm
    exact h
  · cases hm

theorem verify_of_agrees (hside : readPresent t (sidecarLocation slot) = .ok side)
    (h : Agrees side bytes) : (verify slot t bytes).answer = .ok () := by
  rw [verify, hside]
  cases side with
  | none => rfl
  | some raw =>
    cases hm : SlotMetadata.ofBytes? raw with
    | none => simp only [hm]
    | some m => simp only [hm, if_pos (h raw rfl m hm)]

theorem verify_of_ne (hside : readPresent t (sidecarLocation slot) = .ok (some raw))
    (hm : SlotMetadata.ofBytes? raw = some m) (h : bytes.checksum ≠ m.checksum) :
    verify slot t bytes =
      ⟨.error (.corrupt (.checksum m.checksum bytes.checksum)), (), []⟩ := by
  rw [verify, hside]
  simp only [hm, if_neg h]

theorem loadSlot_of_none (h : readPresent t (slotLocation slot) = .ok none) (g : Game) :
    loadSlot slot t g = ⟨.error (.slotNotFound slot), g, []⟩ := by
  rw [loadSlot, h]

theorem restores_of_verified (hprimary : readPresent t (slotLocation slot) = .ok (some bytes))
    (hverified : (verify slot t bytes).answer = .ok ())
    (hdecode : Record.decode g.settings.maxDescriptionLength bytes = .ok d) :
    (loadSlot slot t g).Restores g d.record := by
  rw [loadSlot, hprimary]
  simp only [hverified, Game.load_of_decode hdecode]
  exact ⟨rfl, rfl⟩

theorem restores_of_agrees (ht : t.HasLayout) (hagrees : Agrees side bytes)
    (hprimary : t.lookup .primary slot = some (.file bytes))
    (hside : t.lookup .sidecar slot = side.map .file)
    (hdecode : Record.decode g.settings.maxDescriptionLength bytes = .ok d) :
    (loadSlot slot t g).Restores g d.record := by
  have hverified := verify_of_agrees (readPresent_of_sidecar ht hside) hagrees
  exact restores_of_verified (readPresent_primary (ht .primary) hprimary) hverified hdecode

/-- The content of a slot's file is not used, because of the check or because it is no record. -/
def Refused (slot : UInt16) (t : FileTree) (g : Game) (bytes : Bytes) (e : SaveError) : Prop :=
  (verify slot t bytes).answer = .error e ∨
    (verify slot t bytes).answer = .ok () ∧
      Record.decode g.settings.maxDescriptionLength bytes = .error e

theorem loadSlot_of_refused {e : SaveError}
    (hprimary : readPresent t (slotLocation slot) = .ok (some bytes))
    (h : Refused slot t g bytes e) (he : e.isCorruption = true) :
    (loadSlot slot t g).answer = (loadBackup slot t g e).answer ∧
      (loadSlot slot t g).state = (loadBackup slot t g e).state := by
  rw [loadSlot, hprimary]
  rcases h with hverify | ⟨hverify, hdecode⟩
  · simp only [hverify, he, if_true, and_self]
  · simp only [hverify, Game.load_of_error hdecode, he, if_true, and_self]

theorem answer_of_refused {e : SaveError}
    (hprimary : readPresent t (slotLocation slot) = .ok (some bytes))
    (h : Refused slot t g bytes e) (he : e.isCorruption = false) :
    (loadSlot slot t g).answer = .error e := by
  rw [loadSlot, hprimary]
  rcases h with hverify | ⟨hverify, hdecode⟩
  · simp [hverify, he]
  · simp [hverify, Game.load_of_error hdecode, he]

theorem restores_backup (cause : SaveError)
    (hbackup : readPresent t (backupLocation slot) = .ok (some bytes))
    (hdecode : Record.decode g.settings.maxDescriptionLength bytes = .ok d) :
    (loadBackup slot t g cause).Restores g d.record := by
  rw [loadBackup, hbackup]
  simp only [Game.load_of_decode hdecode]
  exact ⟨rfl, rfl⟩

theorem loadBackup_of_none (h : readPresent t (backupLocation slot) = .ok none) (g : Game)
    (cause : SaveError) : loadBackup slot t g cause = ⟨.error (.backupMissing cause), g, []⟩ := by
  rw [loadBackup, h]

/-- Bytes that the sidecar speaks against leave the load to the backup. -/
theorem loadSlot_of_ne (hprimary : readPresent t (slotLocation slot) = .ok (some bytes))
    (hside : readPresent t (sidecarLocation slot) = .ok (some raw))
    (hm : SlotMetadata.ofBytes? raw = some m) (hne : bytes.checksum ≠ m.checksum) (g : Game) :
    loadSlot slot t g =
      loadBackup slot t g (.corrupt (.checksum m.checksum bytes.checksum)) := by
  rw [loadSlot, hprimary]
  simp only [verify_of_ne hside hm hne]
  rfl

theorem restores_of_ne {previous : Bytes}
    (hprimary : readPresent t (slotLocation slot) = .ok (some bytes))
    (hside : readPresent t (sidecarLocation slot) = .ok (some raw))
    (hm : SlotMetadata.ofBytes? raw = some m) (hne : bytes.checksum ≠ m.checksum)
    (hbackup : readPresent t (backupLocation slot) = .ok (some previous))
    (hdecode : Record.decode g.settings.maxDescriptionLength previous = .ok d) :
    (loadSlot slot t g).Restores g d.record := by
  rw [loadSlot_of_ne hprimary hside hm hne]
  exact restores_backup _ hbackup hdecode

theorem backup_of_ok {cause : SaveError} (h : (loadBackup slot t g cause).answer = .ok ()) :
    ∃ bytes d, Record.decode g.settings.maxDescriptionLength bytes = .ok d ∧
      (loadBackup slot t g cause).Restores g d.record ∧
      readPresent t (backupLocation slot) = .ok (some bytes) := by
  cases hread : readPresent t (backupLocation slot) with
  | error e =>
    rw [loadBackup, hread] at h
    cases h
  | ok present =>
    cases present with
    | none =>
      rw [loadBackup, hread] at h
      cases h
    | some bytes =>
      cases hdecode : Record.decode g.settings.maxDescriptionLength bytes with
      | error e =>
        rw [loadBackup, hread] at h
        simp [Game.load_of_error hdecode] at h
      | ok d => exact ⟨bytes, d, hdecode, restores_backup cause hread hdecode, rfl⟩

theorem backup_of_refused {content : Bytes} {e : SaveError}
    (hprimary : readPresent t (slotLocation slot) = .ok (some content))
    (hrefused : Refused slot t g content e) (h : (loadSlot slot t g).answer = .ok ()) :
    ∃ bytes d, Record.decode g.settings.maxDescriptionLength bytes = .ok d ∧
      (loadSlot slot t g).Restores g d.record ∧
      readPresent t (backupLocation slot) = .ok (some bytes) := by
  cases he : e.isCorruption with
  | false =>
    rw [answer_of_refused hprimary hrefused he] at h
    cases h
  | true =>
    obtain ⟨hanswer, hstate⟩ := loadSlot_of_refused hprimary hrefused he
    obtain ⟨bytes, d, hdecode, hrestores, hbackup⟩ := backup_of_ok (hanswer ▸ h)
    exact ⟨bytes, d, hdecode,
      ⟨hanswer.trans hrestores.answer, hstate.trans hrestores.state⟩, hbackup⟩

/-- What a load restores is in the slot's own file, and passed the check, or it is in the backup. -/
theorem restores_of_ok (h : (loadSlot slot t g).answer = .ok ()) :
    ∃ bytes d, Record.decode g.settings.maxDescriptionLength bytes = .ok d ∧
      (loadSlot slot t g).Restores g d.record ∧
      (readPresent t (slotLocation slot) = .ok (some bytes) ∧
          (verify slot t bytes).answer = .ok () ∨
        readPresent t (backupLocation slot) = .ok (some bytes)) := by
  cases hread : readPresent t (slotLocation slot) with
  | error e =>
    rw [loadSlot, hread] at h
    cases h
  | ok present =>
    cases present with
    | none =>
      rw [loadSlot_of_none hread] at h
      cases h
    | some content =>
      cases hverify : (verify slot t content).answer with
      | error e =>
        obtain ⟨bytes, d, hdecode, hrestores, hbackup⟩ := backup_of_refused hread (.inl hverify) h
        exact ⟨bytes, d, hdecode, hrestores, .inr hbackup⟩
      | ok _ =>
        cases hdecode : Record.decode g.settings.maxDescriptionLength content with
        | error e =>
          obtain ⟨bytes, d, hfound, hrestores, hbackup⟩ :=
            backup_of_refused hread (.inr ⟨hverify, hdecode⟩) h
          exact ⟨bytes, d, hfound, hrestores, .inr hbackup⟩
        | ok d =>
          exact ⟨content, d, hdecode, restores_of_verified hread hverify hdecode,
            .inl ⟨rfl, hverify⟩⟩

/-- A slot whose file matches its sidecar. -/
structure Intact (slot : UInt16) (t : FileTree) (bytes : Bytes) (m : SlotMetadata) : Prop where
  primary : readPresent t (slotLocation slot) = .ok (some bytes)
  sidecar : ∃ raw, readPresent t (sidecarLocation slot) = .ok (some raw) ∧
    SlotMetadata.ofBytes? raw = some m
  checksum : bytes.checksum = m.checksum

theorem Intact.files (h : Intact slot t bytes m) :
    t.HasLayout ∧ t.lookup .primary slot = some (.file bytes) ∧
      ∃ raw, t.lookup .sidecar slot = some (.file raw) ∧ Agrees (some raw) bytes ∧
        SlotMetadata.ofBytes? raw = some m := by
  obtain ⟨raw, hraw, hm⟩ := h.sidecar
  have hprimary := h.primary
  rw [slotLocation_eq] at hprimary
  rw [sidecarLocation_eq] at hraw
  obtain ⟨hslots, hfile⟩ := file_of_readPresent hprimary
  obtain ⟨hmeta, hside⟩ := file_of_readPresent hraw
  have hagrees : Agrees (some raw) bytes := (agrees_iff hm).mpr h.checksum
  exact ⟨hasLayout_iff.mpr ⟨hslots, hmeta⟩, hfile, raw, hside, hagrees, hm⟩

/-- A save leaves its slot intact. -/
theorem intact_saveSlot {date : Date} {entry : SlotEntry}
    (hok : (saveSlot slot date g t).answer = .ok entry)
    (hbytes : (g.saveToBytes date).answer = .ok bytes) (hlength : bytes.length < 2 ^ 64) :
    Intact slot (saveSlot slot date g t).state.2 bytes entry.metadata := by
  obtain ⟨rfl, hlayout, hstate⟩ := saveSlot_of_bytes hbytes hok
  let preview := SlotMetadata.of slot (g.saveToBytes date).state bytes
  have hsaved : (t.laidOut.saved slot bytes preview.toBytes).HasLayout :=
    hasLayout_saved.mpr hlayout
  have hread := readPresent_primary (hsaved .primary) lookup_saved_primary
  have hraw := readPresent_sidecar (hsaved .sidecar) lookup_saved_sidecar
  have hreadable : SlotMetadata.ofBytes? preview.toBytes = some preview := by
    rw [SlotMetadata.ofBytes?_toBytes]
    exact if_pos hlength
  rw [hstate]
  exact ⟨hread, ⟨preview.toBytes, hraw, hreadable⟩, rfl⟩

end SaveDirectory

end Savegame
