import Savegame.Proofs.Restoring
import Savegame.Proofs.SavedGame
import Savegame.Proofs.WrittenCopy

/-!
# Previews of saved slots

The sidecar of a slot is made from the live game and the settings, after the game was saved as
bytes. It is nevertheless true of the bytes: the save changes nothing that is previewed, and reading
the bytes gives all of it back.
-/

namespace Savegame

/-- A preview that is true of a record. Records of older versions have no date or description. -/
structure SlotMetadata.Describes (m : SlotMetadata) (r : Record) : Prop where
  version : m.version = r.version
  secondsPlayed : m.secondsPlayed = r.secondsPlayed
  age : m.age = r.table.read Variable.locationAge
  room : m.room = r.table.read Variable.locationRoom
  node : m.node = r.table.read Variable.locationNode
  description : Record.stampVersion ≤ m.version → m.description = r.description
  savedAt : Record.stampVersion ≤ m.version → m.savedAt = r.date

theorem SlotMetadata.describes_kept (slot : UInt16) (g : Game) (bytes : Bytes) (running : Bool) :
    (SlotMetadata.of slot g bytes).Describes
      (({ g.record with running } : Record).kept g.settings.writeVersion) := by
  obtain ⟨view, limits, date, description, thumbnail, hkept, hstamp⟩ :=
    ({ g.record with running } : Record).exists_kept g.settings.writeVersion
  rw [hkept]
  constructor
  case description => exact fun h => (hstamp h).2.symm
  case savedAt => exact fun h => (hstamp h).1.symm
  all_goals rfl

namespace Game

variable {g : Game}

theorem state_saveToBytes (h : g.settings.writeVersion ≤ Record.newest) (date : Date) :
    (g.saveToBytes date).state = (g.stamp date).setRunning true := by
  rw [saveToBytes, save, write_of_le _ h]

/-- The live game is previewed after it was saved, and the preview is of what the save keeps. -/
theorem describes_keptRecord (h : g.settings.writeVersion ≤ Record.newest) (slot : UInt16)
    (date : Date) (bytes : Bytes) :
    (SlotMetadata.of slot (g.saveToBytes date).state bytes).Describes (g.keptRecord date) := by
  rw [state_saveToBytes h]
  exact SlotMetadata.describes_kept slot ((g.stamp date).setRunning true) bytes false

end Game

namespace SaveDirectory

open FileTree

variable {settings : Settings} {g : Game} {slot : UInt16} {date : Date} {t : FileTree}
  {entry : SlotEntry}

/-- A slot whose sidecar reads as a preview that is true of the slot's file. -/
structure Previewed (limit : Nat) (slot : UInt16) (t : FileTree) (m : SlotMetadata) : Prop where
  sidecar : ∃ raw, readPresent t (sidecarLocation slot) = .ok (some raw) ∧
    SlotMetadata.ofBytes? raw = some m
  file : ∃ bytes, readPresent t (slotLocation slot) = .ok (some bytes) ∧
    m.checksum = bytes.checksum ∧ m.length = bytes.length ∧
    ∃ d, Record.decode limit bytes = .ok d ∧ m.Describes d.record

/-- A game under valid settings that is saved into a slot is previewed there by what the save
answers with. -/
theorem previewed_of_saved (hsettings : settings.validate = .ok ()) (h : Reachable settings g)
    (hok : (saveSlot slot date g t).answer = .ok entry) :
    entry.metadata.version = settings.writeVersion ∧
      Previewed settings.maxDescriptionLength slot (saveSlot slot date g t).state.2
        entry.metadata := by
  obtain ⟨hversion, -⟩ := Settings.bounds_of_validate hsettings
  obtain ⟨rfl, -⟩ := h.isSavable
  obtain ⟨bytes, hbytes, hentry, -⟩ := saveSlot_of_ok hok
  obtain ⟨hlength, d, hdecode, hrecord⟩ := h.saved_of_ok hsettings hbytes
  have hintact := intact_saveSlot hok hbytes hlength
  have hdescribes := Game.describes_keptRecord hversion slot date bytes
  rw [← hrecord] at hdescribes
  subst hentry
  refine ⟨?_, hintact.sidecar, bytes, hintact.primary, rfl, rfl, d, hdecode, hdescribes⟩
  rw [Game.state_saveToBytes hversion]
  rfl

/-- A new game, saved into an empty directory. -/
theorem previewed_of_saved_first :
    let o := saveSlot 7 { year := 2003, month := 9, day := 24 } (.start {}) {}
    ∃ entry, o.answer = .ok entry ∧ entry.metadata.version = 149 ∧
      Previewed 256 7 o.state.2 entry.metadata := by
  intro o
  have hsettings : ({} : Settings).validate = .ok () := rfl
  obtain ⟨bytes, -, hbytes, -⟩ := Reachable.start.saved hsettings
    { year := 2003, month := 9, day := 24 }
  have hok := answer_saveSlot 7 admitsLayout_empty (isClear_empty 7) hbytes
  exact ⟨_, hok, previewed_of_saved hsettings .start hok⟩

end SaveDirectory

end Savegame
