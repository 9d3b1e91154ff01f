import Savegame.Proofs.Acceptance
import Savegame.Proofs.Restoring
import Savegame.Proofs.SavedGame

/-!
# What a load of a slot comes to

Three files decide about a load: the slot's own file, its sidecar and its backup. The rules are
stated on what these hold, with every error that can come of it, and a load follows them.
-/

namespace Savegame

/-- A load that ends as it should: with a record it goes on from that one, and with an error the
game is left as it was. -/
def Outcome.ComesTo (o : Outcome Game Unit) (g : Game) : Except SaveError Record → Prop
  | .ok r => o.Restores g r
  | .error e => o.answer = .error e ∧ o.state = g

namespace SaveDirectory

open FileTree

variable {limit : Nat} {slot : UInt16} {t : FileTree} {g : Game} {bytes previous : Bytes}
  {side backup : Option Bytes} {e : SaveError} {d : Record.Decoded}

/-- What there is against the content of a slot's file: the sidecar has another checksum, or else it
is no record. -/
inductive Objection (limit : Nat) (side : Option Bytes) (bytes : Bytes) : SaveError → Prop
  | mismatch {raw : Bytes} {m : SlotMetadata} (hside : side = some raw)
      (hm : SlotMetadata.ofBytes? raw = some m) (hne : bytes.checksum ≠ m.checksum) :
      Objection limit side bytes (.corrupt (.checksum m.checksum bytes.checksum))
  | unreadable {e : SaveError} (hagrees : Agrees side bytes)
      (hdecode : Record.decode limit bytes = .error e) : Objection limit side bytes e

/-- The rules of a load, on what is in the slot's file, its sidecar and its backup. -/
inductive Decision (limit : Nat) (slot : UInt16) :
    Option Bytes → Option Bytes → Option Bytes → Except SaveError Record → Prop
  | notFound (side backup : Option Bytes) :
      Decision limit slot none side backup (.error (.slotNotFound slot))
  | primary {bytes : Bytes} {side : Option Bytes} {d : Record.Decoded} (backup : Option Bytes)
      (hagrees : Agrees side bytes) (hdecode : Record.decode limit bytes = .ok d) :
      Decision limit slot (some bytes) side backup (.ok d.record)
  | backup {bytes previous : Bytes} {side : Option Bytes} {e : SaveError} {d : Record.Decoded}
      (hobjection : Objection limit side bytes e)
      (hdecode : Record.decode limit previous = .ok d) :
      Decision limit slot (some bytes) side (some previous) (.ok d.record)
  | bothUnreadable {bytes previous : Bytes} {side : Option Bytes} {e f : SaveError}
      (hobjection : Objection limit side bytes e)
      (hdecode : Record.decode limit previous = .error f) :
      Decision limit slot (some bytes) side (some previous) (.error (.backupUnreadable e f))
  | backupMissing {bytes : Bytes} {side : Option Bytes} {e : SaveError}
      (hobjection : Objection limit side bytes e) :
      Decision limit slot (some bytes) side none (.error (.backupMissing e))

theorem agrees_or_mismatch (side : Option Bytes) (bytes : Bytes) :
    Agrees side bytes ∨ ∃ raw m, side = some raw ∧ SlotMetadata.ofBytes? raw = some m ∧
      bytes.checksum ≠ m.checksum := by
  by_cases h : Agrees side bytes
  · exact .inl h
  · right
    simp only [Agrees, not_forall] at h
    obtain ⟨raw, hraw, m, hm, hne⟩ := h
    exact ⟨raw, m, hraw, hm, hne⟩

theorem exists_objection (limit : Nat) (side : Option Bytes) (bytes : Bytes) :
    (Agrees side bytes ∧ ∃ d, Record.decode limit bytes = .ok d) ∨
      ∃ e, Objection limit side bytes e := by
  rcases agrees_or_mismatch side bytes with hagrees | ⟨raw, m, hraw, hm, hne⟩
  · cases hdecode : Record.decode limit bytes with
    | ok d => exact .inl ⟨hagrees, d, rfl⟩
    | error e => exact .inr ⟨e, .unreadable hagrees hdecode⟩
  · exact .inr ⟨_, .mismatch hraw hm hne⟩

namespace Objection

theorem isCorruption (h : Objection limit side bytes e) : e.isCorruption = true := by
  cases h with
  | mismatch => rfl
  | unreadable _ hdecode => exact Record.isCorruption_of_decode hdecode

theorem not_accepted (h : Objection limit side bytes e) :
    ¬ (Agrees side bytes ∧ Record.decode limit bytes = .ok d) := by
  rintro ⟨hagrees, haccepted⟩
  cases h with
  | mismatch hside hm hne => exact hne (hagrees _ hside _ hm)
  | unreadable _ hdecode =>
    rw [hdecode] at haccepted
    cases haccepted

theorem unique {f : SaveError} (h : Objection limit side bytes e)
    (hf : Objection limit side bytes f) : e = f := by
  cases h with
  | mismatch hside hm hne =>
    cases hf with
    | mismatch hother hfound =>
      rw [hside, Option.some.injEq] at hother
      subst hother
      rw [hm, Option.some.injEq] at hfound
      rw [hfound]
    | unreadable hagrees => exact absurd (hagrees _ hside _ hm) hne
  | unreadable hagrees hdecode =>
    cases hf with
    | mismatch hside hm hne => exact absurd (hagrees _ hside _ hm) hne
    | unreadable _ hother =>
      rw [hdecode, Except.error.injEq] at hother
      exact hother

theorem refused (h : Objection g.settings.maxDescriptionLength side bytes e)
    (hside : readPresent t (sidecarLocation slot) = .ok side) : Refused slot t g bytes e := by
  cases h with
  | mismatch hraw hm hne =>
    subst hraw
    exact .inl (congrArg Outcome.answer (verify_of_ne hside hm hne))
  | unreadable hagrees hdecode => exact .inr ⟨verify_of_agrees hside hagrees, hdecode⟩

end Objection

namespace Decision

variable {primary : Option Bytes} {verdict other : Except SaveError Record}

theorem exists_of_objection (slot : UInt16) (backup : Option Bytes)
    (h : Objection limit side bytes e) :
    ∃ verdict, Decision limit slot (some bytes) side backup verdict := by
  cases backup with
  | none => exact ⟨_, .backupMissing h⟩
  | some previous =>
    cases hdecode : Record.decode limit previous with
    | ok d => exact ⟨_, .backup h hdecode⟩
    | error f => exact ⟨_, .bothUnreadable h hdecode⟩

/-- There is a rule for every content. -/
theorem exists_verdict (limit : Nat) (slot : UInt16) (primary side backup : Option Bytes) :
    ∃ verdict, Decision limit slot primary side backup verdict := by
  cases primary with
  | none => exact ⟨_, .notFound side backup⟩
  | some bytes =>
    rcases exists_objection limit side bytes with ⟨hagrees, d, hdecode⟩ | ⟨e, hobjection⟩
    · exact ⟨_, .primary backup hagrees hdecode⟩
    · exact exists_of_objection slot backup hobjection

/-- No two rules are at odds. -/
theorem unique (h : Decision limit slot primary side backup verdict)
    (hother : Decision limit slot primary side backup other) : verdict = other := by
  cases h with
  | notFound => cases hother; rfl
  | primary _ hagrees hdecode =>
    cases hother with
    | primary _ _ hfound =>
      rw [hdecode, Except.ok.injEq] at hfound
      rw [hfound]
    | backup hobjection => exact absurd ⟨hagrees, hdecode⟩ hobjection.not_accepted
    | bothUnreadable hobjection => exact absurd ⟨hagrees, hdecode⟩ hobjection.not_accepted
    | backupMissing hobjection => exact absurd ⟨hagrees, hdecode⟩ hobjection.not_accepted
  | backup hobjection hdecode =>
    cases hother with
    | primary _ hagrees hfound => exact absurd ⟨hagrees, hfound⟩ hobjection.not_accepted
    | backup _ hfound =>
      rw [hdecode, Except.ok.injEq] at hfound
      rw [hfound]
    | bothUnreadable _ hfound =>
      rw [hdecode] at hfound
      cases hfound
  | bothUnreadable hobjection hdecode =>
    cases hother with
    | primary _ hagrees hfound => exact absurd ⟨hagrees, hfound⟩ hobjection.not_accepted
    | backup _ hfound =>
      rw [hdecode] at hfound
      cases hfound
    | bothUnreadable hagain hfound =>
      rw [hdecode, Except.error.injEq] at hfound
      rw [hobjection.unique hagain, hfound]
  | backupMissing hobjection =>
    cases hother with
    | primary _ hagrees hfound => exact absurd ⟨hagrees, hfound⟩ hobjection.not_accepted
    | backupMissing hagain => rw [hobjection.unique hagain]

end Decision

/-- A load that does not use the slot's file ends like the load of the backup. -/
theorem comesTo_of_refused {verdict : Except SaveError Record}
    (hprimary : readPresent t (slotLocation slot) = .ok (some bytes))
    (hrefused : Refused slot t g bytes e) (he : e.isCorruption = true)
    (h : (loadBackup slot t g e).ComesTo g verdict) :
    (loadSlot slot t g).ComesTo g verdict := by
  obtain ⟨hanswer, hstate⟩ := loadSlot_of_refused hprimary hrefused he
  cases verdict with
  | ok r => exact ⟨hanswer.trans h.answer, hstate.trans h.state⟩
  | error f => exact ⟨hanswer.trans h.1, hstate.trans h.2⟩

theorem loadBackup_of_error {f : SaveError} (cause : SaveError)
    (hbackup : readPresent t (backupLocation slot) = .ok (some previous))
    (hdecode : Record.decode g.settings.maxDescriptionLength previous = .error f) :
    loadBackup slot t g cause = ⟨.error (.backupUnreadable cause f), g, []⟩ := by
  rw [loadBackup, hbackup]
  simp only [Game.load_of_error hdecode]

theorem comesTo_of_decision {primary : Option Bytes} {verdict : Except SaveError Record}
    (hprimary : readPresent t (slotLocation slot) = .ok primary)
    (hside : readPresent t (sidecarLocation slot) = .ok side)
    (hbackup : readPresent t (backupLocation slot) = .ok backup)
    (h : Decision g.settings.maxDescriptionLength slot primary side backup verdict) :
    (loadSlot slot t g).ComesTo g verdict := by
  cases h with
  | notFound =>
    rw [loadSlot_of_none hprimary]
    exact ⟨rfl, rfl⟩
  | primary _ hagrees hdecode =>
    exact restores_of_verified hprimary (verify_of_agrees hside hagrees) hdecode
  | backup hobjection hdecode =>
    apply comesTo_of_refused hprimary (hobjection.refused hside) hobjection.isCorruption
    exact restores_backup _ hbackup hdecode
  | bothUnreadable hobjection hdecode =>
    apply comesTo_of_refused hprimary (hobjection.refused hside) hobjection.isCorruption
    rw [loadBackup_of_error _ hbackup hdecode]
    exact ⟨rfl, rfl⟩
  | backupMissing hobjection =>
    apply comesTo_of_refused hprimary (hobjection.refused hside) hobjection.isCorruption
    rw [loadBackup_of_none hbackup]
    exact ⟨rfl, rfl⟩

theorem exists_readPresent {f : SlotFile} (hadmits : t.AdmitsLayout)
    (hfree : t.lookup f slot ≠ some .directory) :
    ∃ content, readPresent t (f.location slot) = .ok content := by
  rw [readPresent, FileTree.read, place_location_eq]
  cases hname : t.entries.find? [f.directory] with
  | none => exact ⟨none, rfl⟩
  | some place =>
    cases place with
    | file content => exact absurd ⟨content, hname⟩ (hadmits f)
    | directory =>
      cases hentry : t.lookup f slot with
      | none => exact ⟨none, rfl⟩
      | some entry =>
        cases entry with
        | directory => exact absurd hentry hfree
        | file content => exact ⟨some content, rfl⟩

/-- Whatever a slot's file, its sidecar and its backup hold, if none of them is a directory, a load
of the slot comes to what the rules say of them, and to nothing else. It answers with a game alone:
the files are as they were. -/
theorem loadSlot_decided (hadmits : t.AdmitsLayout)
    (hfree : ∀ f ∈ [SlotFile.primary, .sidecar, .backup], t.lookup f slot ≠ some .directory)
    (g : Game) :
    ∃ primary side backup, readPresent t (slotLocation slot) = .ok primary ∧
      readPresent t (sidecarLocation slot) = .ok side ∧
      readPresent t (backupLocation slot) = .ok backup ∧
      ∃ verdict, (loadSlot slot t g).ComesTo g verdict ∧
        ∀ other, Decision g.settings.maxDescriptionLength slot primary side backup other ↔
          other = verdict := by
  simp only [List.forall_mem_cons] at hfree
  obtain ⟨hprimary, hsidecar, hbackup, -⟩ := hfree
  obtain ⟨primary, hfirst⟩ := exists_readPresent hadmits hprimary
  obtain ⟨side, hsecond⟩ := exists_readPresent hadmits hsidecar
  obtain ⟨backup, hthird⟩ := exists_readPresent hadmits hbackup
  rw [← slotLocation_eq] at hfirst
  rw [← sidecarLocation_eq] at hsecond
  rw [← backupLocation_eq] at hthird
  obtain ⟨verdict, hverdict⟩ := Decision.exists_verdict
    g.settings.maxDescriptionLength slot primary side backup
  refine ⟨primary, side, backup, hfirst, hsecond, hthird, verdict, ?_, fun other => ?_⟩
  · exact comesTo_of_decision hfirst hsecond hthird hverdict
  · constructor
    · intro hother
      exact hother.unique hverdict
    · rintro rfl
      exact hverdict

/-- A slot file of three bytes is given up for a backup that can be read. -/
theorem loadSlot_decided_backup :
    ∃ bytes d, ((Game.start {}).saveToBytes {}).answer = .ok bytes ∧
      Record.decode 256 bytes = .ok d ∧
      let t := (({} : FileTree).laidOut.put .primary 1 [1, 2, 3]).put .backup 1 bytes
      (t.AdmitsLayout ∧
          ∀ f ∈ [SlotFile.primary, .sidecar, .backup], t.lookup f 1 ≠ some .directory) ∧
        (loadSlot 1 t (.start {})).Restores (.start {}) d.record := by
  have hstart : Reachable {} (Game.start {}) := .start
  have hlimit : (Game.start {}).settings.maxDescriptionLength = 256 := rfl
  generalize Game.start {} = g at hstart hlimit ⊢
  obtain ⟨bytes, d, hbytes, hdecode, -⟩ := hstart.saved rfl {}
  refine ⟨bytes, d, hbytes, hdecode, ?_⟩
  intro t
  have hlayout : t.HasLayout :=
    hasLayout_put.mpr (hasLayout_put.mpr (hasLayout_laidOut admitsLayout_empty))
  have hclear : t.IsClear 1 := ((isClear_empty 1).laidOut.put _ _ _).put _ _ _
  refine ⟨⟨hlayout.admitsLayout, fun f _ => hclear f⟩, ?_⟩
  obtain ⟨primary, side, backup, hprimary, hside, hbackup, verdict, hload, hdecision⟩ :=
    loadSlot_decided hlayout.admitsLayout (fun f _ => hclear f) g
  have hthree : t.lookup .primary 1 = some (.file [1, 2, 3]) := by simp [t, lookup_put]
  have hkept : t.lookup .backup 1 = some (.file bytes) := by simp [t, lookup_put]
  have habsent : t.lookup .sidecar 1 = none := rfl
  have hfirst := readPresent_primary (hlayout .primary) hthree
  have hlast := readPresent_backup (hlayout .backup) hkept
  have hnone := sidecarLocation_eq 1 ▸ readPresent_of_none (hlayout .sidecar) habsent
  obtain rfl := Except.ok.inj (hprimary.symm.trans hfirst)
  obtain rfl := Except.ok.inj (hside.symm.trans hnone)
  obtain rfl := Except.ok.inj (hbackup.symm.trans hlast)
  rw [hlimit] at hdecision
  have hrule : Decision 256 1 (some [1, 2, 3]) none (some bytes) (.ok d.record) :=
    .backup (.unreadable (agrees_none _) rfl) hdecode
  rw [← (hdecision _).mp hrule] at hload
  exact hload

end SaveDirectory

end Savegame
