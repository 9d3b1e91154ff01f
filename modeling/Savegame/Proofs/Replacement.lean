import Savegame.Proofs.SlotCall

/-!
# What a whole save leaves behind

A save into a slot is a list of calls. If they all succeed, one known tree is left behind, and they
do succeed where no directory stands in the way of the slot's files.
-/

namespace Savegame

theorem Outcome.andThen_assoc {σ α β γ : Type} (o : Outcome σ α) (next : α → σ → Outcome σ β)
    (last : β → σ → Outcome σ γ) :
    (o.andThen next).andThen last = o.andThen fun x s => (next x s).andThen last := by
  obtain ⟨answer, state, events⟩ := o
  cases answer with
  | error e => rfl
  | ok x =>
    simp only [andThen]
    cases (next x state).answer with
    | error e => rfl
    | ok y => simp only [List.append_assoc]

namespace FileTree

variable {t u : FileTree} {f g : SlotFile} {slot i j : UInt16} {content : Bytes} {name : String}

/-- No directory stands where a file of the slot goes. -/
def IsClear (t : FileTree) (slot : UInt16) : Prop :=
  ∀ f : SlotFile, t.lookup f slot ≠ some .directory

theorem IsClear.put (h : t.IsClear slot) (f : SlotFile) (i : UInt16) (content : Bytes) :
    (t.put f i content).IsClear slot := by
  intro g
  rw [lookup_put]
  split
  · simp
  · exact h g

theorem IsClear.drop (h : t.IsClear slot) (f : SlotFile) (i : UInt16) :
    (t.drop f i).IsClear slot := by
  intro g
  rw [lookup_drop]
  split
  · simp
  · exact h g

theorem IsClear.copied (h : t.IsClear slot) (f g : SlotFile) (i : UInt16) :
    (t.copied f g i).IsClear slot := by
  rw [FileTree.copied]
  split
  · exact h.put g i _
  · exact h

@[simp] theorem find?_name_copied :
    (t.copied f g slot).entries.find? [name] = t.entries.find? [name] := by
  rw [copied]
  split <;> simp

@[simp] theorem hasDirectory_copied :
    (t.copied f g slot).HasDirectory name ↔ t.HasDirectory name := by
  rw [HasDirectory, find?_name_copied, HasDirectory]

theorem lookup_copied (t : FileTree) (f g p : SlotFile) (i j : UInt16) (h : g ≠ p ∨ i ≠ j) :
    (t.copied f g i).lookup p j = t.lookup p j := by
  rw [copied]
  split
  · rw [lookup_put, if_neg (by tauto)]
  · rfl

theorem lookup_copied_self (h : t.lookup f slot = some (.file content)) :
    (t.copied f g slot).lookup g slot = some (.file content) := by
  simp [copied, h, lookup_put]

theorem copied_of_none (h : t.lookup f slot = none) : t.copied f g slot = t := by
  rw [copied, h]

/-- The tree after a file was replaced as a whole by way of another. -/
def replaced (t : FileTree) (f p : SlotFile) (slot : UInt16) (content : Bytes) : FileTree :=
  (((t.put p slot content).drop f slot).drop p slot).put f slot content

theorem lookup_replaced (t : FileTree) (f p g : SlotFile) (i j : UInt16) (content : Bytes) :
    (t.replaced f p i content).lookup g j =
      if f = g ∧ i = j then some (.file content)
      else if p = g ∧ i = j then none
      else t.lookup g j := by
  simp only [replaced, lookup_put, lookup_drop]
  grind

theorem IsClear.replaced (h : t.IsClear slot) (f p : SlotFile) (i : UInt16) (content : Bytes) :
    (t.replaced f p i content).IsClear slot :=
  (((h.put p i content).drop f i).drop p i).put f i content

@[simp] theorem find?_name_replaced {p : SlotFile} :
    (t.replaced f p slot content).entries.find? [name] = t.entries.find? [name] := by
  simp [replaced]

@[simp] theorem hasDirectory_replaced {p : SlotFile} :
    (t.replaced f p slot content).HasDirectory name ↔ t.HasDirectory name := by
  rw [HasDirectory, find?_name_replaced, HasDirectory]

@[simp] theorem lookup_withDirectory : (t.withDirectory name).lookup f slot = t.lookup f slot :=
  find?_withDirectory_file (f := f.file slot)

theorem IsClear.withDirectory (h : t.IsClear slot) (name : String) :
    (t.withDirectory name).IsClear slot := by
  intro f
  rw [lookup_withDirectory]
  exact h f

end FileTree

namespace Call

open FileTree

variable {t u v : FileTree} {f g p : SlotFile} {slot : UInt16} {content : Bytes} {name : String}
  {call : Call} {calls rest : List Call}

theorem ok_of_runAll_cons (h : (runAll t (call :: rest)).answer = .ok ()) :
    (run t call).answer = .ok () := by
  rw [runAll, Outcome.andThen] at h
  cases hrun : (run t call).answer with
  | error e =>
    rw [hrun] at h
    cases h
  | ok _ => rfl

theorem runAll_append (t : FileTree) (calls rest : List Call) :
    runAll t (calls ++ rest) = (runAll t calls).andThen fun _ u => runAll u rest := by
  induction calls generalizing t with
  | nil => rfl
  | cons call calls ih =>
    rw [List.cons_append, runAll, runAll, Outcome.andThen_assoc]
    simp only [ih]

theorem runAll_append_of_ok (h : runAll t calls = ⟨.ok (), u, []⟩) (rest : List Call) :
    runAll t (calls ++ rest) = runAll u rest := by
  rw [runAll_append, h]
  rfl

theorem runAll_append_of_error {e : SaveError} (h : (runAll t calls).answer = .error e)
    (rest : List Call) : runAll t (calls ++ rest) = runAll t calls := by
  rw [runAll_append]
  generalize runAll t calls = o at h
  obtain ⟨answer, state, events⟩ := o
  cases h
  rfl

theorem run_makeDirectories_of_hasDirectory (h : t.HasDirectory f.directory) :
    run t (.makeDirectories ⟨[f.directory]⟩) = ⟨.ok (), t, []⟩ := by
  have hsettles := settles_makeDirectories (t := t) f.isName_directory
  rw [withDirectory_of_hasDirectory h] at hsettles
  refine hsettles.eq_of_not fun ⟨content, hfile⟩ => ?_
  rw [HasDirectory, hfile] at h
  cases h

theorem settles_makeDirectories_of_hasDirectory (h : t.HasDirectory f.directory) :
    Settles t t False (run t (.makeDirectories ⟨[f.directory]⟩)) := by
  rw [run_makeDirectories_of_hasDirectory h]
  exact .done id

/-- Where nothing is in the way of the slot's files, the calls lead to a tree, and in any case they
lead to no other. -/
structure Leads (slot : UInt16) (t : FileTree) (calls : List Call) (u : FileTree) : Prop where
  answer : t.IsClear slot → (runAll t calls).answer = .ok ()
  isClear : t.IsClear slot → u.IsClear slot
  eq : (runAll t calls).answer = .ok () → runAll t calls = ⟨.ok (), u, []⟩

namespace Leads

theorem single {blocked : Prop} (h : Settles t u blocked (run t call))
    (hblocked : t.IsClear slot → ¬ blocked) (hclear : t.IsClear slot → u.IsClear slot) :
    Leads slot t [call] u := by
  refine ⟨fun ht => ?_, hclear, fun hok => ?_⟩
  · rw [runAll_cons_of_run (h.eq_of_not (hblocked ht))]
    rfl
  · rw [runAll_cons_of_run (h.eq_of_ok (ok_of_runAll_cons hok)).1]
    rfl

theorem append (h : Leads slot t calls u) (hrest : Leads slot u rest v) :
    Leads slot t (calls ++ rest) v := by
  refine ⟨fun ht => ?_, fun ht => hrest.isClear (h.isClear ht), fun hok => ?_⟩
  · rw [runAll_append_of_ok (h.eq (h.answer ht))]
    exact hrest.answer (h.isClear ht)
  · cases hfirst : (runAll t calls).answer with
    | error e =>
      rw [runAll_append_of_error hfirst, hfirst] at hok
      cases hok
    | ok _ =>
      rw [runAll_append_of_ok (h.eq hfirst)] at hok ⊢
      exact hrest.eq hok

theorem cons (h : Leads slot t [call] u) (hrest : Leads slot u rest v) :
    Leads slot t (call :: rest) v :=
  h.append hrest

theorem makeDirectories (h : t.HasDirectory f.directory) :
    Leads slot t [.makeDirectories ⟨[f.directory]⟩] t := by
  have hall := runAll_cons_of_run (run_makeDirectories_of_hasDirectory h) []
  exact ⟨fun _ => congrArg Outcome.answer hall, id, fun _ => hall⟩

theorem write (h : t.HasDirectory f.directory) (content : Bytes) :
    Leads slot t [.write (f.location slot) content] (t.put f slot content) :=
  .single (settles_write h content) (fun ht => ht f) fun ht => ht.put f slot content

theorem clear (h : t.HasDirectory f.directory) :
    Leads slot t [.clear (f.location slot)] (t.drop f slot) :=
  .single (settles_clear h) (fun ht => ht f) fun ht => ht.drop f slot

theorem move (h : t.HasDirectory f.directory) (hg : t.HasDirectory g.directory)
    (hsource : t.lookup f slot = some (.file content)) :
    Leads slot t [.move (f.location slot) (g.location slot)]
      ((t.drop f slot).put g slot content) :=
  .single (settles_move h hg hsource) (fun ht => ht g)
    fun ht => (ht.drop f slot).put g slot content

theorem backUp (h : t.HasDirectory f.directory) (hg : t.HasDirectory g.directory) :
    Leads slot t [.backUp (f.location slot) (g.location slot)] (t.copied f g slot) := by
  refine .single (settles_backUp h hg) (fun ht => ?_) fun ht => ht.copied f g slot
  rintro (hsource | ⟨-, htarget⟩)
  · exact ht f hsource
  · exact ht g htarget

/-- The last three calls of a replacement. -/
theorem swap (hf : t.HasDirectory f.directory) (hp : t.HasDirectory p.directory) (hne : f ≠ p)
    (content : Bytes) :
    Leads slot t
      [.write (p.location slot) content, .clear (f.location slot),
        .move (p.location slot) (f.location slot)]
      (t.replaced f p slot content) := by
  refine (write hp content).cons ((clear ?_).cons (move ?_ ?_ ?_))
  · rwa [hasDirectory_put]
  · rwa [hasDirectory_drop, hasDirectory_put]
  · rwa [hasDirectory_drop, hasDirectory_put]
  · simp [lookup_drop, lookup_put, hne]

end Leads

end Call

namespace FileTree

variable {t : FileTree} {g : SlotFile} {slot i j : UInt16} {bytes preview : Bytes}

def HasLayout (t : FileTree) : Prop :=
  ∀ f : SlotFile, t.HasDirectory f.directory

/-- No file stands where one of the two directories goes. -/
def AdmitsLayout (t : FileTree) : Prop :=
  ∀ f : SlotFile, ¬ ∃ content, t.entries.find? [f.directory] = some (.file content)

/-- The tree with the two directories of the slots. -/
def laidOut (t : FileTree) : FileTree :=
  (t.withDirectory "slots").withDirectory "meta"

theorem hasLayout_iff : t.HasLayout ↔ t.HasDirectory "slots" ∧ t.HasDirectory "meta" := by
  refine ⟨fun h => ⟨h .primary, h .sidecar⟩, fun ⟨hslots, hmeta⟩ f => ?_⟩
  cases f <;> assumption

theorem HasLayout.admitsLayout (h : t.HasLayout) : t.AdmitsLayout := by
  rintro f ⟨content, hfile⟩
  have hdirectory := h f
  rw [HasDirectory, hfile] at hdirectory
  cases hdirectory

theorem admitsLayout_empty : ({} : FileTree).AdmitsLayout := by
  rintro f ⟨content, hfile⟩
  cases hfile

theorem isClear_empty (slot : UInt16) : ({} : FileTree).IsClear slot := by
  intro f hentry
  cases hentry

@[simp] theorem lookup_laidOut : t.laidOut.lookup g slot = t.lookup g slot := by
  rw [laidOut, lookup_withDirectory, lookup_withDirectory]

theorem IsClear.laidOut (h : t.IsClear slot) : t.laidOut.IsClear slot :=
  (h.withDirectory "slots").withDirectory "meta"

/-- The tree after new content was put in a slot's file and its old content kept. -/
def overwritten (t : FileTree) (slot : UInt16) (bytes : Bytes) : FileTree :=
  (t.copied .primary .backup slot).replaced .primary .pending slot bytes

/-- The tree after a slot was saved with a preview. -/
def saved (t : FileTree) (slot : UInt16) (bytes preview : Bytes) : FileTree :=
  (t.overwritten slot bytes).replaced .sidecar .pendingSidecar slot preview

theorem IsClear.overwritten (h : t.IsClear slot) (i : UInt16) (bytes : Bytes) :
    (t.overwritten i bytes).IsClear slot :=
  (h.copied .primary .backup i).replaced .primary .pending i bytes

theorem IsClear.saved (h : t.IsClear slot) (i : UInt16) (bytes preview : Bytes) :
    (t.saved i bytes preview).IsClear slot :=
  (h.overwritten i bytes).replaced .sidecar .pendingSidecar i preview

theorem hasLayout_put : (t.put f slot bytes).HasLayout ↔ t.HasLayout := by
  simp [HasLayout]

theorem hasLayout_drop : (t.drop f slot).HasLayout ↔ t.HasLayout := by
  simp [HasLayout]

theorem hasLayout_copied : (t.copied f g slot).HasLayout ↔ t.HasLayout := by
  simp [HasLayout]

theorem hasLayout_overwritten : (t.overwritten slot bytes).HasLayout ↔ t.HasLayout := by
  simp [HasLayout, overwritten]

theorem hasLayout_saved : (t.saved slot bytes preview).HasLayout ↔ t.HasLayout := by
  simp [HasLayout, saved, overwritten]

theorem lookup_overwritten_of_ne (h : i ≠ j) :
    (t.overwritten i bytes).lookup g j = t.lookup g j := by
  simp [overwritten, lookup_replaced, lookup_copied, h]

theorem lookup_saved_of_ne (h : i ≠ j) :
    (t.saved i bytes preview).lookup g j = t.lookup g j := by
  simp [saved, lookup_replaced, lookup_overwritten_of_ne h, h]

@[simp] theorem lookup_overwritten_primary :
    (t.overwritten slot bytes).lookup .primary slot = some (.file bytes) := by
  simp [overwritten, lookup_replaced]

theorem lookup_overwritten_backup :
    (t.overwritten slot bytes).lookup .backup slot =
      (t.copied .primary .backup slot).lookup .backup slot := by
  simp [overwritten, lookup_replaced]

@[simp] theorem lookup_overwritten_sidecar :
    (t.overwritten slot bytes).lookup .sidecar slot = t.lookup .sidecar slot := by
  simp [overwritten, lookup_replaced, lookup_copied]

@[simp] theorem lookup_saved_primary :
    (t.saved slot bytes preview).lookup .primary slot = some (.file bytes) := by
  simp [saved, lookup_replaced]

theorem lookup_saved_backup :
    (t.saved slot bytes preview).lookup .backup slot =
      (t.copied .primary .backup slot).lookup .backup slot := by
  simp [saved, lookup_replaced, lookup_overwritten_backup]

@[simp] theorem lookup_saved_sidecar :
    (t.saved slot bytes preview).lookup .sidecar slot = some (.file preview) := by
  simp [saved, lookup_replaced]

@[simp] theorem lookup_saved_pending :
    (t.saved slot bytes preview).lookup .pending slot = none := by
  simp [saved, overwritten, lookup_replaced]

@[simp] theorem lookup_saved_pendingSidecar :
    (t.saved slot bytes preview).lookup .pendingSidecar slot = none := by
  simp [saved, lookup_replaced]

end FileTree

namespace SaveDirectory

open FileTree Call

variable {t : FileTree} {slot : UInt16} {date : Date} {g : Game} {bytes : Bytes}

theorem ensureLayout_of_ok (h : (ensureLayout t).answer = .ok ()) :
    ensureLayout t = ⟨.ok (), t.laidOut, []⟩ ∧ t.laidOut.HasLayout := by
  have hslots := (settles_makeDirectories (t := t) SlotFile.primary.isName_directory).eq_of_ok
    (ok_of_runAll_cons h)
  have hfirst := runAll_cons_of_run hslots.1 [.makeDirectories metaDirectory]
  have hrest : (runAll (t.withDirectory "slots") [.makeDirectories metaDirectory]).answer =
      .ok () := by
    rw [← h]
    exact congrArg Outcome.answer hfirst.symm
  have hmeta := (settles_makeDirectories (t := t.withDirectory "slots")
    SlotFile.sidecar.isName_directory).eq_of_ok (ok_of_runAll_cons hrest)
  refine ⟨hfirst.trans (runAll_cons_of_run hmeta.1 []), hasLayout_iff.mpr ⟨?_, ?_⟩⟩
  · exact (hasDirectory_withDirectory hslots.2).withDirectory "meta"
  · exact hasDirectory_withDirectory hmeta.2

theorem ensureLayout_of_admits (h : t.AdmitsLayout) :
    (ensureLayout t).answer = .ok () := by
  have hslots := (settles_makeDirectories (t := t) SlotFile.primary.isName_directory).eq_of_not
    (h .primary)
  have hfree : ¬ ∃ content,
      (t.withDirectory "slots").entries.find? ["meta"] = some (.file content) := by
    rw [find?_withDirectory_of_ne (by decide)]
    exact h .sidecar
  have hmeta := (settles_makeDirectories (t := t.withDirectory "slots")
    SlotFile.sidecar.isName_directory).eq_of_not hfree
  rw [ensureLayout, layoutCalls]
  exact congrArg Outcome.answer
    ((runAll_cons_of_run hslots _).trans (runAll_cons_of_run hmeta []))

theorem ensureLayout_eq (h : t.AdmitsLayout) : ensureLayout t = ⟨.ok (), t.laidOut, []⟩ :=
  (ensureLayout_of_ok (ensureLayout_of_admits h)).1

theorem hasLayout_laidOut (h : t.AdmitsLayout) : t.laidOut.HasLayout :=
  (ensureLayout_of_ok (ensureLayout_of_admits h)).2

theorem replace_primary_eq (slot : UInt16) (bytes : Bytes) :
    Call.replace (slotLocation slot) bytes true =
      [.makeDirectories ⟨[SlotFile.primary.directory]⟩,
        .backUp (SlotFile.primary.location slot) (SlotFile.backup.location slot)] ++
      [.write (SlotFile.pending.location slot) bytes, .clear (SlotFile.primary.location slot),
        .move (SlotFile.pending.location slot) (SlotFile.primary.location slot)] := by
  simp [Call.replace, slotLocation_eq]

theorem replace_sidecar_eq (slot : UInt16) (preview : Bytes) :
    Call.replace (sidecarLocation slot) preview false =
      [.makeDirectories ⟨[SlotFile.sidecar.directory]⟩] ++
      [.write (SlotFile.pendingSidecar.location slot) preview,
        .clear (SlotFile.sidecar.location slot),
        .move (SlotFile.pendingSidecar.location slot) (SlotFile.sidecar.location slot)] := by
  simp [Call.replace, sidecarLocation_eq]

theorem leads_replace_primary (h : t.HasDirectory "slots") (slot : UInt16) (bytes : Bytes) :
    Leads slot t (Call.replace (slotLocation slot) bytes true) (t.overwritten slot bytes) := by
  rw [replace_primary_eq]
  refine .append (.cons (.makeDirectories h) (.backUp h h)) (.swap ?_ ?_ (by decide) bytes)
  · rwa [hasDirectory_copied]
  · rwa [hasDirectory_copied]

theorem leads_replace_sidecar (h : t.HasDirectory "meta") (slot : UInt16) (preview : Bytes) :
    Leads slot t (Call.replace (sidecarLocation slot) preview false)
      (t.replaced .sidecar .pendingSidecar slot preview) := by
  rw [replace_sidecar_eq]
  exact .append (.makeDirectories h) (.swap h h (by decide) preview)

theorem leads_slotCalls (h : t.HasLayout) (slot : UInt16) (g : Game) (bytes : Bytes) :
    Leads slot t (slotCalls slot g bytes)
      (t.saved slot bytes (SlotMetadata.of slot g bytes).toBytes) := by
  refine (leads_replace_primary (h .primary) slot bytes).append (leads_replace_sidecar ?_ slot _)
  have hmeta : t.HasDirectory "meta" := h .sidecar
  rwa [overwritten, hasDirectory_replaced, hasDirectory_copied]

attribute [ext] SlotEntry

/-- The entry that saving a game as the given bytes answers with. -/
def SlotEntry.of (slot : UInt16) (g : Game) (bytes : Bytes) : SlotEntry :=
  ⟨SlotMetadata.of slot g bytes, slotLocation slot⟩

/-- A save of a slot makes the calls of `saveCalls`, and no others. -/
theorem files_saveSlot (slot : UInt16) (date : Date) (g : Game) (t : FileTree) :
    (saveSlot slot date g t).state.2 = (runAll t (saveCalls slot date g)).state := by
  have hlayout : ensureLayout t = runAll t layoutCalls := rfl
  rw [saveSlot, saveCalls, withGame, Outcome.andThen]
  cases hanswer : (ensureLayout t).answer with
  | error e =>
    cases hbytes : (g.saveToBytes date).answer with
    | error e => rfl
    | ok bytes => simp only [runAll_append, ← hlayout, Outcome.andThen, hanswer]
  | ok _ =>
    cases hbytes : (g.saveToBytes date).answer with
    | error e => simp only [hbytes, hlayout]
    | ok bytes => simp only [hbytes, runAll_append, ← hlayout, Outcome.andThen, hanswer]

theorem saveSlot_of_layout {u : FileTree} (hlayout : ensureLayout t = ⟨.ok (), u, []⟩)
    (hbytes : (g.saveToBytes date).answer = .ok bytes) :
    saveSlot slot date g t =
      let saved := g.saveToBytes date
      let o := runAll u (slotCalls slot saved.state bytes)
      ⟨o.answer.map fun _ => .of slot saved.state bytes, (saved.state, o.state),
        saved.events ++ o.events⟩ := by
  rw [saveSlot, hlayout, withGame, Outcome.andThen]
  simp only [hbytes]
  rfl

theorem answer_saveSlot (slot : UInt16) (hadmits : t.AdmitsLayout) (hclear : t.IsClear slot)
    (hbytes : (g.saveToBytes date).answer = .ok bytes) :
    (saveSlot slot date g t).answer = .ok (.of slot (g.saveToBytes date).state bytes) := by
  obtain ⟨hlayout, hdirectories⟩ := ensureLayout_of_ok (ensureLayout_of_admits hadmits)
  have hcalls := (leads_slotCalls hdirectories slot (g.saveToBytes date).state bytes).answer
    hclear.laidOut
  rw [saveSlot_of_layout hlayout hbytes]
  dsimp only
  rw [hcalls]
  rfl

theorem saveSlot_of_ok {entry : SlotEntry} (h : (saveSlot slot date g t).answer = .ok entry) :
    ∃ bytes, (g.saveToBytes date).answer = .ok bytes ∧
      entry = .of slot (g.saveToBytes date).state bytes ∧ t.laidOut.HasLayout ∧
      (saveSlot slot date g t).state.2 =
        t.laidOut.saved slot bytes
          (SlotMetadata.of slot (g.saveToBytes date).state bytes).toBytes := by
  cases hanswer : (ensureLayout t).answer with
  | error e =>
    rw [saveSlot, withGame, Outcome.andThen, hanswer] at h
    cases h
  | ok _ =>
    obtain ⟨hlayout, hdirectories⟩ := ensureLayout_of_ok hanswer
    cases hbytes : (g.saveToBytes date).answer with
    | error e =>
      rw [saveSlot, hlayout, withGame, Outcome.andThen] at h
      simp [hbytes] at h
    | ok bytes =>
      rw [saveSlot_of_layout hlayout hbytes] at h ⊢
      dsimp only at h ⊢
      have hleads := leads_slotCalls hdirectories slot (g.saveToBytes date).state bytes
      cases hcalls : (runAll t.laidOut
          (slotCalls slot (g.saveToBytes date).state bytes)).answer with
      | error e =>
        rw [hcalls] at h
        cases h
      | ok _ =>
        rw [hcalls] at h
        cases h
        exact ⟨bytes, rfl, rfl, hdirectories, by rw [hleads.eq hcalls]⟩

theorem saveSlot_of_bytes {entry : SlotEntry} (hbytes : (g.saveToBytes date).answer = .ok bytes)
    (h : (saveSlot slot date g t).answer = .ok entry) :
    entry = .of slot (g.saveToBytes date).state bytes ∧ t.laidOut.HasLayout ∧
      (saveSlot slot date g t).state.2 =
        t.laidOut.saved slot bytes
          (SlotMetadata.of slot (g.saveToBytes date).state bytes).toBytes := by
  obtain ⟨found, hfound, hsaved⟩ := saveSlot_of_ok h
  rw [hbytes, Except.ok.injEq] at hfound
  subst hfound
  exact hsaved

theorem isClear_saveSlot {entry : SlotEntry} (ht : t.IsClear slot)
    (h : (saveSlot slot date g t).answer = .ok entry) :
    (saveSlot slot date g t).state.2.IsClear slot := by
  obtain ⟨bytes, -, -, -, hstate⟩ := saveSlot_of_ok h
  rw [hstate]
  exact ht.laidOut.saved slot bytes _

theorem replace_primary_of_ok
    (h : (runAll t (Call.replace (slotLocation slot) bytes true)).answer = .ok ()) :
    (t.withDirectory "slots").HasDirectory "slots" ∧
      runAll t (Call.replace (slotLocation slot) bytes true) =
        ⟨.ok (), (t.withDirectory "slots").overwritten slot bytes, []⟩ := by
  rw [replace_primary_eq, List.cons_append] at h
  obtain ⟨hfirst, hfree⟩ := (settles_makeDirectories (t := t)
    SlotFile.primary.isName_directory).eq_of_ok (ok_of_runAll_cons h)
  have hslots : (t.withDirectory "slots").HasDirectory "slots" := hasDirectory_withDirectory hfree
  have hagain := run_makeDirectories_of_hasDirectory (f := .primary) hslots
  -- The first call would find its work done in the tree that it leaves behind.
  have hsame : runAll t (Call.replace (slotLocation slot) bytes true) =
      runAll (t.withDirectory "slots") (Call.replace (slotLocation slot) bytes true) := by
    rw [replace_primary_eq, List.cons_append]
    exact (runAll_cons_of_run hfirst _).trans (runAll_cons_of_run hagain _).symm
  refine ⟨hslots, hsame.trans ((leads_replace_primary hslots slot bytes).eq ?_)⟩
  rw [← hsame, replace_primary_eq, List.cons_append]
  exact h

theorem answer_saveTo (hslots : t.HasDirectory "slots") (hclear : t.IsClear slot)
    (hbytes : (g.saveToBytes date).answer = .ok bytes) :
    (saveTo (slotFileName slot) date g t).answer = .ok bytes.length := by
  have hcalls := (leads_replace_primary hslots slot bytes).answer hclear
  rw [saveTo, ← slotLocation, hbytes]
  dsimp only
  rw [hcalls]
  rfl

/-- A save by the name of a slot's file leaves the sidecar alone. -/
theorem saveTo_of_ok {length : Nat}
    (h : (saveTo (slotFileName slot) date g t).answer = .ok length) :
    ∃ bytes, (g.saveToBytes date).answer = .ok bytes ∧
      (t.withDirectory "slots").HasDirectory "slots" ∧
      (saveTo (slotFileName slot) date g t).state.2 =
        (t.withDirectory "slots").overwritten slot bytes := by
  rw [saveTo, ← slotLocation] at h ⊢
  cases hbytes : (g.saveToBytes date).answer with
  | error e => simp [hbytes] at h
  | ok bytes =>
    simp only [hbytes] at h ⊢
    cases hcalls : (runAll t (Call.replace (slotLocation slot) bytes true)).answer with
    | error e =>
      rw [hcalls] at h
      cases h
    | ok _ =>
      obtain ⟨hslots, hstate⟩ := replace_primary_of_ok hcalls
      exact ⟨bytes, rfl, hslots, by rw [hstate]⟩

end SaveDirectory

end Savegame
