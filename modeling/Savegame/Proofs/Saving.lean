import Savegame.Proofs.Reachable

/-!
# What a failed save leaves

A save can fail before it begins, when the version is refused, or on the way, when the record or the
sink stops it. The game is then as it was, but it runs once a walk has begun, and it may bear the
new date.
-/

namespace Savegame.Game

/-- What becomes of the bytes that are written: all of them are taken, or the sink stops, at any
byte and for any reason. -/
abbrev Sink := Emission → Emission

/-- The sink with room for a number of bytes, or for any number. -/
def Sink.ofRoom : Option Nat → Sink
  | some room => fun e => e.into room
  | none => id

/-- Writes the record at a version into any sink. -/
def writeTo (g : Game) (version : UInt32) (sink : Sink) : Written :=
  if Record.newest < version then
    ⟨⟨.error (.versionTooRecent version Record.newest), g, []⟩, []⟩
  else
    let e := sink (g.emission version)
    ⟨⟨e.answer e.bytes.length, g.setRunning true, Record.encodeEvents (g.format version) e⟩,
      e.bytes⟩

/-- Stamps the game and writes it into any sink. -/
def saveTo (g : Game) (date : Date) (sink : Sink) : Written :=
  (g.stamp date).writeTo g.settings.writeVersion sink

variable {g : Game} {version : UInt32} {e : SaveError}

theorem writeTo_ofRoom (g : Game) (version : UInt32) (room : Option Nat) :
    g.writeTo version (.ofRoom room) = g.write version room := by
  cases room <;> rfl

theorem saveTo_ofRoom (g : Game) (date : Date) (room : Option Nat) :
    g.saveTo date (.ofRoom room) = g.save date room :=
  (g.stamp date).writeTo_ofRoom _ room

theorem writeTo_of_lt (h : Record.newest < version) (sink : Sink) :
    g.writeTo version sink =
      ⟨⟨.error (.versionTooRecent version Record.newest), g, []⟩, []⟩ :=
  if_pos h

theorem state_writeTo (h : version ≤ Record.newest) (sink : Sink) :
    (g.writeTo version sink).outcome.state = g.setRunning true := by
  rw [writeTo, if_neg (UInt32.not_lt.mpr h)]

theorem answer_writeTo (h : version ≤ Record.newest) (sink : Sink) :
    (g.writeTo version sink).outcome.answer =
      (sink (g.emission version)).answer (sink (g.emission version)).bytes.length := by
  rw [writeTo, if_neg (UInt32.not_lt.mpr h)]

/-- A write into any sink fails for one of two reasons, and only the second is met after the game
was changed. -/
theorem state_of_answer_writeTo {sink : Sink}
    (h : (g.writeTo version sink).outcome.answer = .error e) :
    (Record.newest < version ∧ e = .versionTooRecent version Record.newest ∧
        (g.writeTo version sink).outcome.state = g) ∨
      (version ≤ Record.newest ∧ (sink (g.emission version)).stop = some e ∧
        (g.writeTo version sink).outcome.state = g.setRunning true) := by
  by_cases hnewer : Record.newest < version
  · rw [writeTo_of_lt hnewer] at h ⊢
    cases h
    exact .inl ⟨hnewer, rfl, rfl⟩
  · have hversion : version ≤ Record.newest := UInt32.not_lt.mp hnewer
    rw [answer_writeTo hversion, Emission.answer_eq_error_iff] at h
    exact .inr ⟨hversion, h, state_writeTo hversion sink⟩

theorem answer_write_of_room_lt {room : Nat} (h : version ≤ Record.newest)
    (hroom : room < (g.emission version).bytes.length) :
    (g.write version (some room)).outcome.answer = .error (.stream .sinkFull) := by
  have hfull : Sink.ofRoom (some room) (g.emission version) =
      ⟨(g.emission version).bytes.take room, some (.stream .sinkFull)⟩ :=
    if_neg (not_le.mpr hroom)
  rw [← writeTo_ofRoom, answer_writeTo h, hfull]
  rfl

/-- A record starts with its version, in four bytes. -/
theorem le_length_emission (h : version ≤ Record.newest) :
    4 ≤ (g.emission version).bytes.length := by
  have hnewer : ¬ Record.newest < (g.format version).version := UInt32.not_lt.mpr h
  rw [emission, Record.encode, if_neg hnewer, putVersion, if_neg hnewer, Emission.andThen_eq,
    List.length_append, Bytes.length_ofUInt32]
  exact Nat.le_add_right _ _

/-- A write that fails was refused for its version and left the game alone, or it was stopped on the
way. Then the game runs on, as after every write, and is left alone otherwise. A save that fails
leaves no more than that and the date behind. So it is for sinks with room for any number of bytes,
and for all others. -/
theorem state_of_failed (g : Game) (version : UInt32) (date : Date) (sink : Sink) :
    (∀ room, g.writeTo version (.ofRoom room) = g.write version room ∧
      g.saveTo date (.ofRoom room) = g.save date room) ∧
    (∀ e, (g.writeTo version sink).outcome.answer = .error e →
      let after := (g.writeTo version sink).outcome.state
      (Record.newest < version ∧ e = .versionTooRecent version Record.newest ∧ after = g) ∨
        (version ≤ Record.newest ∧ (sink (g.emission version)).stop = some e ∧
          after = g.setRunning true)) ∧
    (∀ e, (g.saveTo date sink).outcome.answer = .error e →
      let after := (g.saveTo date sink).outcome.state
      let version := g.settings.writeVersion
      ∃ kept, (kept = g.record.date ∨ kept = date) ∧
        ((Record.newest < version ∧ e = .versionTooRecent version Record.newest ∧
            after = g.stamp kept) ∨
          (version ≤ Record.newest ∧ (sink ((g.stamp date).emission version)).stop = some e ∧
            after = (g.stamp kept).setRunning true))) := by
  refine ⟨fun room => ⟨g.writeTo_ofRoom version room, g.saveTo_ofRoom date room⟩,
    fun e h => state_of_answer_writeTo h, fun e h => ⟨date, .inr rfl, ?_⟩⟩
  exact state_of_answer_writeTo h

/-- A paused game whose settings ask for a version that is too new. It is written into a sink that
is full after three bytes, and it is saved. -/
theorem state_of_failed_paused :
    let g := (start { writeVersion := 150 }).setRunning false
    (g.write 149 (some 3)).outcome.answer = .error (.stream .sinkFull) ∧
      (g.write 149 (some 3)).outcome.state = g.setRunning true ∧
      (g.save { day := 1 } none).outcome.answer = .error (.versionTooRecent 150 149) ∧
      ∃ kept, (kept = {} ∨ kept = { day := 1 }) ∧
        (g.save { day := 1 } none).outcome.state = g.stamp kept := by
  intro g
  have hnewest : (149 : UInt32) ≤ Record.newest := by decide
  have hwrite : (g.write 149 (some 3)).outcome.answer = .error (.stream .sinkFull) :=
    answer_write_of_room_lt hnewest (le_length_emission hnewest)
  have hsave : (g.save { day := 1 } none).outcome.answer = .error (.versionTooRecent 150 149) := rfl
  obtain ⟨-, hfull, -⟩ := state_of_failed g 149 {} (.ofRoom (some 3))
  obtain ⟨-, -, htooNew⟩ := state_of_failed g 149 { day := 1 } (.ofRoom none)
  rw [writeTo_ofRoom] at hfull
  rw [saveTo_ofRoom] at htooNew
  refine ⟨hwrite, ?_, hsave, ?_⟩
  · obtain ⟨hnewer, -⟩ | ⟨-, -, hafter⟩ := hfull _ hwrite
    · exact absurd hnewer (UInt32.not_lt.mpr hnewest)
    · exact hafter
  · obtain ⟨kept, hkept, ⟨-, -, hafter⟩ | ⟨hversion, -⟩⟩ := htooNew _ hsave
    · exact ⟨kept, hkept, hafter⟩
    · exact absurd hversion (by decide)

/-- Both of these failures change the record: the game runs, or it bears the date. -/
theorem record_changed_by_failures :
    let g := (start { writeVersion := 150 }).setRunning false
    (g.write 149 (some 3)).outcome.answer = .error (.stream .sinkFull) ∧
      (g.write 149 (some 3)).outcome.state.record ≠ g.record ∧
      (g.save { day := 1 } none).outcome.answer = .error (.versionTooRecent 150 149) ∧
      (g.save { day := 1 } none).outcome.state.record ≠ g.record := by
  intro g
  have hnewest : (149 : UInt32) ≤ Record.newest := by decide
  have hroom : 3 < (g.emission 149).bytes.length := le_length_emission hnewest
  refine ⟨answer_write_of_room_lt hnewest hroom, fun h => ?_, rfl, fun h => ?_⟩
  · have hrunning : true = false := congrArg Record.running h
    cases hrunning
  · have hdate : ({ day := 1 } : Date) = {} := congrArg Record.date h
    cases hdate

end Savegame.Game
