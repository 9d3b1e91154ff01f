import Savegame.Proofs.Resaving
import Savegame.Proofs.Torn

/-!
# The numbers in what was written

A write puts the nine numbers of a record at fixed places. Whatever was written, in full or up to
where the sink was full or the description too long: if it can be loaded at all, it gives each
number as the version has it, raw or rounded to fixed point.
-/

namespace Savegame

namespace Record

variable {f : Format} {r : Record} {front : Bytes} {limit : Nat} {d : Decoded}

/-- The fields of all versions come out even if those that follow them do not. -/
theorem body_prefix_encode (h : f.version ≤ newest) (r : Record) :
    Bytes.ofUInt32 f.version ++ (layout.put f r.values).bytes <+: (r.encode f).bytes := by
  have hlayout : (layout.put f r.values).stop = none :=
    Layout.stop_put (Layout.fits_of_isFixed isFixed_layout _)
  rw [encode_eq_andThen h, Emission.andThen_eq, Emission.andThen, hlayout]
  exact (List.prefix_append_right_inj _).mpr (List.prefix_append _ _)

theorem encode_of_newer (h : newest < f.version) (r : Record) : (r.encode f).bytes = [] := by
  rw [encode, if_pos h]

theorem bodySize_le_of_decode {bytes : Bytes} (h : decode limit bytes = .ok d) :
    bodySize ≤ bytes.length := by
  obtain ⟨r, hanswer, -⟩ := decode_eq_ok_iff.mp h
  exact (length_of_read hanswer).1

/-- A front that can be loaded reaches past the fields of all versions. -/
theorem exists_rest_of_front (hfront : front <+: (r.encode f).bytes)
    (h : decode limit front = .ok d) :
    ∃ rest, front = Bytes.ofUInt32 f.version ++ ((layout.put f r.values).bytes ++ rest) := by
  have hlength := bodySize_le_of_decode h
  rw [bodySize] at hlength
  have hversion : f.version ≤ newest := by
    apply UInt32.not_lt.mp
    intro hnewer
    rw [encode_of_newer hnewer, List.prefix_nil] at hfront
    rw [hfront] at hlength
    exact absurd hlength (by decide)
  have hput := Layout.length_put (f := f) isFixed_layout r.values
  rw [size_layout] at hput
  have hbody := List.prefix_of_prefix_length_le (body_prefix_encode hversion r) hfront
    (by rw [List.length_append, Bytes.length_ofUInt32, hput]; exact hlength)
  obtain ⟨rest, hrest⟩ := hbody
  exact ⟨rest, by rw [← hrest, List.append_assoc]⟩

theorem reals_of_front (hfront : front <+: (r.encode f).bytes) (h : decode limit front = .ok d) :
    d.record.reals = r.reals.map (Binary32.kept f.version) := by
  obtain ⟨rest, hrest⟩ := exists_rest_of_front hfront h
  have hwords : realOffsets.map front.word = r.reals.map (Kind.realWord f) :=
    hrest ▸ words_body f r rest
  have hversion : front.word 0 = f.version := hrest ▸ Bytes.word_ofUInt32_append f.version _
  have hreals : d.record.reals =
      (realOffsets.map front.word).map (Kind.ofRealWord ⟨f.version, limit⟩) := by
    rw [reals_of_decode h, hversion, List.map_map]
    rfl
  rw [hreals, hwords, List.map_map]
  exact List.map_congr_left fun x _ => Kind.ofRealWord_realWord f x

end Record

namespace Game

variable {g other : Game} {version : UInt32} {room : Option Nat}

theorem sink_prefix (g : Game) (version : UInt32) (room : Option Nat) :
    (g.write version room).sink <+: (g.emission version).bytes := by
  rw [write]
  split
  case isTrue => exact List.nil_prefix
  case isFalse =>
    cases room with
    | none => exact List.prefix_rfl
    | some room =>
      dsimp only
      rw [Emission.into]
      split
      case isTrue => exact List.prefix_rfl
      case isFalse => exact List.take_prefix _ _

/-- The numbers of a game that was written and loaded by some game, under any settings. -/
theorem reals_of_write (h : (other.load (g.write version room).sink).answer = .ok ()) :
    (other.load (g.write version room).sink).state.record.reals =
      g.record.reals.map (Binary32.kept version) := by
  cases hdecode : Record.decode other.settings.maxDescriptionLength
      (g.write version room).sink with
  | error e =>
    rw [load_of_error hdecode] at h
    cases h
  | ok d =>
    rw [load_of_decode hdecode]
    exact Record.reals_of_front (g.sink_prefix version room) hdecode

end Game

end Savegame
