import Savegame.Binary32.Shortest
import Savegame.Proofs.Json

/-!
# Decimals are read back

A number that is no integer is printed with a fraction or an exponent. Such a text is read back as
it was printed, and the text of every finite binary32 number is one.
-/

namespace Savegame

namespace Json

open Reader (isDigit)

/-- The point and the digits after it, where there are any. -/
inductive IsPlaces : List Char → Prop
  | none : IsPlaces []
  | some {run : List Char} (h : IsRun run) : IsPlaces ('.' :: run)

/-- The exponent, where there is one. -/
inductive IsPower : List Char → Prop
  | none : IsPower []
  | some {sign : Char} {run : List Char} (hsign : sign = '+' ∨ sign = '-') (h : IsRun run) :
      IsPower ('e' :: sign :: run)

/-- The texts without a sign that are read as numbers, but not as integers. -/
inductive IsUnsigned : List Char → Prop
  | mk {run places power : List Char} (hrun : IsWhole run) (hplaces : IsPlaces places)
      (hpower : IsPower power) (hreal : places ++ power ≠ []) :
      IsUnsigned (run ++ (places ++ power))

inductive IsDecimal : List Char → Prop
  | positive {text : List Char} (h : IsUnsigned text) : IsDecimal text
  | negative {text : List Char} (h : IsUnsigned text) : IsDecimal ('-' :: text)

theorem IsRun.lt (h : IsRun run) : ∀ c ∈ run, c.toNat < 128 :=
  fun c hc => lt_of_isDigit (h.digits c hc)

theorem IsPlaces.lt {places : List Char} (h : IsPlaces places) : ∀ c ∈ places, c.toNat < 128 := by
  cases h with
  | none => exact List.forall_mem_nil _
  | some h => exact List.forall_mem_cons.mpr ⟨by decide, h.lt⟩

theorem IsPower.lt {power : List Char} (h : IsPower power) : ∀ c ∈ power, c.toNat < 128 := by
  cases h with
  | none => exact List.forall_mem_nil _
  | some hsign h =>
    refine List.forall_mem_cons.mpr ⟨by decide, List.forall_mem_cons.mpr ⟨?_, h.lt⟩⟩
    rcases hsign with rfl | rfl <;> decide

theorem IsUnsigned.lt {text : List Char} (h : IsUnsigned text) : ∀ c ∈ text, c.toNat < 128 := by
  cases h with
  | mk hrun hplaces hpower _ =>
    intro c hc
    rcases List.mem_append.mp hc with hc | hc
    · exact hrun.lt c hc
    · rcases List.mem_append.mp hc with hc | hc
      · exact hplaces.lt c hc
      · exact hpower.lt c hc

theorem IsDecimal.lt {text : List Char} (h : IsDecimal text) : ∀ c ∈ text, c.toNat < 128 := by
  cases h with
  | positive h => exact h.lt
  | negative h => exact List.forall_mem_cons.mpr ⟨by decide, h.lt⟩

/-- What may come after the digits of a fraction, or in its place. -/
def EndsPlaces (rest : Bytes) : Prop :=
  ∀ b, rest.head? = some b → isDigit b = false ∧ b ≠ 0x2E

theorem EndsPlaces.endsDigits {rest : Bytes} (h : EndsPlaces rest) : EndsDigits rest :=
  fun b hb => (h b hb).1

theorem Ends.endsPlaces {rest : Bytes} (h : Ends rest) : EndsPlaces rest := by
  intro b hb
  cases h with
  | nothing => cases hb
  | comma => cases hb; decide
  | line => cases hb; decide

theorem IsPower.endsPlaces {power : List Char} (h : IsPower power) {rest : Bytes}
    (hrest : Ends rest) : EndsPlaces (power.map asciiByte ++ rest) := by
  cases h with
  | none => exact hrest.endsPlaces
  | some =>
    intro b hb
    cases hb
    decide

theorem IsPlaces.endsDigits {places : List Char} (h : IsPlaces places) {rest : Bytes}
    (hrest : EndsPlaces rest) : EndsDigits (places.map asciiByte ++ rest) := by
  cases h with
  | none => exact hrest.endsDigits
  | some =>
    intro b hb
    cases hb
    decide

theorem fraction_append {places : List Char} (h : IsPlaces places) {rest : Bytes}
    (hrest : EndsPlaces rest) :
    Reader.fraction (places.map asciiByte ++ rest) = some (places.map asciiByte, rest) := by
  cases h with
  | none =>
    rw [List.map_nil, List.nil_append]
    unfold Reader.fraction
    split
    · exact absurd rfl (hrest _ rfl).2
    · rfl
  | some h =>
    have hpoint : asciiByte '.' = 0x2E := rfl
    rw [List.map_cons, hpoint, List.cons_append, Reader.fraction,
      digits_append h hrest.endsDigits]
    rfl

theorem exponent_append {power : List Char} (h : IsPower power) {rest : Bytes} (hrest : Ends rest) :
    Reader.exponent (power.map asciiByte ++ rest) = some (power.map asciiByte, rest) := by
  cases h with
  | none => exact exponent_of_ends hrest
  | @some sign run hsign h =>
    have hmark : asciiByte 'e' = 0x65 := rfl
    have hbyte : asciiByte sign = 0x2B ∨ asciiByte sign = 0x2D := by
      rcases hsign with rfl | rfl
      · exact .inl rfl
      · exact .inr rfl
    rw [List.map_cons, List.map_cons, hmark, List.cons_append, List.cons_append, Reader.exponent]
    simp only [true_or, if_true, if_pos hbyte, digits_append h hrest.endsDigits, Option.map_some]

theorem ofNat_map_asciiByte {text : List Char} (h : ∀ c ∈ text, c.toNat < 128) :
    (text.map asciiByte).map (fun b => Char.ofNat b.toNat) = text := by
  rw [List.map_map]
  refine (List.map_congr_left fun c hc => ?_).trans (List.map_id _)
  rw [Function.comp_apply, toNat_asciiByte (h c hc), Char.ofNat_toNat, id]

theorem IsUnsigned.starts {text : List Char} (h : IsUnsigned text) :
    ∃ c rest, text = c :: rest ∧ c.isDigit = true := by
  cases h with
  | @mk run places power hrun =>
    cases run with
    | nil => exact absurd rfl hrun.notEmpty
    | cons c run => exact ⟨c, _, rfl, hrun.digits c List.mem_cons_self⟩

theorem IsDecimal.starts {text : List Char} (h : IsDecimal text) :
    ∃ b run, text.map asciiByte = b :: run ∧ (b = 0x2D ∨ isDigit b = true) := by
  cases h with
  | positive h =>
    obtain ⟨c, rest, rfl, hc⟩ := h.starts
    exact ⟨asciiByte c, _, rfl, .inr (isDigit_asciiByte hc)⟩
  | negative h => exact ⟨0x2D, _, rfl, .inl rfl⟩

/-- The parts are read one after the other, and there is one after the digits. -/
theorem IsUnsigned.read {text : List Char} (h : IsUnsigned text) {rest : Bytes}
    (hrest : Ends rest) :
    ∃ run places power after last,
      Reader.whole (text.map asciiByte ++ rest) = some (run, after) ∧
        Reader.fraction after = some (places, last) ∧
        Reader.exponent last = some (power, rest) ∧
        run ++ places ++ power = text.map asciiByte ∧ ¬ (places = [] ∧ power = []) := by
  cases h with
  | @mk run places power hrun hplaces hpower hreal =>
    have hends := hpower.endsPlaces hrest
    refine ⟨run.map asciiByte, places.map asciiByte, power.map asciiByte, _, _, ?_,
      fraction_append hplaces hends, exponent_append hpower hrest, ?_, ?_⟩
    · rw [List.map_append, List.map_append, List.append_assoc, List.append_assoc]
      exact whole_append hrun (hplaces.endsDigits hends)
    · rw [List.map_append, List.map_append, List.append_assoc]
    · rintro ⟨hplaces, hpower⟩
      rw [List.map_eq_nil_iff] at hplaces hpower
      exact hreal (by rw [hplaces, hpower, List.append_nil])

/-- A number that is no integer is read as its text. -/
theorem number_decimal {text : List Char} (h : IsDecimal text) {rest : Bytes} (hrest : Ends rest) :
    Reader.number (text.map asciiByte ++ rest) =
      some (.decimal (String.ofList text), rest) := by
  have htext := ofNat_map_asciiByte h.lt
  cases h with
  | positive h =>
    obtain ⟨run, places, power, after, last, hwhole, hfraction, hexponent, hparts, hreal⟩ :=
      h.read hrest
    obtain ⟨c, tail, rfl, hc⟩ := h.starts
    have hminus : asciiByte c ≠ 0x2D := by
      intro hbyte
      have hdigit := isDigit_asciiByte hc
      rw [hbyte] at hdigit
      exact absurd hdigit (by decide)
    rw [← hparts] at htext
    have hresult := congrArg String.ofList htext
    rw [List.map_cons, List.cons_append] at hwhole ⊢
    rw [Reader.number.eq_def]
    simpa [hminus, hwhole, hfraction, hexponent, hreal] using hresult
  | @negative text h =>
    obtain ⟨run, places, power, after, last, hwhole, hfraction, hexponent, hparts, hreal⟩ :=
      h.read hrest
    have hsign : asciiByte '-' = 0x2D := rfl
    have hinteger : ¬ (places = [] ∧ power = [] ∧ ¬ Reader.ofDigits run = 0) :=
      fun h => hreal ⟨h.1, h.2.1⟩
    rw [List.map_cons, ← hparts] at htext
    have hresult := congrArg String.ofList htext
    rw [List.map_cons, List.cons_append, hsign, Reader.number.eq_def]
    simpa [hwhole, hfraction, hexponent, hinteger, hsign] using hresult

theorem readsBack_decimal {text : String} (h : IsDecimal text.toList) :
    ReadsBack (.decimal text) := by
  obtain ⟨b, run, hrun, hb⟩ := h.starts
  have hprint : ∀ depth, print depth (.decimal text) = b :: run := by
    intro depth
    rw [print, encode_ascii h.lt, hrun]
  apply readsBack_number hprint hb
  intro rest hrest
  have hnumber := number_decimal h hrest
  rwa [hrun, List.cons_append, String.ofList_toList] at hnumber

end Json

end Savegame
