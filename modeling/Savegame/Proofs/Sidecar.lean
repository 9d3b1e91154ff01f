import Savegame.Proofs.Json
import Savegame.Slot.Metadata

/-!
# Sidecars are read back

The preview of a slot is found again in its print. The only number without a width of its own is
the length of the slot's bytes, which a reader takes up to 64 bits of.
-/

namespace Savegame

namespace Json

theorem filter_of_nodup {pairs : List (String × Json)} (h : (pairs.map (·.1)).Nodup)
    {p : String × Json} (hp : p ∈ pairs) : pairs.filter (fun q => q.1 = p.1) = [p] := by
  induction pairs with
  | nil => cases hp
  | cons q pairs ih =>
    rw [List.map_cons, List.nodup_cons] at h
    obtain ⟨hfresh, hnodup⟩ := h
    have hother : ∀ r ∈ pairs, r.1 ≠ q.1 := fun r hr heq =>
      hfresh (List.mem_map.mpr ⟨r, hr, heq⟩)
    rcases List.mem_cons.mp hp with rfl | hp
    · rw [List.filter_cons_of_pos (by simp)]
      rw [List.filter_eq_nil_iff.mpr fun r hr => by simpa using hother r hr]
    · have hne : q.1 ≠ p.1 := fun heq => hother p hp heq.symm
      rw [List.filter_cons_of_neg (by simpa using hne), ih hnodup hp]

theorem member?_ofMembers {pairs : List (String × Json)} (h : (pairs.map (·.1)).Nodup)
    {p : String × Json} (hp : p ∈ pairs) :
    member? (pairs.map fun m => (Utf8.encode m.1, m.2)) (Utf8.encode p.1) = some p.2 := by
  have hsame : ∀ q : String × Json,
      decide (Utf8.encode q.1 = Utf8.encode p.1) = decide (q.1 = p.1) := by
    intro q
    rw [decide_eq_decide]
    exact ⟨Utf8.encode_injective, congrArg Utf8.encode⟩
  rw [member?, List.filter_map]
  simp only [Function.comp_def, hsame, filter_of_nodup h hp, List.map_cons, List.map_nil]

/-- Fields of an object are found by their names. -/
theorem fields?_ofMembers_of_subset {pairs : List (String × Json)} (h : (pairs.map (·.1)).Nodup)
    (chosen : List (String × Json)) (hsub : chosen ⊆ pairs) :
    (ofMembers pairs).fields? (chosen.map (·.1)) = some (chosen.map (·.2)) := by
  have hnames : (pairs.map fun m => (Utf8.encode m.1, m.2)).all
      (fun m => (Utf8.decode m.1).isOk) = true := by
    simp [List.all_map, Except.isOk, Except.toBool]
  rw [ofMembers, fields?, if_pos hnames]
  induction chosen with
  | nil => rfl
  | cons p rest ih =>
    rw [List.cons_subset] at hsub
    rw [List.map_cons, List.mapM_cons, member?_ofMembers h hsub.1, ih hsub.2]
    rfl

theorem fields?_ofMembers {pairs : List (String × Json)} (h : (pairs.map (·.1)).Nodup) :
    (ofMembers pairs).fields? (pairs.map (·.1)) = some (pairs.map (·.2)) :=
  fields?_ofMembers_of_subset h pairs (List.Subset.refl pairs)

theorem word?_integer (bits : Nat) {n : Nat} (h : n < 2 ^ bits) : (integer n).word? bits = some n := by
  have hbound : (0 : Int) ≤ n ∧ (n : Int) ≤ ((1 <<< bits : Nat) : Int) - 1 := by
    rw [Nat.one_shiftLeft]
    omega
  rw [word?, integer?, if_pos hbound]
  rfl

theorem word?_integer_of_le {bits n : Nat} (h : 2 ^ bits ≤ n) : (integer n).word? bits = none := by
  have hbound : ¬ ((0 : Int) ≤ n ∧ (n : Int) ≤ ((1 <<< bits : Nat) : Int) - 1) := by
    rw [Nat.one_shiftLeft]
    omega
  rw [word?, integer?, if_neg hbound]
  rfl

theorem isPlain_ofMembers {pairs : List (String × Json)} (h : ∀ p ∈ pairs, p.2.IsPlain) :
    (ofMembers pairs).IsPlain := by
  refine .object _ fun member hmember => ?_
  obtain ⟨p, hp, rfl⟩ := List.mem_map.mp hmember
  exact h p hp

@[simp] theorem text?_ofText (text : String) : (ofText text).text? = some text := by
  simp [ofText, text?, Except.toOption]

end Json

namespace SlotMetadata

theorem fields?_dateToJson (d : Date) :
    (dateToJson d).fields? dateFields =
      some [.integer d.year.toNat, .integer d.month.toNat, .integer d.day.toNat,
        .integer d.hour.toNat, .integer d.minute.toNat] :=
  Json.fields?_ofMembers (by decide : dateFields.Nodup)

theorem dateOfJson?_dateToJson (d : Date) : dateOfJson? (dateToJson d) = some d := by
  have hyear := Json.word?_integer 16 d.year.toNat_lt
  have hmonth := Json.word?_integer 8 d.month.toNat_lt
  have hday := Json.word?_integer 8 d.day.toNat_lt
  have hhour := Json.word?_integer 8 d.hour.toNat_lt
  have hminute := Json.word?_integer 8 d.minute.toNat_lt
  rw [dateOfJson?, fields?_dateToJson]
  simp [hyear, hmonth, hday, hhour, hminute]

theorem location?_integer (n : Int32) : location? (.integer n.toInt) = some n := by
  have hbounds : Int32.minValue.toInt ≤ n.toInt ∧ n.toInt ≤ Int32.maxValue.toInt :=
    ⟨Int32.minValue_le_toInt n, Int32.toInt_le n⟩
  rw [location?, Json.integer?, if_pos hbounds]
  simp

theorem fields?_toJson (m : SlotMetadata) :
    m.toJson.fields? fields =
      some [.integer m.slot.toNat, .integer m.version.toNat, .ofText m.description,
        dateToJson m.savedAt, .integer m.secondsPlayed.toNat, .integer m.age.toInt,
        .integer m.room.toInt, .integer m.node.toInt, .integer m.checksum.toNat,
        .integer m.length] :=
  Json.fields?_ofMembers (by decide : fields.Nodup)

theorem ofJson?_toJson (m : SlotMetadata) :
    ofJson? m.toJson = if m.length < 2 ^ 64 then some m else none := by
  have hslot := Json.word?_integer 16 m.slot.toNat_lt
  have hversion := Json.word?_integer 32 m.version.toNat_lt
  have hseconds := Json.word?_integer 32 m.secondsPlayed.toNat_lt
  have hchecksum := Json.word?_integer 32 m.checksum.toNat_lt
  rw [ofJson?, fields?_toJson]
  split
  case isTrue hlength =>
    simp [hslot, hversion, hseconds, hchecksum, dateOfJson?_dateToJson, location?_integer,
      Json.word?_integer 64 hlength]
  case isFalse hlength =>
    simp [hslot, hversion, hseconds, hchecksum, dateOfJson?_dateToJson, location?_integer,
      Json.word?_integer_of_le (not_lt.mp hlength)]

theorem isPlain_dateToJson (d : Date) : (dateToJson d).IsPlain := by
  refine Json.isPlain_ofMembers fun p hp => ?_
  have hvalue := (List.of_mem_zip hp).2
  simp only [List.mem_cons, List.not_mem_nil, or_false] at hvalue
  rcases hvalue with h | h | h | h | h <;> exact h ▸ .integer _

theorem isPlain_toJson (m : SlotMetadata) : m.toJson.IsPlain := by
  refine Json.isPlain_ofMembers fun p hp => ?_
  have hvalue := (List.of_mem_zip hp).2
  simp only [List.mem_cons, List.not_mem_nil, or_false] at hvalue
  rcases hvalue with h | h | h | h | h | h | h | h | h | h
  case inr.inr.inl => exact h ▸ .string _
  case inr.inr.inr.inl => exact h ▸ isPlain_dateToJson _
  all_goals exact h ▸ .integer _

/-- What a sidecar was written from is what is read from it. -/
theorem ofBytes?_toBytes (m : SlotMetadata) :
    ofBytes? m.toBytes = if m.length < 2 ^ 64 then some m else none := by
  rw [ofBytes?, toBytes, Json.ofBytes?_toBytes m.isPlain_toJson]
  exact m.ofJson?_toJson

end SlotMetadata

end Savegame
