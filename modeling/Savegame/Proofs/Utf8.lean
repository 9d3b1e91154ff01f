import Mathlib
import Savegame.Text.Utf8

/-!
# Text as bytes, in both directions

`Form n` lists the written forms of the scalar value `n`. The encoder of the standard library writes
them and `scalar` accepts nothing else, so that a byte string is decoded to a text exactly if it is
that text's encoding.
-/

namespace Savegame.Utf8

/-- The byte strings that are some text's encoding. -/
def IsText (bytes : Bytes) : Prop := ∃ text, encode text = bytes

/-- The written forms of a scalar value, by their length. -/
inductive Form (n : Nat) : Bytes → Prop where
  | one {a : UInt8} : n < 0x80 → a.toNat = n → Form n [a]
  | two {a b : UInt8} : 0x80 ≤ n → n < 0x800 →
      a.toNat = 0xC0 + n / 64 → b.toNat = 0x80 + n % 64 → Form n [a, b]
  | three {a b c : UInt8} : 0x800 ≤ n → n < 0x10000 →
      a.toNat = 0xE0 + n / 4096 → b.toNat = 0x80 + n / 64 % 64 → c.toNat = 0x80 + n % 64 →
      Form n [a, b, c]
  | four {a b c d : UInt8} : 0x10000 ≤ n → n < 0x110000 →
      a.toNat = 0xF0 + n / 262144 → b.toNat = 0x80 + n / 4096 % 64 →
      c.toNat = 0x80 + n / 64 % 64 → d.toNat = 0x80 + n % 64 → Form n [a, b, c, d]

theorem Form.unique {n : Nat} {xs ys : Bytes} (hx : Form n xs) (hy : Form n ys) : xs = ys := by
  cases hx <;> cases hy <;> (try omega) <;>
    simp only [List.cons.injEq, ← UInt8.toNat_inj, and_true] <;> omega

theorem toNat_byte {n : Nat} (h : n < 256) : (UInt8.ofNat n).toNat = n := by
  rw [UInt8.toNat_ofNat', Nat.mod_eq_of_lt h]

theorem form_encodeChar (c : Char) : Form c.toNat (String.utf8EncodeChar c) := by
  have hmax : c.val.toNat < 0x110000 := by
    have := c.valid
    simp only [UInt32.isValidChar, Nat.isValidChar] at this
    omega
  change Form c.val.toNat _
  simp only [String.utf8EncodeChar]
  split_ifs
  · exact .one (by omega) (toNat_byte (by omega))
  · refine .two (by omega) (by omega) ?_ ?_ <;> rw [toNat_byte (by omega)] <;> omega
  · refine .three (by omega) (by omega) ?_ ?_ ?_ <;> rw [toNat_byte (by omega)] <;> omega
  · refine .four (by omega) (by omega) ?_ ?_ ?_ ?_ <;> rw [toNat_byte (by omega)] <;> omega

theorem isTail_iff (b : UInt8) : isTail b = true ↔ 128 ≤ b.toNat ∧ b.toNat ≤ 191 := by
  simp [isTail, UInt8.le_iff_toNat_le]

theorem mayFollow_iff (a b : UInt8) :
    mayFollow a b = true ↔ 128 ≤ b.toNat ∧ b.toNat ≤ 191 ∧ (a.toNat = 224 → 160 ≤ b.toNat) ∧
      (a.toNat = 237 → b.toNat ≤ 159) ∧ (a.toNat = 240 → 144 ≤ b.toNat) ∧
      (a.toNat = 244 → b.toNat ≤ 143) := by
  have h (n : UInt8) : a = n ↔ a.toNat = n.toNat := UInt8.toNat_inj.symm
  simp only [mayFollow, h, isTail, UInt8.le_iff_toNat_le, UInt8.reduceToNat]
  split_ifs <;> simp only [Bool.and_eq_true, decide_eq_true_eq] <;> omega

theorem width_eq (a : UInt8) :
    width a = if a.toNat < 128 then 1 else if 194 ≤ a.toNat ∧ a.toNat ≤ 223 then 2
      else if 224 ≤ a.toNat ∧ a.toNat ≤ 239 then 3
      else if 240 ≤ a.toNat ∧ a.toNat ≤ 244 then 4 else 0 := by
  simp only [width, UInt8.le_iff_toNat_le, UInt8.lt_iff_toNat_lt, Bool.and_eq_true,
    decide_eq_true_eq, UInt8.reduceToNat]

theorem bounds_of_width (a : UInt8) :
    (width a = 1 → a.toNat < 128) ∧ (width a = 2 → 194 ≤ a.toNat ∧ a.toNat ≤ 223) ∧
      (width a = 3 → 224 ≤ a.toNat ∧ a.toNat ≤ 239) ∧
      (width a = 4 → 240 ≤ a.toNat ∧ a.toNat ≤ 244) := by
  rw [width_eq]
  refine ⟨?_, ?_, ?_, ?_⟩ <;> intro h <;> split_ifs at h <;> omega

/-- A scalar value is read from its written form, whatever follows. -/
theorem scalar_of_form {n index : Nat} {a : UInt8} {tail rest : Bytes} (hn : n.isValidChar)
    (h : Form n (a :: tail)) : scalar index a (tail ++ rest) = .ok (Char.ofNat n, rest) := by
  simp only [Nat.isValidChar] at hn
  cases h with
  | one hlt ha =>
    have hw : width a = 1 := by rw [width_eq, if_pos (by omega)]
    simp only [scalar, hw, List.nil_append, ha]
  | @two _ b hge hlt ha hb =>
    have hw : width a = 2 := by
      rw [width_eq, if_neg (by omega), if_pos (by omega)]
    have hb' : isTail b = true := (isTail_iff b).mpr (by omega)
    have hv : a.toNat % 32 * 64 + Utf8.tail b = n := by rw [Utf8.tail]; omega
    simp only [scalar, hw, List.cons_append, List.nil_append, hb', if_true, hv]
  | @three _ b c hge hlt ha hb hc =>
    have hw : width a = 3 := by
      rw [width_eq, if_neg (by omega), if_neg (by omega), if_pos (by omega)]
    have hb' : mayFollow a b = true := (mayFollow_iff a b).mpr (by omega)
    have hc' : isTail c = true := (isTail_iff c).mpr (by omega)
    have hv : (a.toNat % 16 * 64 + Utf8.tail b) * 64 + Utf8.tail c = n := by
      rw [Utf8.tail, Utf8.tail]; omega
    simp [scalar, hw, hb', hc', hv]
  | @four _ b c d hge hlt ha hb hc hd =>
    have hw : width a = 4 := by
      rw [width_eq, if_neg (by omega), if_neg (by omega), if_neg (by omega), if_pos (by omega)]
    have hb' : mayFollow a b = true := (mayFollow_iff a b).mpr (by omega)
    have hc' : isTail c = true := (isTail_iff c).mpr (by omega)
    have hd' : isTail d = true := (isTail_iff d).mpr (by omega)
    have hv : ((a.toNat % 8 * 64 + Utf8.tail b) * 64 + Utf8.tail c) * 64 + Utf8.tail d = n := by
      rw [Utf8.tail, Utf8.tail, Utf8.tail]; omega
    simp [scalar, hw, hb', hc', hd', hv]

theorem toNat_char {n : Nat} (h : n.isValidChar) : (Char.ofNat n).toNat = n := by
  rw [Char.toNat_ofNat, if_pos h]

theorem form_one {a : UInt8} (ha : a.toNat < 128) : Form (Char.ofNat a.toNat).toNat [a] := by
  rw [toNat_char (.inl (by omega))]
  exact .one ha rfl

theorem form_two {a b : UInt8} (ha : 194 ≤ a.toNat ∧ a.toNat ≤ 223) (hb : isTail b = true) :
    Form (Char.ofNat (a.toNat % 32 * 64 + tail b)).toNat [a, b] := by
  rw [isTail_iff] at hb
  rw [tail, toNat_char (.inl (by omega))]
  exact .two (by omega) (by omega) (by omega) (by omega)

theorem form_three {a b c : UInt8} (ha : 224 ≤ a.toNat ∧ a.toNat ≤ 239)
    (hb : mayFollow a b = true) (hc : isTail c = true) :
    Form (Char.ofNat ((a.toNat % 16 * 64 + tail b) * 64 + tail c)).toNat [a, b, c] := by
  rw [mayFollow_iff] at hb
  rw [isTail_iff] at hc
  -- the second byte keeps clear of the surrogates
  have hvalid : ((a.toNat % 16 * 64 + tail b) * 64 + tail c).isValidChar := by
    simp only [Nat.isValidChar, tail]
    omega
  rw [toNat_char hvalid, tail, tail]
  exact .three (by omega) (by omega) (by omega) (by omega) (by omega)

theorem form_four {a b c d : UInt8} (ha : 240 ≤ a.toNat ∧ a.toNat ≤ 244)
    (hb : mayFollow a b = true) (hc : isTail c = true) (hd : isTail d = true) :
    Form (Char.ofNat (((a.toNat % 8 * 64 + tail b) * 64 + tail c) * 64 + tail d)).toNat
      [a, b, c, d] := by
  rw [mayFollow_iff] at hb
  rw [isTail_iff] at hc hd
  have hvalid : (((a.toNat % 8 * 64 + tail b) * 64 + tail c) * 64 + tail d).isValidChar := by
    simp only [Nat.isValidChar, tail]
    omega
  rw [toNat_char hvalid, tail, tail, tail]
  exact .four (by omega) (by omega) (by omega) (by omega) (by omega) (by omega)

/-- What is read as a scalar value is one of its written forms. -/
theorem form_of_scalar {index : Nat} {a : UInt8} {rest after : Bytes} {c : Char}
    (h : scalar index a rest = .ok (c, after)) :
    ∃ tail, rest = tail ++ after ∧ Form c.toNat (a :: tail) := by
  obtain ⟨hone, htwo, hthree, hfour⟩ := bounds_of_width a
  unfold scalar at h
  split at h
  case h_1 hw =>
    cases h
    exact ⟨[], rfl, form_one (hone hw)⟩
  case h_2 hw =>
    split at h
    next => cases h
    next b rest =>
      split at h
      next hb =>
        cases h
        exact ⟨[b], rfl, form_two (htwo hw) hb⟩
      next => cases h
  case h_3 hw =>
    split at h
    next => cases h
    next b rest =>
      split at h
      next => cases h
      next hb =>
        rw [Bool.not_eq_true', Bool.not_eq_false] at hb
        split at h
        next => cases h
        next c rest =>
          split at h
          next hc =>
            cases h
            exact ⟨[b, c], rfl, form_three (hthree hw) hb hc⟩
          next => cases h
  case h_4 hw =>
    split at h
    next => cases h
    next b rest =>
      split at h
      next => cases h
      next hb =>
        rw [Bool.not_eq_true', Bool.not_eq_false] at hb
        split at h
        next => cases h
        next c rest =>
          split at h
          next => cases h
          next hc =>
            rw [Bool.not_eq_true', Bool.not_eq_false] at hc
            split at h
            next => cases h
            next d rest =>
              split at h
              next hd =>
                cases h
                exact ⟨[b, c, d], rfl, form_four (hfour hw) hb hc hd⟩
              next => cases h
  case h_5 => cases h

theorem decodeFrom_encode (index : Nat) (done text : List Char) :
    decodeFrom index done (text.flatMap String.utf8EncodeChar) = .ok (done.reverse ++ text) := by
  induction text generalizing index done with
  | nil => rw [List.flatMap_nil, decodeFrom, List.append_nil]
  | cons c text ih =>
    rw [List.flatMap_cons]
    have hform := form_encodeChar c
    cases hc : String.utf8EncodeChar c with
    | nil => exact absurd hc String.utf8EncodeChar_ne_nil
    | cons a tail =>
      rw [hc] at hform
      have hscalar : scalar index a (tail ++ text.flatMap String.utf8EncodeChar) =
          .ok (Char.ofNat c.toNat, text.flatMap String.utf8EncodeChar) :=
        scalar_of_form c.valid hform
      rw [List.cons_append, decodeFrom]
      split
      · rename_i hfault
        rw [hscalar] at hfault
        cases hfault
      · rename_i c' after hok
        rw [hscalar] at hok
        cases hok
        rw [ih]
        simp [Char.ofNat_toNat]

theorem encode_of_decodeFrom {index : Nat} {done text : List Char} {bytes : Bytes}
    (h : decodeFrom index done bytes = .ok text) :
    ∃ more, text = done.reverse ++ more ∧ more.flatMap String.utf8EncodeChar = bytes := by
  fun_induction decodeFrom index done bytes with
  | case1 =>
    cases h
    exact ⟨[], (List.append_nil _).symm, rfl⟩
  | case2 => cases h
  | case3 index done a rest c after hscalar ih =>
    obtain ⟨more, rfl, hmore⟩ := ih h
    obtain ⟨tail, rfl, hform⟩ := form_of_scalar hscalar
    refine ⟨c :: more, by simp, ?_⟩
    rw [List.flatMap_cons, (form_encodeChar c).unique hform, hmore, List.cons_append]

@[simp] theorem decode_encode (text : String) : decode (encode text) = .ok text := by
  simp [decode, encode, decodeFrom_encode, Except.map]

theorem encode_of_decode {bytes : Bytes} {text : String} (h : decode bytes = .ok text) :
    encode text = bytes := by
  unfold decode at h
  cases hd : decodeFrom 0 [] bytes with
  | error fault => rw [hd] at h; cases h
  | ok chars =>
    rw [hd] at h
    cases h
    obtain ⟨more, rfl, hmore⟩ := encode_of_decodeFrom hd
    rw [encode, String.toList_ofList]
    exact hmore

theorem decode_eq_ok_iff {bytes : Bytes} {text : String} :
    decode bytes = .ok text ↔ encode text = bytes :=
  ⟨encode_of_decode, fun h => h ▸ decode_encode text⟩

theorem not_isText_of_decode {bytes : Bytes} {fault : Fault} (h : decode bytes = .error fault) :
    ¬ IsText bytes := by
  rintro ⟨text, rfl⟩
  rw [decode_encode] at h
  cases h

instance (bytes : Bytes) : Decidable (IsText bytes) :=
  match h : decode bytes with
  | .ok text => .isTrue ⟨text, encode_of_decode h⟩
  | .error _ => .isFalse (not_isText_of_decode h)

@[simp] theorem length_encode (text : String) : (encode text).length = text.utf8ByteSize := by
  rw [← String.size_toByteArray, ← String.utf8Encode_toList, List.utf8Encode]
  simp [encode]

end Savegame.Utf8
