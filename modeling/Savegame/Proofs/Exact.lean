import Savegame.Proofs.Offset

/-!
# Fields read and put out again

What the reading of a text answers, by the bytes it is given. Texts, and fields of fixed kinds
without edits, come out again as the bytes they were read from.
-/

namespace Savegame

theorem Kind.isLocal_read (f : Format) (k : Kind) : Reading.IsLocal (k.read f) := by
  induction k with
  | text =>
    exact ((Reading.isLocal_number 4).check _).andThen fun length =>
      (Reading.isLocal_take length).check _
  | block size => exact Reading.isLocal_take size
  | row count item ih =>
    change Reading.IsLocal (readRow (item.read f) count)
    induction count with
    | zero => exact Reading.isLocal_done _
    | succ count ihRow => exact ihRow.andThen fun done => ih.map _
  | _ => exact (Reading.isLocal_number _).map _

theorem Layout.isLocal_read (f : Format) (layout : Layout) : Reading.IsLocal (layout.read f) := by
  induction layout with
  | nil => exact Reading.isLocal_done _
  | cons k rest ih => exact (Kind.isLocal_read f k).andThen fun x => ih.map _

namespace Kind

open Bytes (Edit)

variable {f : Format}

theorem readText_of_lt {bytes : Bytes} (h : bytes.length < 4) :
    readText f bytes = ⟨.error (.stream .endOfInput), 0, bytes⟩ := by
  rw [readText, Reading.number_of_lt h]
  rfl

/-- What is read once the length of a text is there. -/
theorem readText_of_le {bytes : Bytes} (h : 4 ≤ bytes.length) {length : Nat}
    (hlength : (bytes.word 0).toNat = length) :
    readText f bytes =
      if f.limit < length then ⟨.error (.descriptionTooLong length f.limit), 4, bytes.drop 4⟩
      else if bytes.length < 4 + length then
        ⟨.error (.stream .endOfInput), 4, bytes.drop 4⟩
      else
        ⟨(Utf8.decode ((bytes.drop 4).take length)).mapError (.corrupt ∘ .description),
          4 + length, bytes.drop (4 + length)⟩ := by
  have hnumber : Reading.number 4 bytes = ⟨.ok length, 4, bytes.drop 4⟩ := by
    have hread := read_word_of_le id h
    rw [hlength] at hread
    rw [Reading.number_of_le h] at hread ⊢
    exact hread
  rw [readText, hnumber]
  by_cases hlimit : f.limit < length
  · have hcheck : checkLength f length = .error (.descriptionTooLong length f.limit) :=
      if_pos hlimit
    simp only [Reading.check, Except.bind, bind, hcheck, Reading.andThen, if_pos hlimit]
  · have hcheck : checkLength f length = .ok () := if_neg hlimit
    simp only [Reading.check, Except.bind, bind, pure, Except.pure, hcheck, Reading.andThen,
      if_neg hlimit]
    by_cases hshort : bytes.length < 4 + length
    · rw [if_pos hshort, Reading.take_of_lt (by rw [List.length_drop]; omega)]
      rfl
    · rw [if_neg hshort, Reading.take_of_le (by rw [List.length_drop]; omega)]
      simp only [List.drop_drop]
      cases Utf8.decode ((bytes.drop 4).take length) <;> rfl

theorem utf8ByteSize_of_decode {bytes : Bytes} {length : Nat} {s : String}
    (hlength : 4 + length ≤ bytes.length)
    (hs : Utf8.decode ((bytes.drop 4).take length) = .ok s) : s.utf8ByteSize = length := by
  rw [← Utf8.length_encode, Utf8.encode_of_decode hs, List.length_take_of_le]
  rw [List.length_drop]
  omega

/-- What was in front of a text that was read. -/
theorem of_readText {bytes : Bytes} {s : String} {n : Nat} {rest : Bytes}
    (h : readText f bytes = ⟨.ok s, n, rest⟩) :
    let length := (bytes.word 0).toNat
    4 + length ≤ bytes.length ∧ s.utf8ByteSize = length ∧ length ≤ f.limit ∧
      Utf8.decode ((bytes.drop 4).take length) = .ok s ∧ n = 4 + length ∧
      rest = bytes.drop (4 + length) := by
  intro length
  by_cases hle : 4 ≤ bytes.length
  · rw [readText_of_le hle rfl] at h
    split_ifs at h with hlimit hshort <;> try cases h
    cases hs : Utf8.decode ((bytes.drop 4).take length) with
    | error fault =>
      rw [hs] at h
      cases h
    | ok contents =>
      rw [hs] at h
      cases h
      have hsize := utf8ByteSize_of_decode (not_lt.mp hshort) hs
      exact ⟨not_lt.mp hshort, hsize, not_lt.mp hlimit, rfl, rfl, rfl⟩
  · rw [readText_of_lt (by omega)] at h
    cases h

theorem put_text_of_read {bytes : Bytes} {s : String} {n : Nat} {rest : Bytes}
    (h : readText f bytes = ⟨.ok s, n, rest⟩) : putText f s = ⟨bytes.take n, none⟩ := by
  obtain ⟨hlength, hsize, hlimit, hs, rfl, -⟩ := of_readText h
  have hword : Bytes.ofNat 4 (bytes.word 0).toNat = bytes.take 4 := bytes_word (by omega)
  rw [put_text (by omega), hsize, hword, Utf8.encode_of_decode hs, ← List.take_add]

/-- Whether putting out again a field that was read never changes its bytes. -/
def IsExact (f : Format) (k : Kind) : Prop :=
  k = text ∨ k.isFixed = true ∧ k.edits f = []

theorem put_of_read {k : Kind} (hk : k.IsExact f) {bytes : Bytes} {x : k.Value} {n : Nat}
    {rest : Bytes} (h : k.read f bytes = ⟨.ok x, n, rest⟩) :
    k.put f x = ⟨bytes.take n, none⟩ := by
  rcases hk with rfl | ⟨hfixed, hedits⟩
  · exact put_text_of_read h
  · by_cases hle : k.size ≤ bytes.length
    · rw [read_of_le hfixed hle] at h
      cases h
      rw [put_ofBytes hfixed hle, hedits]
      rfl
    · have hanswer := answer_of_lt (f := f) hfixed (not_le.mp hle)
      rw [h] at hanswer
      cases hanswer

end Kind

theorem Layout.put_of_read {f : Format} {layout : Layout} (hlayout : ∀ k ∈ layout, k.IsExact f)
    {bytes : Bytes} {xs : layout.Values} {n : Nat} {rest : Bytes}
    (h : layout.read f bytes = ⟨.ok xs, n, rest⟩) : layout.put f xs = ⟨bytes.take n, none⟩ := by
  induction layout generalizing bytes n rest with
  | nil =>
    cases h
    rfl
  | cons k kinds ih =>
    obtain ⟨x, xs⟩ := xs
    rw [read] at h
    cases hk : k.read f bytes with
    | mk answer moved left =>
      cases answer with
      | error e =>
        rw [hk] at h
        cases h
      | ok y =>
        obtain ⟨hle, rfl, -⟩ := Kind.isLocal_read f k hk
        cases hkinds : read f kinds (bytes.drop moved) with
        | mk answer' moved' left' =>
          cases answer' with
          | error e =>
            simp only [hk, Reading.andThen, hkinds, Reading.map] at h
            cases h
          | ok ys =>
            simp only [hk, Reading.andThen, hkinds, Reading.map, Except.map] at h
            cases h
            have hx := Kind.put_of_read (hlayout k List.mem_cons_self) hk
            have hxs := ih (fun k hk => hlayout k (List.mem_cons_of_mem _ hk)) hkinds
            rw [put, hx, hxs, Emission.andThen_eq, ← List.take_add]

end Savegame
