import Savegame.Proofs.RoundTrip

/-!
# Saves that did not come out in full

A walk over the fields of a record can stop early, and a sink can run full at any byte. What is left
behind is then the front of a save, and reading it runs out of input: every byte that is missing
would have been asked for before anything else can be wrong.
-/

namespace Savegame

namespace Emission

variable {e first second : Emission} {bytes : Bytes}

/-- The bytes that are left of an emission that does not come out in full. It may stop by itself,
and then after all of its bytes, or be cut off anywhere. -/
def Leaves (e : Emission) (bytes : Bytes) : Prop :=
  bytes <+: e.bytes ∧ (e.stop = none → bytes.length < e.bytes.length)

theorem Leaves.of_andThen (h : (first.andThen second).Leaves bytes) :
    first.Leaves bytes ∨
      first.stop = none ∧ ∃ left, bytes = first.bytes ++ left ∧ second.Leaves left := by
  unfold andThen at h
  cases hstop : first.stop with
  | some e =>
    rw [hstop] at h
    exact .inl h
  | none =>
    rw [hstop] at h
    obtain ⟨⟨rest, hrest⟩, hshort⟩ := h
    rcases List.append_eq_append_iff.mp hrest with ⟨gap, hfirst, -⟩ | ⟨left, hbytes, hsecond⟩
    · cases gap with
      | nil =>
        -- The first part is all there, and nothing of the second.
        rw [List.append_nil] at hfirst
        refine .inr ⟨rfl, [], by rw [hfirst, List.append_nil], List.nil_prefix, fun hnone => ?_⟩
        have hlt := hshort hnone
        rw [List.length_append, hfirst] at hlt
        exact Nat.lt_of_add_lt_add_left (n := bytes.length) hlt
      | cons b gap =>
        refine .inl ⟨⟨b :: gap, hfirst.symm⟩, fun _ => ?_⟩
        rw [hfirst, List.length_append, List.length_cons]
        omega
    · subst hbytes
      refine .inr ⟨rfl, left, rfl, ⟨rest, hsecond.symm⟩, fun hnone => ?_⟩
      have hlt := hshort hnone
      rw [List.length_append, List.length_append] at hlt
      exact Nat.lt_of_add_lt_add_left hlt

theorem not_leaves_nil : ¬ Leaves ⟨[], none⟩ bytes :=
  fun h => absurd (h.2 rfl) (Nat.not_lt_zero _)

/-- A sink that takes an emission without failing has all of it. -/
theorem into_of_stop {room : Nat} (h : (e.into room).stop = none) : e.into room = e := by
  unfold into at h ⊢
  split
  case isTrue => rfl
  case isFalse hroom =>
    rw [if_neg hroom] at h
    cases h

theorem leaves_into {room : Nat} (h : (e.into room).stop ≠ none) :
    e.Leaves (e.into room).bytes := by
  unfold into at h ⊢
  split
  case isTrue hroom =>
    rw [if_pos hroom] at h
    exact ⟨List.prefix_rfl, fun hnone => absurd hnone h⟩
  case isFalse hroom =>
    refine ⟨List.take_prefix room e.bytes, fun _ => ?_⟩
    rw [List.length_take]
    omega

end Emission

theorem Reading.answer_andThen_of_error {α β : Type} {r : Reading α} {error : SaveError}
    (h : r.answer = .error error) (next : α → Bytes → Reading β) :
    (r.andThen next).answer = .error error := by
  unfold andThen
  rw [h]

namespace Kind

variable {f : Format} {k : Kind} {bytes : Bytes}

/-- Texts, and what takes up a fixed number of bytes. -/
def IsPlain (k : Kind) : Prop :=
  k = text ∨ k.isFixed = true

theorem fits_of_stop (hk : k.IsPlain) {x : k.Value} (h : (k.put f x).stop = none) :
    k.Fits f x := by
  rcases hk with rfl | hfixed
  · by_contra hlong
    have hput : (putText f x).stop = none := h
    rw [put_text_of_lt (not_le.mp hlong)] at hput
    cases hput
  · exact fits_of_isFixed hfixed x

theorem answer_text_of_leaves (hlimit : f.limit < UInt32.size) {s : String}
    (h : (putText f s).Leaves bytes) :
    (readText f bytes).answer = .error (.stream .endOfInput) := by
  obtain ⟨hfront, hshort⟩ := h
  by_cases hfits : s.utf8ByteSize ≤ f.limit
  · rw [put_text hfits] at hfront hshort
    by_cases hword : bytes.length < 4
    · rw [readText_of_lt hword]
    · have hle : 4 ≤ bytes.length := not_lt.mp hword
      -- The length is there, so it is the bytes of the text that are missing.
      have hlength : (bytes.word 0).toNat = s.utf8ByteSize := by
        have hsize : s.utf8ByteSize % 256 ^ 4 = s.utf8ByteSize :=
          Nat.mod_eq_of_lt (by rw [UInt32.size] at hlimit; omega)
        have htake : bytes.take 4 = Bytes.ofNat 4 s.utf8ByteSize := by
          rw [List.prefix_iff_eq_take.mp hfront, List.take_take, Nat.min_eq_left hle,
            List.take_left' (Bytes.length_ofNat 4 _)]
        rw [Bytes.word, List.drop_zero, htake, Bytes.toUInt32, Bytes.toNat_ofNat, hsize]
        exact Nat.mod_eq_of_lt (by omega)
      have hlt := hshort rfl
      rw [List.length_append, Bytes.length_ofNat, Utf8.length_encode] at hlt
      rw [readText_of_le hle hlength, if_neg (not_lt.mpr hfits), if_pos hlt]
  · rw [put_text_of_lt (not_le.mp hfits)] at hfront
    obtain rfl := List.prefix_nil.mp hfront
    rw [readText_of_lt (by simp)]

theorem answer_of_leaves (hlimit : f.limit < UInt32.size) (hk : k.IsPlain) {x : k.Value}
    (h : (k.put f x).Leaves bytes) : (k.read f bytes).answer = .error (.stream .endOfInput) := by
  rcases hk with rfl | hfixed
  · exact answer_text_of_leaves hlimit h
  · apply answer_of_lt hfixed
    have hlt := h.2 (stop_put (fits_of_isFixed hfixed x))
    rwa [length_put hfixed] at hlt

end Kind

theorem Layout.answer_of_leaves {f : Format} (hlimit : f.limit < UInt32.size) {layout : Layout}
    (hlayout : ∀ k ∈ layout, k.IsPlain) {xs : layout.Values} {bytes : Bytes}
    (h : (layout.put f xs).Leaves bytes) :
    (layout.read f bytes).answer = .error (.stream .endOfInput) := by
  induction layout generalizing bytes with
  | nil => exact absurd h Emission.not_leaves_nil
  | cons k rest ih =>
    obtain ⟨x, xs⟩ := xs
    have hk := hlayout k List.mem_cons_self
    rcases h.of_andThen with hfirst | ⟨hstop, left, rfl, hleft⟩
    · exact Reading.answer_andThen_of_error (Kind.answer_of_leaves hlimit hk hfirst) _
    · have hrest := ih (fun k hmem => hlayout k (List.mem_cons_of_mem _ hmem)) hleft
      rw [read, Kind.read_put hlimit (Kind.fits_of_stop hk hstop), Reading.andThen]
      simp only [Reading.map, hrest, Except.map]

namespace Record

variable {f : Format} {r : Record} {bytes : Bytes}

theorem encode_eq_andThen (h : f.version ≤ newest) :
    r.encode f = Emission.andThen ⟨Bytes.ofUInt32 f.version, none⟩
      ((layout.put f r.values).andThen (r.putStamp f)) := by
  have hnewer : ¬ newest < f.version := UInt32.not_lt.mpr h
  rw [encode, if_neg hnewer, putVersion, if_neg hnewer]
  rfl

theorem answer_readStamp_of_leaves (hlimit : f.limit < UInt32.size)
    (h : (r.putStamp f).Leaves bytes) :
    stampVersion ≤ f.version ∧
      (stampLayout.read f bytes).answer = .error (.stream .endOfInput) := by
  unfold putStamp at h
  split at h
  case isTrue hstamp =>
    refine ⟨hstamp, Layout.answer_of_leaves hlimit ?_ h⟩
    simp [stampLayout, Kind.IsPlain, Kind.isFixed]
  case isFalse => exact absurd h Emission.not_leaves_nil

/-- A record cannot be read from what is left of it. -/
theorem answer_of_leaves (hversion : f.version ≤ newest) (hlimit : f.limit < UInt32.size)
    (h : (r.encode f).Leaves bytes) :
    (read f.limit bytes).answer = .error (.stream .endOfInput) := by
  rw [encode_eq_andThen hversion] at h
  rcases h.of_andThen with hword | ⟨-, left, rfl, hleft⟩
  · apply answer_read_of_lt_word
    have hlt := hword.2 rfl
    rwa [Bytes.length_ofUInt32] at hlt
  · rw [read, readVersion_append hversion, Reading.andThen]
    dsimp only
    rcases hleft.of_andThen with hbody | ⟨-, rest, rfl, hrest⟩
    · apply Reading.answer_andThen_of_error
      refine Layout.answer_of_leaves hlimit (fun k hk => ?_) hbody
      exact .inr (List.all_eq_true.mp isFixed_layout k hk)
    · have hlayout : layout.Fits f r.values := Layout.fits_of_isFixed isFixed_layout _
      obtain ⟨hstamp, hanswer⟩ := answer_readStamp_of_leaves hlimit hrest
      have hread : layout.read ⟨f.version, f.limit⟩ ((layout.put f r.values).bytes ++ rest) =
          ⟨.ok (layout.settle f r.values), (layout.put f r.values).bytes.length, rest⟩ :=
        Layout.read_put hlimit hlayout rest
      rw [hread, Reading.andThen]
      simp only [if_pos hstamp, Reading.map, hanswer, Except.map]

theorem decode_of_answer {limit : Nat} {e : SaveError} (h : (read limit bytes).answer = .error e) :
    decode limit bytes = .error e := by
  rw [decode_eq, h]
  rfl

theorem decode_of_leaves (hlimit : f.limit < UInt32.size) (h : (r.encode f).Leaves bytes) :
    decode f.limit bytes = .error (.stream .endOfInput) := by
  apply decode_of_answer
  by_cases hnewer : newest < f.version
  · -- A version that is too new is refused before anything is put out.
    have hfront := h.1
    rw [encode, if_pos hnewer] at hfront
    obtain rfl := List.prefix_nil.mp hfront
    exact answer_read_of_lt_word (by simp)
  · exact answer_of_leaves (UInt32.not_lt.mp hnewer) hlimit h

/-- Puts a record out into a sink with room for `room` bytes: the answer, and what the sink holds
then. -/
def encodeInto (f : Format) (room : Nat) (r : Record) : Except SaveError Nat × Bytes :=
  let e := (r.encode f).into room
  (e.answer e.bytes.length, e.bytes)

theorem encodeInto_of_ok {room count : Nat} (h : (r.encodeInto f room).1 = .ok count) :
    (r.encode f).stop = none ∧ r.encodeInto f room =
      (.ok (r.encode f).bytes.length, (r.encode f).bytes) := by
  have hstop : ((r.encode f).into room).stop = none := (Emission.answer_eq_ok_iff.mp h).1
  have hsame := Emission.into_of_stop hstop
  rw [hsame] at hstop
  refine ⟨hstop, ?_⟩
  simp only [encodeInto, hsame, Emission.answer_of_none hstop]

theorem leaves_of_encodeInto {room : Nat} {e : SaveError} (h : (r.encodeInto f room).1 = .error e) :
    (r.encode f).Leaves (r.encodeInto f room).2 := by
  apply Emission.leaves_into
  intro hstop
  have hstopped := Emission.answer_eq_error_iff.mp h
  rw [hstop] at hstopped
  cases hstopped

/-- A record that is put out into a sink with room for any number of bytes. If it is said to have
come out, the sink holds all of it and the answer is its length. Otherwise, whatever the reason, what
the sink holds is refused because it ends too early, and so is every front of a complete save. -/
theorem decode_torn (r : Record) (version : UInt32) (limit room : Nat)
    (hlimit : limit < UInt32.size) :
    let whole := r.encode ⟨version, limit⟩
    let written := r.encodeInto ⟨version, limit⟩ room
    (∀ count, written.1 = .ok count →
      whole.stop = none ∧ written.2 = whole.bytes ∧ count = whole.bytes.length) ∧
    (∀ e, written.1 = .error e → decode limit written.2 = .error (.stream .endOfInput)) ∧
    (whole.stop = none → ∀ front, front <+: whole.bytes → front ≠ whole.bytes →
      decode limit front = .error (.stream .endOfInput)) := by
  intro whole written
  refine ⟨fun count hcount => ?_, fun e he => ?_, fun _ front hfront hne => ?_⟩
  · obtain ⟨hstop, hwritten⟩ := encodeInto_of_ok hcount
    have hsame : written.1 = .ok whole.bytes.length := congrArg Prod.fst hwritten
    rw [hcount, Except.ok.injEq] at hsame
    exact ⟨hstop, congrArg Prod.snd hwritten, hsame⟩
  · exact decode_of_leaves (f := ⟨version, limit⟩) hlimit (leaves_of_encodeInto he)
  · refine decode_of_leaves (f := ⟨version, limit⟩) hlimit ⟨hfront, fun _ => ?_⟩
    apply lt_of_le_of_ne hfront.length_le
    exact fun hlength => hne (hfront.eq_of_length hlength)

/-- A sink that is full inside the variables, a description that is too long, and a version that is
too new. -/
theorem decode_torn_temple :
    let r : Record := { newGame with description := "Temple" }
    (256 < UInt32.size ∧ 3 < UInt32.size) ∧
      (r.encodeInto ⟨148, 256⟩ 99).1 = .error (.stream .sinkFull) ∧
      decode 256 (r.encodeInto ⟨148, 256⟩ 99).2 = .error (.stream .endOfInput) ∧
      (r.encodeInto ⟨149, 3⟩ 9999).1 = .error (.descriptionTooLong 6 3) ∧
      decode 3 (r.encodeInto ⟨149, 3⟩ 9999).2 = .error (.stream .endOfInput) ∧
      (r.encodeInto ⟨150, 256⟩ 99).1 = .error (.versionTooRecent 150 149) ∧
      decode 256 (r.encodeInto ⟨150, 256⟩ 99).2 = .error (.stream .endOfInput) := by
  intro r
  have hcut : (r.encodeInto ⟨148, 256⟩ 99).1 = .error (.stream .sinkFull) := by decide +kernel
  have hlong : (r.encodeInto ⟨149, 3⟩ 9999).1 = .error (.descriptionTooLong 6 3) := by
    decide +kernel
  have hnewer : (r.encodeInto ⟨150, 256⟩ 99).1 = .error (.versionTooRecent 150 149) := rfl
  obtain ⟨-, hfirst, -⟩ := decode_torn r 148 256 99 (by decide)
  obtain ⟨-, hsecond, -⟩ := decode_torn r 149 3 9999 (by decide)
  obtain ⟨-, hthird, -⟩ := decode_torn r 150 256 99 (by decide)
  exact ⟨by decide, hcut, hfirst _ hcut, hlong, hsecond _ hlong, hnewer, hthird _ hnewer⟩

end Record

end Savegame
