import Savegame.Proofs.Canonical

/-!
# Readings under other limits

The limit on descriptions decides whether a record is read, and nothing else: what was read under
one limit is read in the same way under any other that its description keeps to.
-/

namespace Savegame

namespace Reading

variable {α β : Type} {r : Reading α} {y : β} {n : Nat} {rest : Bytes}

theorem exists_of_andThen {next : α → Bytes → Reading β} (h : r.andThen next = ⟨.ok y, n, rest⟩) :
    ∃ x m left k, r = ⟨.ok x, m, left⟩ ∧ next x left = ⟨.ok y, k, rest⟩ ∧ m + k = n := by
  obtain ⟨answer, m, left⟩ := r
  cases answer with
  | error e => cases h
  | ok x =>
    rw [andThen, mk.injEq] at h
    obtain ⟨hanswer, hmoved, hrest⟩ := h
    refine ⟨x, m, left, (next x left).moved, rfl, ?_, hmoved⟩
    rw [eq_of_answer hanswer, mk.injEq]
    exact ⟨rfl, rfl, hrest⟩

theorem exists_of_map {f : α → β} (h : r.map f = ⟨.ok y, n, rest⟩) :
    ∃ x, r = ⟨.ok x, n, rest⟩ ∧ f x = y := by
  obtain ⟨answer, m, left⟩ := r
  cases answer with
  | error e => cases h
  | ok x =>
    cases h
    exact ⟨x, rfl, rfl⟩

end Reading

variable {version : UInt32} {limit other n : Nat} {bytes rest : Bytes}

namespace Kind

theorem read_of_isFixed {k : Kind} (hk : k.isFixed = true) (version : UInt32) (limit other : Nat) :
    k.read ⟨version, limit⟩ = k.read ⟨version, other⟩ := by
  induction k with
  | text => cases hk
  | row count item ih =>
    funext bytes
    rw [read, read, ih hk]
  | _ => rfl

theorem put_of_isFixed {k : Kind} (hk : k.isFixed = true) (version : UInt32) (limit other : Nat) :
    k.put ⟨version, limit⟩ = k.put ⟨version, other⟩ := by
  induction k with
  | text => cases hk
  | row count item ih =>
    funext xs
    rw [put, put, ih hk]
  | _ => rfl

theorem readText_of_fits {s : String} (h : readText ⟨version, limit⟩ bytes = ⟨.ok s, n, rest⟩)
    (hfits : s.utf8ByteSize ≤ other) : readText ⟨version, other⟩ bytes = ⟨.ok s, n, rest⟩ := by
  obtain ⟨hlength, hsize, -, hs, rfl, rfl⟩ := of_readText h
  rw [readText_of_le (by omega) rfl, if_neg (not_lt.mpr (hsize ▸ hfits)),
    if_neg (not_lt.mpr hlength), hs]
  rfl

theorem put_of_fits {k : Kind} (hk : k = .text ∨ k.isFixed = true) {x : k.Value}
    (h : k.Fits ⟨version, limit⟩ x) (hother : k.Fits ⟨version, other⟩ x) :
    k.put ⟨version, limit⟩ x = k.put ⟨version, other⟩ x := by
  rcases hk with rfl | hfixed
  · exact (put_text h).trans (put_text hother).symm
  · rw [put_of_isFixed hfixed version limit other]

/-- A text that was read is no longer than its length word can say. -/
theorem fits_of_readText {s : String} (h : readText ⟨version, limit⟩ bytes = ⟨.ok s, n, rest⟩) :
    s.utf8ByteSize ≤ UInt32.size - 1 := by
  obtain ⟨-, hsize, -⟩ := of_readText h
  rw [hsize]
  exact Nat.le_sub_one_of_lt (UInt32.toNat_lt_size _)

theorem fits_of_read {k : Kind} (hk : k = .text ∨ k.isFixed = true) {x : k.Value}
    (h : k.read ⟨version, limit⟩ bytes = ⟨.ok x, n, rest⟩) :
    k.Fits ⟨version, UInt32.size - 1⟩ x := by
  rcases hk with rfl | hfixed
  · exact fits_of_readText h
  · exact fits_of_isFixed hfixed x

theorem read_of_fits {k : Kind} (hk : k = .text ∨ k.isFixed = true) {x : k.Value}
    (h : k.read ⟨version, limit⟩ bytes = ⟨.ok x, n, rest⟩) (hfits : k.Fits ⟨version, other⟩ x) :
    k.read ⟨version, other⟩ bytes = ⟨.ok x, n, rest⟩ := by
  rcases hk with rfl | hfixed
  · exact readText_of_fits h hfits
  · rw [read_of_isFixed hfixed version other limit]
    exact h

end Kind

namespace Layout

theorem read_of_isFixed {layout : Layout} (hlayout : layout.isFixed = true) (version : UInt32)
    (limit other : Nat) : layout.read ⟨version, limit⟩ = layout.read ⟨version, other⟩ := by
  induction layout with
  | nil => rfl
  | cons k kinds ih =>
    obtain ⟨hk, hkinds⟩ := isFixed_cons hlayout
    funext bytes
    rw [read, read, Kind.read_of_isFixed hk version limit other, ih hkinds]

theorem put_of_isFixed {layout : Layout} (hlayout : layout.isFixed = true) (version : UInt32)
    (limit other : Nat) : layout.put ⟨version, limit⟩ = layout.put ⟨version, other⟩ := by
  induction layout with
  | nil => rfl
  | cons k kinds ih =>
    obtain ⟨hk, hkinds⟩ := isFixed_cons hlayout
    funext xs
    obtain ⟨x, xs⟩ := xs
    rw [put, put, Kind.put_of_isFixed hk version limit other, ih hkinds]

theorem read_of_fits {layout : Layout} (hlayout : ∀ k ∈ layout, k = .text ∨ k.isFixed = true)
    {xs : layout.Values} (h : layout.read ⟨version, limit⟩ bytes = ⟨.ok xs, n, rest⟩)
    (hfits : layout.Fits ⟨version, other⟩ xs) :
    layout.read ⟨version, other⟩ bytes = ⟨.ok xs, n, rest⟩ := by
  induction layout generalizing bytes n with
  | nil => exact h
  | cons k kinds ih =>
    obtain ⟨hk, hkinds⟩ := List.forall_mem_cons.mp hlayout
    obtain ⟨x, m, left, moved, hx, hnext, rfl⟩ := Reading.exists_of_andThen h
    obtain ⟨ys, hys, rfl⟩ := Reading.exists_of_map hnext
    rw [read, Kind.read_of_fits hk hx hfits.1, Reading.andThen]
    dsimp only
    rw [ih hkinds hys hfits.2]
    rfl

theorem put_of_fits {layout : Layout} (hlayout : ∀ k ∈ layout, k = .text ∨ k.isFixed = true)
    {xs : layout.Values} (h : layout.Fits ⟨version, limit⟩ xs)
    (hother : layout.Fits ⟨version, other⟩ xs) :
    layout.put ⟨version, limit⟩ xs = layout.put ⟨version, other⟩ xs := by
  induction layout with
  | nil => rfl
  | cons k kinds ih =>
    obtain ⟨hk, hkinds⟩ := List.forall_mem_cons.mp hlayout
    obtain ⟨x, xs⟩ := xs
    rw [put, put, Kind.put_of_fits hk h.1 hother.1, ih hkinds h.2 hother.2]

theorem fits_of_read {layout : Layout} (hlayout : ∀ k ∈ layout, k = .text ∨ k.isFixed = true)
    {xs : layout.Values} (h : layout.read ⟨version, limit⟩ bytes = ⟨.ok xs, n, rest⟩) :
    layout.Fits ⟨version, UInt32.size - 1⟩ xs := by
  induction layout generalizing bytes n with
  | nil => trivial
  | cons k kinds ih =>
    obtain ⟨hk, hkinds⟩ := List.forall_mem_cons.mp hlayout
    obtain ⟨x, m, left, moved, hx, hnext, rfl⟩ := Reading.exists_of_andThen h
    obtain ⟨ys, hys, rfl⟩ := Reading.exists_of_map hnext
    exact ⟨Kind.fits_of_read hk hx, ih hkinds hys⟩

end Layout

namespace Record

theorem kinds_stampLayout : ∀ k ∈ stampLayout, k = .text ∨ k.isFixed = true := by
  simp [stampLayout, Kind.isFixed]

theorem fits_stamp_of_withStamp {r : Record} {stamp : Layout.Values stampLayout}
    (h : (r.withStamp stamp).description.utf8ByteSize ≤ other) :
    stampLayout.Fits ⟨version, other⟩ stamp :=
  ⟨trivial, trivial, trivial, trivial, trivial, h, trivial, trivial⟩

theorem read_of_fits {r : Record} (h : (read limit bytes).answer = .ok r)
    (hfits : r.description.utf8ByteSize ≤ other) : read other bytes = read limit bytes := by
  obtain ⟨version, _, left, _, hversion, hfields, -⟩ :=
    Reading.exists_of_andThen (Reading.eq_of_answer h)
  obtain ⟨values, _, after, _, hvalues, hstamp, -⟩ := Reading.exists_of_andThen hfields
  have hlayout := Layout.read_of_isFixed isFixed_layout version other limit
  simp only [read, hversion, Reading.andThen, hlayout, hvalues]
  by_cases hnew : stampVersion ≤ version
  · simp only [if_pos hnew] at hstamp ⊢
    obtain ⟨stamp, hread, rfl⟩ := Reading.exists_of_map hstamp
    simp only [hread, Layout.read_of_fits kinds_stampLayout hread (fits_stamp_of_withStamp hfits)]
  · simp only [if_neg hnew]

/-- A description that fits is put out in the same way under any limit. -/
theorem encode_of_fits {r : Record} (hversion : version ≤ newest)
    (h : r.description.utf8ByteSize ≤ limit) (hother : r.description.utf8ByteSize ≤ other) :
    r.encode ⟨version, limit⟩ = r.encode ⟨version, other⟩ := by
  have hfits : r.Fits ⟨version, limit⟩ := fun _ => h
  have hfits' : r.Fits ⟨version, other⟩ := fun _ => hother
  have hstamp : r.putStamp ⟨version, limit⟩ = r.putStamp ⟨version, other⟩ := by
    rw [putStamp, putStamp]
    split
    case isTrue =>
      exact Layout.put_of_fits kinds_stampLayout (fits_stamp h) (fits_stamp hother)
    case isFalse => rfl
  rw [encode_eq hversion (stop_putStamp hfits), encode_eq hversion (stop_putStamp hfits'),
    Layout.put_of_isFixed isFixed_layout version limit other, hstamp]

theorem description_lt_of_read {r : Record} (h : (read limit bytes).answer = .ok r) :
    r.description.utf8ByteSize < UInt32.size := by
  obtain ⟨version, _, left, _, -, hfields, -⟩ :=
    Reading.exists_of_andThen (Reading.eq_of_answer h)
  obtain ⟨values, _, after, _, -, hstamp, -⟩ := Reading.exists_of_andThen hfields
  by_cases hnew : stampVersion ≤ version
  · simp only [if_pos hnew] at hstamp
    obtain ⟨stamp, hread, rfl⟩ := Reading.exists_of_map hstamp
    obtain ⟨-, -, -, -, -, hfits, -⟩ := Layout.fits_of_read kinds_stampLayout hread
    exact Nat.lt_of_le_sub_one (by decide) hfits
  · simp only [if_neg hnew] at hstamp
    cases hstamp
    exact Nat.two_pow_pos 32

/-- A record is read under the smaller of two limits if it is under the larger and its description
keeps to the smaller. -/
theorem decode_iff_of_le {small large : Nat} (h : small ≤ large) {d : Decoded} :
    decode small bytes = .ok d ↔
      decode large bytes = .ok d ∧ d.record.description.utf8ByteSize ≤ small := by
  simp only [decode_eq_ok_iff]
  constructor
  · rintro ⟨r, hr, hsound, rfl⟩
    have hfits := description_le_of_read hr
    have hsame := read_of_fits hr (hfits.trans h)
    rw [hsame]
    exact ⟨⟨r, hr, hsound, rfl⟩, hfits⟩
  · rintro ⟨⟨r, hr, hsound, rfl⟩, hfits⟩
    have hsame := read_of_fits hr hfits
    rw [hsame]
    exact ⟨r, hr, hsound, rfl⟩

theorem description_lt_of_decode {d : Decoded} (h : decode limit bytes = .ok d) :
    d.record.description.utf8ByteSize < UInt32.size := by
  obtain ⟨r, hr, -, hd⟩ := decode_eq_ok_iff.mp h
  have hlt := description_lt_of_read hr
  rw [← hd]
  exact hlt

/-- The save of a sound record is loaded under any limit that its description keeps to. -/
theorem exists_decode_encode {r : Record} (hsound : r.IsSound)
    (hlength : r.description.utf8ByteSize < UInt32.size) (hversion : version ≤ newest)
    (h : r.description.utf8ByteSize ≤ limit) :
    ∃ d, decode limit (r.encode ⟨version, limit⟩).bytes = .ok d ∧ d.record = r.kept version := by
  have hfits : r.Fits ⟨version, r.description.utf8ByteSize⟩ := fun _ => Nat.le_refl _
  have hdecode := decode_encode_append hsound hversion hlength hfits []
  rw [List.append_nil, ← encode_of_fits hversion h (Nat.le_refl _)] at hdecode
  exact ⟨_, ((decode_iff_of_le h).mp hdecode).1, rfl⟩

/-- Two limits agree on whether a record is read, unless its description is between the two. -/
theorem isOk_decode_iff (a b : Nat) (bytes : Bytes) :
    ((∃ d, decode a bytes = .ok d) ↔ ∃ d, decode b bytes = .ok d) ↔
      ∀ d, decode (max a b) bytes = .ok d →
        (d.record.description.utf8ByteSize ≤ a ↔ d.record.description.utf8ByteSize ≤ b) := by
  simp only [decode_iff_of_le (le_max_left a b), decode_iff_of_le (le_max_right a b)]
  cases decode (max a b) bytes with
  | error e => simp
  | ok d => simp

/-- A record does not depend on the limit under which it is read. -/
theorem decode_unique {a b : Nat} {bytes : Bytes} {d e : Decoded} (hd : decode a bytes = .ok d)
    (he : decode b bytes = .ok e) : d = e := by
  rw [decode_iff_of_le (le_max_left a b)] at hd
  rw [decode_iff_of_le (le_max_right a b), hd.1] at he
  exact Except.ok.inj he.1

end Record

end Savegame
