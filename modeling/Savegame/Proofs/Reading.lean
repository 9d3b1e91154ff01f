import Savegame.Bytes.Lemmas
import Savegame.Record.Field

/-!
# Emissions and readings

Emissions that do not stop are byte strings and append as such. A reading of a fixed number of bytes
succeeds exactly if the bytes are there, and then leaves what follows them. All readings are local:
those that succeed have used up the front of their input and do not depend on what follows it.
-/

namespace Savegame

namespace Emission

@[simp] theorem andThen_eq (bytes : Bytes) (second : Emission) :
    (⟨bytes, none⟩ : Emission).andThen second = ⟨bytes ++ second.bytes, second.stop⟩ := rfl

theorem andThen_of_none {first : Emission} (h : first.stop = none) (second : Emission) :
    first.andThen second = ⟨first.bytes ++ second.bytes, second.stop⟩ := by
  rw [andThen, h]

theorem andThen_of_some {first : Emission} {error : SaveError} (h : first.stop = some error)
    (second : Emission) : first.andThen second = first := by
  rw [andThen, h]

theorem andThen_nil (e : Emission) : e.andThen ⟨[], none⟩ = e := by
  rcases e with ⟨bytes, stop⟩
  cases stop with
  | none => rw [andThen_eq, List.append_nil]
  | some error => rfl

theorem andThen_assoc (first second third : Emission) :
    (first.andThen second).andThen third = first.andThen (second.andThen third) := by
  rcases first with ⟨bytes, stop⟩
  cases stop with
  | none =>
    rcases second with ⟨more, stop⟩
    cases stop with
    | none => simp only [andThen_eq, List.append_assoc]
    | some error => rfl
  | some error => rfl

/-- Several emissions one after the other, and one more behind them. -/
theorem foldr_andThen_append {α : Type} (put : α → Emission) (xs : List α) (e : Emission) :
    xs.foldr (fun x rest => (put x).andThen rest) e =
      (xs.foldr (fun x rest => (put x).andThen rest) ⟨[], none⟩).andThen e := by
  induction xs with
  | nil => rfl
  | cons x xs ih => rw [List.foldr_cons, ih, List.foldr_cons, andThen_assoc]

theorem foldr_andThen {α : Type} (put : α → Emission) (xs : List α)
    (h : ∀ x ∈ xs, (put x).stop = none) :
    xs.foldr (fun x rest => (put x).andThen rest) ⟨[], none⟩ =
      ⟨xs.flatMap fun x => (put x).bytes, none⟩ := by
  induction xs with
  | nil => rfl
  | cons x xs ih =>
    have hx := h x List.mem_cons_self
    rw [List.foldr_cons, ih fun y hy => h y (List.mem_cons_of_mem x hy), andThen, hx,
      List.flatMap_cons]

variable {α : Type} {e : Emission} {x y : α} {error : SaveError}

theorem answer_of_none (h : e.stop = none) (x : α) : e.answer x = .ok x := by
  unfold answer
  rw [h]

theorem answer_of_some (h : e.stop = some error) (x : α) : e.answer x = .error error := by
  unfold answer
  rw [h]

theorem answer_eq_ok_iff : e.answer x = .ok y ↔ e.stop = none ∧ x = y := by
  cases hstop : e.stop with
  | none =>
    rw [answer_of_none hstop, Except.ok.injEq]
    exact (and_iff_right rfl).symm
  | some found =>
    rw [answer_of_some hstop]
    constructor
    · exact nofun
    · exact nofun

theorem answer_eq_error_iff : e.answer x = .error error ↔ e.stop = some error := by
  cases hstop : e.stop with
  | none =>
    rw [answer_of_none hstop]
    constructor
    · exact nofun
    · exact nofun
  | some found => rw [answer_of_some hstop, Except.error.injEq, Option.some.injEq]

end Emission

namespace Reading

theorem eq_of_answer {α : Type} {r : Reading α} {x : α} (h : r.answer = .ok x) :
    r = ⟨.ok x, r.moved, r.rest⟩ := by
  rw [← h]

theorem take_of_le {count : Nat} {bytes : Bytes} (h : count ≤ bytes.length) :
    take count bytes =
      ⟨.ok ⟨bytes.take count, List.length_take_of_le h⟩, count, bytes.drop count⟩ := by
  rw [take, dif_pos]

theorem take_of_lt {count : Nat} {bytes : Bytes} (h : bytes.length < count) :
    take count bytes = ⟨.error (.stream .endOfInput), 0, bytes⟩ := by
  rw [take, dif_neg]
  rw [List.length_take]
  omega

theorem number_of_le {width : Nat} {bytes : Bytes} (h : width ≤ bytes.length) :
    number width bytes = ⟨.ok (Bytes.toNat (bytes.take width)), width, bytes.drop width⟩ := by
  rw [number, take_of_le h]
  rfl

theorem number_of_lt {width : Nat} {bytes : Bytes} (h : bytes.length < width) :
    number width bytes = ⟨.error (.stream .endOfInput), 0, bytes⟩ := by
  rw [number, take_of_lt h]
  rfl

theorem number_append {width : Nat} (n : Nat) (tail : Bytes) :
    number width (Bytes.ofNat width n ++ tail) = ⟨.ok (n % 256 ^ width), width, tail⟩ := by
  have hlength := Bytes.length_ofNat width n
  rw [number_of_le (by simp), List.take_left' hlength, List.drop_left' hlength, Bytes.toNat_ofNat]

theorem take_append {count : Nat} (block : Block count) (tail : Bytes) :
    take count (block.bytes ++ tail) = ⟨.ok block, block.bytes.length, tail⟩ := by
  have hlength := block.length_eq
  rw [take_of_le (by simp [hlength])]
  simp only [List.take_left' hlength, List.drop_left' hlength, hlength]

/-- A way of reading that uses up the front of its input and does not look any further. -/
def IsLocal {α : Type} (read : Bytes → Reading α) : Prop :=
  ∀ ⦃bytes : Bytes⦄ ⦃x : α⦄ ⦃n : Nat⦄ ⦃rest : Bytes⦄, read bytes = ⟨.ok x, n, rest⟩ →
    n ≤ bytes.length ∧ rest = bytes.drop n ∧
      ∀ tail, read (bytes.take n ++ tail) = ⟨.ok x, n, tail⟩

variable {α β : Type} {read : Bytes → Reading α}

theorem isLocal_done (answer : Except SaveError α) :
    IsLocal fun bytes => ⟨answer, 0, bytes⟩ := by
  intro bytes x n rest h
  cases h
  exact ⟨Nat.zero_le _, rfl, fun tail => rfl⟩

theorem isLocal_take (count : Nat) : IsLocal (take count) := by
  intro bytes block n rest h
  by_cases hle : count ≤ bytes.length
  · rw [take_of_le hle] at h
    cases h
    refine ⟨hle, rfl, fun tail => ?_⟩
    have hfront := take_append (⟨bytes.take count, List.length_take_of_le hle⟩ : Block count) tail
    rwa [List.length_take_of_le hle] at hfront
  · rw [take_of_lt (by omega)] at h
    cases h

theorem map_eq_check (r : Reading α) (g : α → β) : r.map g = r.check fun x => .ok (g x) := by
  obtain ⟨answer, moved, rest⟩ := r
  cases answer <;> rfl

theorem check_eq_andThen (r : Reading α) (judge : α → Except SaveError β) :
    r.check judge = r.andThen fun x rest => ⟨judge x, 0, rest⟩ := by
  obtain ⟨answer, moved, rest⟩ := r
  cases answer <;> rfl

theorem IsLocal.andThen (hread : IsLocal read) {next : α → Bytes → Reading β}
    (hnext : ∀ x, IsLocal (next x)) : IsLocal fun bytes => (read bytes).andThen next := by
  intro bytes y n rest h
  cases hr : read bytes with
  | mk answer moved left =>
    cases answer with
    | error e =>
      simp only [hr, Reading.andThen, mk.injEq] at h
      cases h.1
    | ok x =>
      obtain ⟨hle, rfl, hlocal⟩ := hread hr
      cases hs : next x (bytes.drop moved) with
      | mk answer' moved' left' =>
        simp only [hr, Reading.andThen, hs, mk.injEq] at h
        obtain ⟨rfl, rfl, rfl⟩ := h
        obtain ⟨hle', rfl, hlocal'⟩ := hnext x hs
        rw [List.length_drop] at hle'
        refine ⟨by omega, by rw [List.drop_drop], fun tail => ?_⟩
        simp only [List.take_add, List.append_assoc, hlocal, Reading.andThen, hlocal']

theorem IsLocal.check (hread : IsLocal read) (judge : α → Except SaveError β) :
    IsLocal fun bytes => (read bytes).check judge := by
  simp only [check_eq_andThen]
  exact hread.andThen fun x => isLocal_done (judge x)

theorem IsLocal.map (hread : IsLocal read) (g : α → β) :
    IsLocal fun bytes => (read bytes).map g := by
  simp only [map_eq_check]
  exact hread.check _

theorem isLocal_number (width : Nat) : IsLocal (number width) :=
  (isLocal_take width).map _

end Reading

end Savegame
