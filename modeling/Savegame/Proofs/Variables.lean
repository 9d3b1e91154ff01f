import Mathlib
import Savegame.Game.Clock
import Savegame.Game.Script

/-!
# Reading and writing variables

A write changes the slot it addresses and no other. The indices that scripts and the engine write to
never address the reserved slot.
-/

namespace Savegame

namespace Variable

theorem inRange_iff {index : UInt16} : inRange index = true ↔ 1 ≤ index ∧ index ≤ 2047 := by
  rw [inRange, Bool.and_eq_true, decide_eq_true_eq, decide_eq_true_eq]

theorem inRange_iff_toNat {index : UInt16} :
    inRange index = true ↔ 1 ≤ index.toNat ∧ index.toNat ≤ 2047 := by
  rw [inRange_iff, UInt16.le_iff_toNat_le, UInt16.le_iff_toNat_le]
  rfl

theorem not_inRange_iff {index : UInt16} : ¬ inRange index = true ↔ index = 0 ∨ 2047 < index := by
  rw [inRange_iff_toNat, ← UInt16.toNat_inj, UInt16.lt_iff_toNat_lt]
  change ¬ (1 ≤ index.toNat ∧ index.toNat ≤ 2047) ↔ index.toNat = 0 ∨ 2047 < index.toNat
  omega

theorem inRange_of_not {index : UInt16} (h : ¬ (index = 0 ∨ 2047 < index)) :
    inRange index = true :=
  not_not.mp (mt not_inRange_iff.mp h)

theorem slot_inj {index other : UInt16} (h : inRange index = true) (hother : inRange other = true) :
    slot index = slot other ↔ index = other := by
  have hle := (inRange_iff_toNat.mp h).2
  have hle' := (inRange_iff_toNat.mp hother).2
  rw [slot, slot, Fin.ext_iff, ← UInt16.toNat_inj]
  simp only [Fin.ofNat]
  rw [Nat.mod_eq_of_lt (Nat.lt_succ_of_le hle), Nat.mod_eq_of_lt (Nat.lt_succ_of_le hle')]

theorem slot_ne_zero {index : UInt16} (h : inRange index = true) : slot index ≠ slot 0 := by
  obtain ⟨hpos, hle⟩ := inRange_iff_toNat.mp h
  intro hslot
  have hval := congrArg Fin.val hslot
  simp only [slot, Fin.ofNat] at hval
  have hzero : index.toNat % 2048 = 0 := hval
  omega

end Variable

namespace VariableTable

theorem read_write_self (t : VariableTable) (index : UInt16) (x : Int32) :
    (t.write index x).read index = x :=
  Vector.getElem_set_self _

theorem read_write_of_ne (t : VariableTable) {index other : UInt16} (x : Int32)
    (h : Variable.slot index ≠ Variable.slot other) :
    (t.write index x).read other = t.read other :=
  Vector.getElem_set_ne (Variable.slot index).isLt (Variable.slot other).isLt
    fun hval => h (Fin.ext hval)

theorem read_write (t : VariableTable) {index other : UInt16} (x : Int32)
    (h : Variable.inRange index = true) (hother : Variable.inRange other = true) :
    (t.write index x).read other = if index = other then x else t.read other := by
  split
  case isTrue heq =>
    rw [heq]
    exact t.read_write_self other x
  case isFalse hne => exact t.read_write_of_ne x (mt (Variable.slot_inj h hother).mp hne)

theorem read_zero_write (t : VariableTable) {index : UInt16} (x : Int32)
    (h : Variable.inRange index = true) : (t.write index x).read 0 = t.read 0 :=
  t.read_write_of_ne x (Variable.slot_ne_zero h)

theorem write_of_read {t : VariableTable} {index : UInt16} {x : Int32} (h : t.read index = x) :
    t.write index x = t := by
  obtain ⟨slots⟩ := t
  rw [write, ← h]
  exact congrArg mk (Vector.set_getElem_self _)

theorem set_eq_ok_iff {t changed : VariableTable} {index : UInt16} {x : Int32} :
    t.set index x = .ok changed ↔ Variable.inRange index = true ∧ t.write index x = changed := by
  rw [set]
  by_cases h : Variable.inRange index = true
  · rw [if_pos h, Except.ok.injEq]
    exact ⟨fun heq => ⟨h, heq⟩, fun hboth => hboth.2⟩
  · rw [if_neg h]
    constructor
    · intro heq
      cases heq
    · intro hboth
      exact absurd hboth.1 h

/-- The slots past the reserved one, with their numbers. -/
theorem mem_slots {t : VariableTable} {x : Int32} {n : Nat} :
    (x, n) ∈ t.slots.toList.zipIdx.drop 1 ↔ 1 ≤ n ∧ ∃ h : n < Variable.count, t.slots[n] = x := by
  have hslots : t.slots.toList[n]? = some x ↔ ∃ h : n < Variable.count, t.slots[n] = x := by
    rw [List.getElem?_eq_some_iff]
    simp
  rw [← hslots]
  cases t.slots.toList with
  | nil => simp
  | cons first rest =>
    rw [List.zipIdx_cons, List.drop_succ_cons, List.drop_zero,
      List.mk_mem_zipIdx_iff_le_and_getElem?_sub, and_congr_right_iff]
    intro hn
    obtain ⟨n, rfl⟩ := Nat.exists_eq_add_of_le' hn
    rfl

theorem read_eq_getElem (t : VariableTable) {index : UInt16} (h : index.toNat < Variable.count) :
    t.read index = t.slots[index.toNat] := by
  have hslot : (Variable.slot index).val = index.toNat := Nat.mod_eq_of_lt h
  simp only [read, Fin.getElem_fin, hslot]

/-- The listed variables are those that hold something, the reserved one left out. -/
theorem mem_nonZero {t : VariableTable} {index : UInt16} {x : Int32} :
    (index, x) ∈ t.nonZero ↔ Variable.inRange index = true ∧ x ≠ 0 ∧ t.read index = x := by
  rw [nonZero, List.mem_map, Variable.inRange_iff_toNat]
  constructor
  · rintro ⟨⟨x, n⟩, hmem, hpair⟩
    obtain ⟨rfl, rfl⟩ := Prod.mk.inj hpair
    obtain ⟨hslot, hne⟩ := List.mem_filter.mp hmem
    obtain ⟨hpos, hlt, rfl⟩ := mem_slots.mp hslot
    have hindex : (UInt16.ofNat n).toNat = n :=
      UInt16.toNat_ofNat_of_lt' (hlt.trans (by decide))
    refine ⟨⟨hindex.symm ▸ hpos, hindex.symm ▸ Nat.le_of_lt_succ hlt⟩, by simpa using hne, ?_⟩
    rw [read_eq_getElem t (hindex.symm ▸ hlt)]
    simp only [hindex]
  · rintro ⟨⟨hpos, hle⟩, hne, rfl⟩
    have hlt : index.toNat < Variable.count := Nat.lt_succ_of_le hle
    have hslot := mem_slots.mpr ⟨hpos, hlt, (read_eq_getElem t hlt).symm⟩
    exact ⟨_, List.mem_filter.mpr ⟨hslot, by simpa using hne⟩, by rw [UInt16.ofNat_toNat]⟩

theorem nodup_nonZero (t : VariableTable) : (t.nonZero.map (·.1)).Nodup := by
  have hnumbers : (t.slots.toList.zipIdx.drop 1).Nodup := by
    apply List.Nodup.sublist (List.drop_sublist _ _)
    apply List.Nodup.of_map Prod.snd
    rw [List.zipIdx_map_snd]
    exact List.nodup_range'
  rw [nonZero, List.map_map]
  apply List.Nodup.map_on _ (hnumbers.filter _)
  rintro ⟨x, n⟩ hx ⟨y, m⟩ hy heq
  obtain ⟨-, hn, rfl⟩ := mem_slots.mp (List.mem_filter.mp hx).1
  obtain ⟨-, hm, rfl⟩ := mem_slots.mp (List.mem_filter.mp hy).1
  have hnumber := congrArg UInt16.toNat heq
  simp only [Function.comp_apply] at hnumber
  rw [UInt16.toNat_ofNat_of_lt' (hn.trans (by decide)),
    UInt16.toNat_ofNat_of_lt' (hm.trans (by decide))] at hnumber
  subst hnumber
  rfl

end VariableTable

theorem EngineVariable.inRange_index (v : EngineVariable) : Variable.inRange v.index = true := by
  have hall : engineDescriptions.all (fun d => Variable.inRange d.index) = true := rfl
  exact List.all_eq_true.mp hall v.description v.listed

/-- The variables that stand for keys. -/
theorem Keys.mem_of_pressed? {keys : Keys} {index : UInt16} {pressed : Bool}
    (h : keys.pressed? index = some pressed) : index ∈ ([84, 88, 89, 90] : List UInt16) := by
  rw [pressed?] at h
  split_ifs at h with hmouse hescape htilde hspace
  · exact hmouse ▸ by decide
  · exact hescape ▸ by decide
  · exact htilde ▸ by decide
  · exact hspace ▸ by decide

theorem Keys.inRange_of_pressed? {keys : Keys} {index : UInt16} {pressed : Bool}
    (h : keys.pressed? index = some pressed) : Variable.inRange index = true := by
  have hall : ([84, 88, 89, 90] : List UInt16).all Variable.inRange = true := rfl
  exact List.all_eq_true.mp hall index (mem_of_pressed? h)

theorem Game.read_countDown_of_ne (table : VariableTable) {index other : UInt16}
    (h : Variable.slot index ≠ Variable.slot other) :
    (countDown table index).read other = table.read other := by
  rw [countDown]
  split
  case isTrue => exact table.read_write_of_ne _ h
  case isFalse => rfl

end Savegame
