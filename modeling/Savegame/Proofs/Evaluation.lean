import Savegame.Proofs.Variables

/-!
# Conditions by their numbers

With `u` for its absolute value, a condition is about the variable `u % 2048`. It asks whether that
has the value `u / 2048 - 1`, or, where this is -1, any value but zero, and a negative condition asks
the opposite. Of a variable that stands for a key the key is asked, and the answer is kept.
-/

namespace Savegame

/-- Whether the key behind a variable is down, by number. -/
def Keys.down? (keys : Keys) (number : Nat) : Option Bool :=
  if number = 84 then some keys.mouse
  else if number = 88 then some keys.escape
  else if number = 89 then some keys.tilde
  else if number = 90 then some keys.space
  else none

namespace Condition

theorem mod_count_lt (n : Nat) : n % Variable.count < Variable.count :=
  Nat.mod_lt n (by decide)

/-- The variable that a packed condition is about. -/
def slotOf (word : Int16) : Fin Variable.count :=
  ⟨magnitude word % Variable.count, mod_count_lt _⟩

/-- The value that a packed condition asks for, or -1 if it asks for any but zero. -/
def targetOf (word : Int16) : Int :=
  magnitude word / 2048 - 1

/-- The answer to a packed condition about a value. -/
def verdict (word : Int16) (value : Int32) : Bool :=
  decide (0 ≤ word.toInt) ==
    if targetOf word = -1 then decide (value ≠ 0) else decide (value.toInt = targetOf word)

variable (word : Int16)

theorem magnitude_le : magnitude word ≤ 32768 := by
  have hle := word.le_toInt
  have hlt := word.toInt_lt
  rw [magnitude]
  omega

theorem toNat_packedIndex : (packedIndex word).toNat = (slotOf word).val := by
  have hlt : magnitude word % 2048 < 65536 := by omega
  rw [packedIndex, UInt16.toNat_ofNat_of_lt' hlt]
  rfl

theorem slot_packedIndex : Variable.slot (packedIndex word) = slotOf word := by
  apply Fin.ext
  rw [Variable.slot, toNat_packedIndex]
  exact Nat.mod_eq_of_lt (slotOf word).isLt

theorem negated_decode : (decode word).negated = !decide (0 ≤ word.toInt) := by
  have hnegative : word < 0 ↔ ¬ 0 ≤ word.toInt := by
    rw [Int16.lt_iff_toInt_lt, not_le]
    rfl
  rw [← decide_not]
  exact decide_eq_decide.mpr hnegative

theorem read_packedIndex (t : VariableTable) :
    t.read (packedIndex word) = t.slots.get (slotOf word) := by
  rw [VariableTable.read, Vector.get_eq_getElem]
  simp only [Fin.getElem_fin, slot_packedIndex]

/-- An unpacked condition gives the verdict of its numbers. -/
theorem holds_decode (value : Int32) : (decode word).holds value = verdict word value := by
  have hmagnitude := magnitude_le word
  have htarget : targetOf word = packedTarget word - 1 := rfl
  rw [holds, negated_decode, verdict, decode]
  dsimp only
  cases hstored : packedTarget word with
  | zero =>
    have htruthy : targetOf word = -1 := by omega
    rw [if_pos htruthy]
    cases decide (0 ≤ word.toInt) <;> simp [bne, Bool.beq_eq_decide_eq]
  | succ stored =>
    have hequals : targetOf word = stored := by omega
    -- At most fifteen, so the target is the same number as a word.
    have hlt : stored < 2 ^ 31 := by
      rw [packedTarget] at hstored
      omega
    have hvalue : value = Int32.ofNat stored ↔ value.toInt = stored := by
      rw [← Int32.toInt_inj, Int32.toInt_ofNat_of_lt hlt]
    rw [hequals, if_neg (by omega)]
    cases decide (0 ≤ word.toInt) <;> simp [bne, Bool.beq_eq_decide_eq, hvalue]

variable {word}

theorem toInt_neg (h : word ≠ Int16.minValue) : (-word).toInt = -word.toInt := by
  have hle := word.le_toInt
  have hlt := word.toInt_lt
  have hne : word.toInt ≠ -2 ^ 15 := by
    rw [← Int16.toInt_minValue]
    exact fun heq => h (Int16.toInt_inj.mp heq)
  rw [Int16.toInt_neg]
  exact Int.bmod_eq_of_le (by omega) (by omega)

theorem magnitude_neg (h : word ≠ Int16.minValue) : magnitude (-word) = magnitude word := by
  rw [magnitude, magnitude, toInt_neg h, Int.natAbs_neg]

theorem slotOf_neg (h : word ≠ Int16.minValue) : slotOf (-word) = slotOf word := by
  simp only [slotOf, magnitude_neg h]

theorem targetOf_neg (h : word ≠ Int16.minValue) : targetOf (-word) = targetOf word := by
  rw [targetOf, targetOf, magnitude_neg h]

/-- The opposite word is the opposite condition. Zero is its own opposite, and so is the lowest
word. -/
theorem verdict_neg (hzero : word ≠ 0) (h : word ≠ Int16.minValue) (value : Int32) :
    verdict (-word) value = !verdict word value := by
  have hne : word.toInt ≠ 0 := fun heq => hzero (Int16.toInt_inj.mp heq)
  have hsign : decide (0 ≤ (-word).toInt) = !decide (0 ≤ word.toInt) := by
    rw [← decide_not, decide_eq_decide, toInt_neg h]
    omega
  rw [verdict, verdict, targetOf_neg h, hsign]
  cases decide (0 ≤ word.toInt) <;> simp

end Condition

theorem Keys.pressed?_packedIndex (keys : Keys) (word : Int16) :
    keys.pressed? (Condition.packedIndex word) = keys.down? (Condition.slotOf word) := by
  have hindex := Condition.toNat_packedIndex word
  simp only [pressed?, down?, ← UInt16.toNat_inj, hindex]
  rfl

namespace Game

open Condition

/-- What a condition sees a variable hold: the state of its key, if it has one. -/
def valueSeen (g : Game) (keys : Keys) (i : Fin Variable.count) : Int32 :=
  match keys.down? i with
  | some down => if down then 1 else 0
  | none => g.record.table.slots.get i

/-- The game in which a variable was looked at. -/
def lookedAt (g : Game) (keys : Keys) (i : Fin Variable.count) : Game :=
  match keys.down? i with
  | some down => g.withTable ⟨g.record.table.slots.set i (if down then 1 else 0) i.isLt⟩
  | none => g

variable {g : Game}

theorem refresh_packedIndex (g : Game) (keys : Keys) (word : Int16) :
    g.refresh keys (packedIndex word) = g.lookedAt keys (slotOf word) := by
  rw [refresh, lookedAt, keys.pressed?_packedIndex]
  cases keys.down? (slotOf word) with
  | none => rfl
  | some down => simp only [VariableTable.write, slot_packedIndex]

theorem get_set {n : Nat} (slots : Vector Int32 n) (i j : Fin n) (x : Int32) :
    (slots.set i x i.isLt).get j = if j = i then x else slots.get j := by
  simp only [Vector.get_eq_getElem, Vector.getElem_set, Fin.ext_iff, eq_comm]

theorem get_lookedAt (g : Game) (keys : Keys) (i j : Fin Variable.count) :
    (g.lookedAt keys i).record.table.slots.get j =
      if j = i then g.valueSeen keys i else g.record.table.slots.get j := by
  rw [lookedAt, valueSeen]
  cases keys.down? i with
  | none =>
    dsimp only
    split
    case isTrue h => rw [h]
    case isFalse => rfl
  | some down => exact get_set _ i j _

theorem lookedAt_eq_withTable (g : Game) (keys : Keys) (i : Fin Variable.count) :
    g.lookedAt keys i = g.withTable (g.lookedAt keys i).record.table := by
  rw [lookedAt]
  cases keys.down? i <;> rfl

/-- A condition looks at its variable and judges what it sees. -/
theorem evaluate_eq (g : Game) (keys : Keys) (word : Int16) :
    g.evaluate keys word =
      (verdict word (g.valueSeen keys (slotOf word)), g.lookedAt keys (slotOf word)) := by
  have hindex : (decode word).index = packedIndex word := rfl
  rw [evaluate, hindex, refresh_packedIndex, read_packedIndex, get_lookedAt, if_pos rfl,
    holds_decode]

theorem evaluate_zero (h : g.record.table.read 0 = 0) (keys : Keys) :
    (g.evaluate keys 0).1 = false := by
  have hseen : g.valueSeen keys 0 = 0 := h
  have hslot : slotOf 0 = 0 := rfl
  rw [evaluate_eq, hslot, hseen]
  rfl

theorem evaluate_neg {word : Int16} (hzero : word ≠ 0) (h : word ≠ Int16.minValue) (g : Game)
    (keys : Keys) : (g.evaluate keys (-word)).1 = !(g.evaluate keys word).1 := by
  rw [evaluate_eq, evaluate_eq, slotOf_neg h]
  exact verdict_neg hzero h _

/-- What a packed condition comes to, by its numbers, and what looking changes: the variable now has
the value that was seen, which is news for the four keys only. -/
theorem evaluate_by_numbers (h : g.record.table.read 0 = 0) (keys : Keys) (word : Int16) :
    let u := word.toInt.natAbs
    let i : Fin 2048 := Fin.ofNat 2048 u
    let target : Int := u / 2048 - 1
    let value := g.valueSeen keys i
    ((g.evaluate keys word).1 =
      (decide (0 ≤ word.toInt) ==
        if target = -1 then decide (value ≠ 0) else decide (value.toInt = target))) ∧
    (∃ table, (g.evaluate keys word).2 = g.withTable table ∧
      ∀ j, table.slots.get j = if j = i then value else g.record.table.slots.get j) ∧
    (g.evaluate keys 0).1 = false ∧
    (word ≠ 0 → word ≠ Int16.minValue →
      (g.evaluate keys (-word)).1 = !(g.evaluate keys word).1) := by
  refine ⟨?_, ⟨_, ?_, g.get_lookedAt keys (slotOf word)⟩, evaluate_zero h keys,
    fun hzero hlowest => g.evaluate_neg hzero hlowest keys⟩
  · rw [evaluate_eq]
    rfl
  · rw [evaluate_eq]
    exact g.lookedAt_eq_withTable keys _

/-- The escape key is down, and a condition asks whether it is not. The lowest word asks whether
variable 0 differs from 15. -/
theorem evaluate_by_numbers_escape :
    let g := start {}
    let keys : Keys := { escape := true }
    g.record.table.read 0 = 0 ∧
      (g.evaluate keys (-88)).1 = false ∧
      (∃ table, (g.evaluate keys (-88)).2 = g.withTable table ∧
        table.slots.get 88 = 1) ∧
      (g.evaluate keys (- -88)).1 = true ∧
      (g.evaluate keys Int16.minValue).1 = true := by
  intro g keys
  have hzero : g.record.table.read 0 = 0 := by decide +kernel
  obtain ⟨hescape, ⟨table, hafter, hslots⟩, -, hopposite⟩ := evaluate_by_numbers hzero keys (-88)
  obtain ⟨hlowest, -⟩ := evaluate_by_numbers hzero keys Int16.minValue
  have hseen : g.valueSeen keys (Fin.ofNat 2048 Int16.minValue.toInt.natAbs) = 0 := hzero
  have hslot : table.slots.get 88 = 1 := hslots 88
  have hanswer : (g.evaluate keys (-88)).1 = false := hescape
  have hneg := hopposite (by decide) (by decide)
  rw [hanswer] at hneg
  rw [hseen] at hlowest
  exact ⟨hzero, hanswer, ⟨table, hafter, hslot⟩, hneg, hlowest⟩

end Game

end Savegame
