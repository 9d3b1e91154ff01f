import Savegame.Proofs.Access
import Savegame.Proofs.Evaluation
import Savegame.Proofs.Numeral

/-!
# The texts of conditions

A condition is shown as a comparison of a named variable with a number. No two variables have the
same name and no text can be read in two ways, so that the text of a condition says which variable
it is about and when it holds.
-/

namespace Savegame

/-- The names of a variable: the one that the engine knows it by, or else a `v` and its number. -/
inductive IsNameOf : UInt16 → String → Prop
  | described (d : Description) (hd : d ∈ engineDescriptions) : IsNameOf d.index d.name
  | numbered {index : UInt16} (h : ¬ IsDescribed index) :
      IsNameOf index ("v" ++ Numeral.decimal 1 index.toNat)

theorem isNameOf_describe (index : UInt16) : IsNameOf index (Game.describe index) := by
  unfold Game.describe Catalog.describe
  cases hfind : engineCatalog.find? index with
  | some d =>
    have hpair := Dictionary.mem_of_find?_ofList hfind
    obtain ⟨found, hfound, heq⟩ := List.mem_map.mp hpair
    cases heq
    exact .described d hfound
  | none =>
    apply IsNameOf.numbered
    rw [← contains_engineCatalog]
    unfold Catalog.find? at hfind
    rw [Catalog.contains, Dictionary.contains, hfind]
    exact Bool.false_ne_true

theorem nodup_engineNames : (engineDescriptions.map (·.name)).Nodup := by
  decide +kernel

theorem all_engineNames : engineDescriptions.all (fun d => !d.name.startsWith 'v') = true := by
  decide +kernel

/-- The engine's names are capitalized. -/
theorem name_ne_numbered {d : Description} (h : d ∈ engineDescriptions) (index : UInt16) :
    d.name ≠ "v" ++ Numeral.decimal 1 index.toNat := by
  intro hname
  have hstart := List.all_eq_true.mp all_engineNames d h
  rw [hname, String.startsWith_char_eq_head?, String.toList_append] at hstart
  cases hstart

namespace IsNameOf

variable {i j : UInt16} {name : String}

/-- No two variables have the same name. -/
theorem unique (h : IsNameOf i name) (hother : IsNameOf j name) : i = j := by
  generalize hname : name = other at hother
  cases h with
  | described d hd =>
    cases hother with
    | described e he =>
      have hsame : d = e := List.inj_on_of_nodup_map nodup_engineNames hd he hname
      rw [hsame]
    | numbered => exact absurd hname (name_ne_numbered hd j)
  | numbered hi =>
    cases hother with
    | described e he => exact absurd hname.symm (name_ne_numbered he i)
    | numbered =>
      have hdigits : Numeral.decimal 1 i.toNat = Numeral.decimal 1 j.toNat := by
        have hlists := congrArg String.toList hname
        rw [String.toList_append, String.toList_append] at hlists
        exact String.toList_inj.mp (List.append_cancel_left hlists)
      exact UInt16.toNat_inj.mp (Numeral.decimal_injective hdigits)

end IsNameOf

theorem Game.describe_injective : Function.Injective Game.describe :=
  fun i j h => (isNameOf_describe i).unique (h ▸ isNameOf_describe j)

/-- What the text of a condition says of a variable: that it is equal to a number, or that it is
not. -/
inductive Comparison where
  | equal
  | unequal
  deriving DecidableEq, Repr

namespace Comparison

def symbol : Comparison → String
  | equal => "=="
  | unequal => "!="

def Holds (value number : Int) : Comparison → Prop
  | equal => value = number
  | unequal => value ≠ number

/-- The text that compares a named variable with a number. -/
def text (name : String) (comparison : Comparison) (number : Nat) : String :=
  "c[" ++ name ++ " " ++ comparison.symbol ++ " " ++ Numeral.decimal 1 number ++ "]"

end Comparison

/-- A list is cut in one way at the last place where an element stands. -/
theorem eq_of_append_cons {α : Type} {a : α} {x y z w : List α} (h : x ++ a :: z = y ++ a :: w)
    (hz : a ∉ z) (hw : a ∉ w) : x = y ∧ z = w := by
  rcases List.append_eq_append_iff.mp h with ⟨m, hy, hrest⟩ | ⟨m, hx, hrest⟩
  · cases m with
    | nil =>
      rw [List.append_nil] at hy
      exact ⟨hy.symm, (List.cons.inj hrest).2⟩
    | cons b m =>
      have hinside : z = m ++ a :: w := (List.cons.inj hrest).2
      exact absurd (hinside ▸ List.mem_append_right m List.mem_cons_self) hz
  · cases m with
    | nil =>
      rw [List.append_nil] at hx
      exact ⟨hx, (List.cons.inj hrest).2.symm⟩
    | cons b m =>
      have hinside : w = m ++ a :: z := (List.cons.inj hrest).2
      exact absurd (hinside ▸ List.mem_append_right m List.mem_cons_self) hw

namespace Comparison

variable {name name' : String} {comparison comparison' : Comparison} {number number' : Nat}

theorem symbol_injective (h : comparison.symbol = comparison'.symbol) :
    comparison = comparison' := by
  revert h
  cases comparison <;> cases comparison' <;> decide

/-- Whatever the name, a text compares one name with one number in one way. -/
theorem text_inj (h : text name comparison number = text name' comparison' number') :
    name = name' ∧ comparison = comparison' ∧ number = number' := by
  have hblank : ∀ n, ' ' ∉ (Numeral.decimal 1 n).toList := by
    intro n hmem
    exact absurd (Numeral.isDigit_of_mem_decimal hmem) (by decide)
  have hsymbol : ∀ c : Comparison, ' ' ∉ c.symbol.toList := by
    intro c
    cases c <;> decide
  have hlists : (("c[".toList ++ name.toList) ++ ' ' :: comparison.symbol.toList) ++
        ' ' :: (Numeral.decimal 1 number).toList =
      (("c[".toList ++ name'.toList) ++ ' ' :: comparison'.symbol.toList) ++
        ' ' :: (Numeral.decimal 1 number').toList := by
    have hwhole := congrArg String.toList h
    simp only [text, String.toList_append] at hwhole
    have hopen := List.append_cancel_right hwhole
    simpa using hopen
  obtain ⟨hfront, hnumber⟩ := eq_of_append_cons hlists (hblank _) (hblank _)
  obtain ⟨hname, hcomparison⟩ := eq_of_append_cons hfront (hsymbol _) (hsymbol _)
  exact ⟨String.toList_inj.mp (List.append_cancel_left hname),
    symbol_injective (String.toList_inj.mp hcomparison),
    Numeral.decimal_injective (String.toList_inj.mp hnumber)⟩

end Comparison

namespace Condition

/-- How the text of a packed condition compares. A test for truth is shown as one for zero. -/
def comparisonOf (word : Int16) : Comparison :=
  if (0 ≤ word.toInt ↔ packedTarget word ≠ 0) then .equal else .unequal

/-- What the text of a condition compares is what the condition judges. -/
theorem verdict_iff (word : Int16) (value : Int32) :
    verdict word value = true ↔
      (comparisonOf word).Holds value.toInt (packedTarget word - 1 : Nat) := by
  have htarget : targetOf word = packedTarget word - 1 := rfl
  have hzero : value = 0 ↔ value.toInt = 0 := Int32.toInt_inj.symm
  rw [verdict, htarget, comparisonOf]
  cases packedTarget word with
  | zero => by_cases hsign : 0 ≤ word.toInt <;> simp [hsign, hzero, Comparison.Holds]
  | succ target =>
    have hequals : ¬ ((target + 1 : Nat) : Int) - 1 = -1 := by omega
    rw [if_neg hequals]
    by_cases hsign : 0 ≤ word.toInt <;> simp [hsign, Comparison.Holds]

end Condition

namespace Game

open Condition Comparison

theorem describeCondition_eq (word : Int16) :
    describeCondition word =
      text (describe (packedIndex word)) (comparisonOf word) (packedTarget word - 1) := by
  have hequal : (decide (0 ≤ word) == decide (0 < packedTarget word)) = true ↔
      (0 ≤ word.toInt ↔ packedTarget word ≠ 0) := by
    rw [beq_iff_eq, decide_eq_decide, Int16.le_iff_toInt_le, Nat.pos_iff_ne_zero]
    exact Iff.rfl
  have hsymbol : (if (0 ≤ word.toInt ↔ packedTarget word ≠ 0) then " == " else " != ") =
      " " ++ (comparisonOf word).symbol ++ " " := by
    rw [comparisonOf]
    split <;> rfl
  rw [describeCondition, text]
  simp only [hequal, hsymbol, String.append_assoc]

/-- The text of a condition tells the truth. It can be read in one way, as a comparison of a
variable with a number, and the condition holds exactly if that does of the value that the variable
has after looking. The name in the text is that of the variable that is looked at, and of no
other. -/
theorem describeCondition_tells_truth (g : Game) (keys : Keys) (word : Int16) :
    (∃ name comparison number, describeCondition word = text name comparison number) ∧
    (∀ name comparison number, describeCondition word = text name comparison number →
      ∃ i : UInt16, (decode word).index = i ∧ i ≤ 2047 ∧ (∀ j, IsNameOf j name ↔ j = i) ∧
        ((g.evaluate keys word).1 = true ↔
          comparison.Holds ((g.evaluate keys word).2.record.table.read i).toInt number)) ∧
    ∀ i j, describe i = describe j → i = j := by
  refine ⟨⟨_, _, _, describeCondition_eq word⟩, ?_, ?_⟩
  · intro name comparison number h
    rw [describeCondition_eq] at h
    obtain ⟨rfl, rfl, rfl⟩ := text_inj h
    refine ⟨packedIndex word, rfl, ?_, ?_, ?_⟩
    · rw [UInt16.le_iff_toNat_le, toNat_packedIndex]
      exact Nat.le_of_lt_succ (slotOf word).isLt
    · intro j
      constructor
      · intro hj
        exact hj.unique (isNameOf_describe _)
      · rintro rfl
        exact isNameOf_describe _
    · rw [evaluate_eq, read_packedIndex, get_lookedAt, if_pos rfl]
      exact verdict_iff word _
  · intro i j hname
    exact (isNameOf_describe i).unique (hname ▸ isNameOf_describe j)

end Game

end Savegame
