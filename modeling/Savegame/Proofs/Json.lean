import Savegame.Json.Reader
import Savegame.Proofs.Numeral
import Savegame.Proofs.Utf8

/-!
# Reading what was printed

A printed value is read back whatever follows it, as long as that could stand after a value in
print. Numbers that are not integers are left out: they are printed as the text that they carry.
-/

namespace Savegame

theorem Utf8.encode_append (first second : String) :
    encode (first ++ second) = encode first ++ encode second := by
  simp [encode]

theorem Utf8.encode_injective {first second : String} (h : encode first = encode second) :
    first = second := by
  have hdecode : decode (encode first) = decode (encode second) := by rw [h]
  simpa using hdecode

namespace Json

open Reader (isBlank skipBlanks isDigit)

/-- Values whose print says all about them. -/
inductive IsPlain : Json → Prop where
  | null : IsPlain .null
  | bool (value : Bool) : IsPlain (.bool value)
  | integer (n : Int) : IsPlain (.integer n)
  | string (contents : Bytes) : IsPlain (.string contents)
  | array (items : List Json) (h : ∀ item ∈ items, IsPlain item) : IsPlain (.array items)
  | object (members : List (Bytes × Json)) (h : ∀ m ∈ members, IsPlain m.2) :
      IsPlain (.object members)

/-- What may stand after a value in print. -/
inductive Ends : Bytes → Prop where
  | nothing : Ends []
  | comma (rest : Bytes) : Ends (0x2C :: rest)
  | line (rest : Bytes) : Ends (0x0A :: rest)

/-! ## Numbers -/

/-- The byte of an ASCII character. -/
def asciiByte (c : Char) : UInt8 :=
  UInt8.ofNat c.toNat

theorem toNat_of_isDigit {c : Char} (h : c.isDigit = true) : 48 ≤ c.toNat ∧ c.toNat ≤ 57 := by
  simpa [Char.isDigit, UInt32.le_iff_toNat_le] using h

theorem lt_of_isDigit {c : Char} (h : c.isDigit = true) : c.toNat < 128 := by
  have hc := toNat_of_isDigit h
  omega

theorem toNat_asciiByte {c : Char} (h : c.toNat < 128) : (asciiByte c).toNat = c.toNat :=
  Utf8.toNat_byte (by omega)

theorem isDigit_asciiByte {c : Char} (h : c.isDigit = true) : isDigit (asciiByte c) = true := by
  have hc := toNat_of_isDigit h
  have hbyte := toNat_asciiByte (lt_of_isDigit h)
  simp only [isDigit, Bool.and_eq_true, decide_eq_true_eq, UInt8.le_iff_toNat_le,
    UInt8.reduceToNat]
  omega

theorem encode_ascii {text : String} (h : ∀ c ∈ text.toList, c.toNat < 128) :
    Utf8.encode text = text.toList.map asciiByte := by
  have hchar : ∀ c ∈ text.toList, String.utf8EncodeChar c = [asciiByte c] := by
    intro c hc
    apply Utf8.Form.unique (Utf8.form_encodeChar c)
    exact .one (h c hc) (toNat_asciiByte (h c hc))
  rw [Utf8.encode, List.flatMap_congr hchar, List.map_eq_flatMap]

theorem encode_decimal (n : Nat) :
    Utf8.encode (Numeral.decimal 1 n) = (Nat.toDigits 10 n).map asciiByte := by
  rw [encode_ascii, Numeral.toList_decimal_one]
  intro c hc
  exact lt_of_isDigit (Numeral.isDigit_of_mem_decimal hc)

theorem ofDigits_map_asciiByte {digits : List Char} (h : ∀ c ∈ digits, c.isDigit = true)
    (n : Nat) :
    (digits.map asciiByte).foldl (fun n b => n * 10 + (b.toNat - 0x30)) n =
      Nat.ofDigitChars 10 digits n := by
  induction digits generalizing n with
  | nil => rfl
  | cons c digits ih =>
    obtain ⟨hc, hdigits⟩ := List.forall_mem_cons.mp h
    rw [List.map_cons, List.foldl_cons, Nat.ofDigitChars_cons, ih hdigits,
      toNat_asciiByte (lt_of_isDigit hc), Nat.mul_comm n 10]
    rfl

/-- No digit comes next. -/
def EndsDigits (rest : Bytes) : Prop :=
  ∀ b, rest.head? = some b → isDigit b = false

theorem Ends.endsDigits {rest : Bytes} (h : Ends rest) : EndsDigits rest := by
  intro b hb
  cases h with
  | nothing => cases hb
  | comma => cases hb; rfl
  | line => cases hb; rfl

/-- One digit or more. -/
structure IsRun (run : List Char) : Prop where
  digits : ∀ c ∈ run, c.isDigit = true
  notEmpty : run ≠ []

/-- The digits before a point: a zero stands alone. -/
structure IsWhole (run : List Char) : Prop extends IsRun run where
  lead : run.head? = some '0' → run.length = 1

theorem isWhole_toDigits (n : Nat) : IsWhole (Nat.toDigits 10 n) := by
  refine ⟨⟨fun c hc => ?_, Nat.toDigits_ne_nil⟩, fun hhead => ?_⟩
  · exact Nat.isDigit_of_mem_toDigits (by decide) (by decide) hc
  · rcases Nat.eq_zero_or_pos n with rfl | hpos
    · rfl
    · exact absurd hhead (Numeral.head?_toDigits_ne_zero hpos)

theorem digits_append {run : List Char} {rest : Bytes} (hrun : IsRun run)
    (hrest : EndsDigits rest) :
    Reader.digits (run.map asciiByte ++ rest) = some (run.map asciiByte, rest) := by
  have hdigits : ∀ b ∈ run.map asciiByte, isDigit b = true := by
    intro b hb
    obtain ⟨c, hc, rfl⟩ := List.mem_map.mp hb
    exact isDigit_asciiByte (hrun.digits c hc)
  have hstop : rest.takeWhile isDigit = [] ∧ rest.dropWhile isDigit = rest := by
    cases rest with
    | nil => exact ⟨rfl, rfl⟩
    | cons b rest =>
      have hb := hrest b rfl
      simp [hb]
  rw [Reader.digits, List.takeWhile_append_of_pos hdigits, List.dropWhile_append_of_pos hdigits,
    hstop.1, hstop.2, List.append_nil]
  cases run with
  | nil => exact absurd rfl hrun.notEmpty
  | cons c run => rfl

theorem whole_append {run : List Char} {rest : Bytes} (hrun : IsWhole run)
    (hrest : EndsDigits rest) :
    Reader.whole (run.map asciiByte ++ rest) = some (run.map asciiByte, rest) := by
  have hlead : ¬ ((run.map asciiByte).head? = some 0x30 ∧ (run.map asciiByte).length ≠ 1) := by
    rintro ⟨hhead, hlength⟩
    rw [List.head?_map, Option.map_eq_some_iff] at hhead
    obtain ⟨c, hc, hbyte⟩ := hhead
    have hdigit : c.isDigit = true := hrun.digits c (List.mem_of_mem_head? hc)
    have hzero : c = '0' := by
      apply Char.toNat_inj.mp
      rw [← toNat_asciiByte (lt_of_isDigit hdigit), hbyte]
      rfl
    rw [hzero] at hc
    rw [List.length_map] at hlength
    exact hlength (hrun.lead hc)
  rw [Reader.whole, digits_append hrun.toIsRun hrest]
  simp only [bind, Option.bind, if_neg hlead]

theorem whole_decimal (n : Nat) {rest : Bytes} (hrest : Ends rest) :
    Reader.whole (Utf8.encode (Numeral.decimal 1 n) ++ rest) =
      some (Utf8.encode (Numeral.decimal 1 n), rest) := by
  rw [encode_decimal]
  exact whole_append (isWhole_toDigits n) hrest.endsDigits

theorem ofDigits_decimal (n : Nat) :
    Reader.ofDigits (Utf8.encode (Numeral.decimal 1 n)) = n := by
  have hdigits : ∀ c ∈ Nat.toDigits 10 n, c.isDigit = true := fun c hc =>
    Nat.isDigit_of_mem_toDigits (by decide) (by decide) hc
  rw [encode_decimal, Reader.ofDigits, ofDigits_map_asciiByte hdigits,
    Nat.ofDigitChars_ten_toDigits]

theorem fraction_of_ends {rest : Bytes} (h : Ends rest) : Reader.fraction rest = some ([], rest) := by
  cases h <;> rfl

theorem exponent_of_ends {rest : Bytes} (h : Ends rest) : Reader.exponent rest = some ([], rest) := by
  cases h <;> rfl

theorem encode_integer (n : Int) :
    Utf8.encode (Numeral.integer n) =
      (if n < 0 then [0x2D] else []) ++ Utf8.encode (Numeral.decimal 1 n.natAbs) := by
  have hminus : Utf8.encode "-" = [0x2D] := by decide +kernel
  rw [Numeral.integer]
  split
  case isTrue => rw [Utf8.encode_append, hminus]
  case isFalse => rw [List.nil_append]

theorem starts_decimal (n : Nat) :
    ∃ b run, Utf8.encode (Numeral.decimal 1 n) = b :: run ∧ isDigit b = true := by
  cases hrun : Nat.toDigits 10 n with
  | nil => exact absurd hrun Nat.toDigits_ne_nil
  | cons c run =>
    have hc : c.isDigit = true :=
      Nat.isDigit_of_mem_toDigits (by decide) (by decide) (hrun ▸ List.mem_cons_self)
    refine ⟨asciiByte c, run.map asciiByte, ?_, isDigit_asciiByte hc⟩
    rw [encode_decimal, hrun, List.map_cons]

theorem number_of_whole {b : UInt8} {bytes run rest : Bytes}
    (hwhole : Reader.whole (b :: bytes) = some (run, rest)) (hrest : Ends rest) (hb : b ≠ 0x2D) :
    Reader.number (b :: bytes) = some (.integer (Reader.ofDigits run), rest) := by
  rw [Reader.number.eq_def]
  simp [hb, hwhole, fraction_of_ends hrest, exponent_of_ends hrest]

theorem number_minus {bytes run rest : Bytes} (hwhole : Reader.whole bytes = some (run, rest))
    (hrest : Ends rest) (hrun : Reader.ofDigits run ≠ 0) :
    Reader.number (0x2D :: bytes) = some (.integer (-Reader.ofDigits run), rest) := by
  rw [Reader.number.eq_def]
  simp [hwhole, fraction_of_ends hrest, exponent_of_ends hrest, hrun]

theorem number_integer (n : Int) {rest : Bytes} (hrest : Ends rest) :
    Reader.number (Utf8.encode (Numeral.integer n) ++ rest) = some (.integer n, rest) := by
  have hwhole := whole_decimal n.natAbs hrest
  have hvalue := ofDigits_decimal n.natAbs
  rw [encode_integer]
  split
  case isTrue hneg =>
    have hn : -(n.natAbs : Int) = n := by omega
    have hne : Reader.ofDigits (Utf8.encode (Numeral.decimal 1 n.natAbs)) ≠ 0 := by omega
    have hnumber := number_minus hwhole hrest hne
    rw [hvalue, hn] at hnumber
    rw [List.singleton_append, List.cons_append, hnumber]
  case isFalse hpos =>
    have hn : (n.natAbs : Int) = n := by omega
    obtain ⟨b, run, hrun, hb⟩ := starts_decimal n.natAbs
    have hminus : b ≠ 0x2D := by
      rintro rfl
      exact absurd hb (by decide)
    rw [hrun, List.cons_append] at hwhole
    rw [hrun] at hvalue
    have hnumber := number_of_whole hwhole hrest hminus
    rw [hvalue, hn] at hnumber
    rw [List.nil_append, hrun, List.cons_append, hnumber]

/-! ## Strings -/

theorem escaped_unit {code : Bytes} {n : Nat} (hlength : code.length = 4)
    (hunit : Reader.unit? code = some n) (hsmall : n < 0x80) (tail : Bytes) :
    Reader.escaped (0x75 :: code ++ tail) = some ([UInt8.ofNat n], tail) := by
  match code, hlength with
  | [a, b, c, d], _ =>
    have hcode : Reader.codeUnit? a b c d = some n := hunit
    have hpair : ∀ low, Reader.pair? n low = none := fun low => if_neg (by omega)
    have hchar : String.utf8EncodeChar (Char.ofNat n) = [UInt8.ofNat n] := by
      have hn : (Char.ofNat n).toNat = n := Utf8.toNat_char (.inl (by omega))
      refine Utf8.Form.unique (Utf8.form_encodeChar _) (.one (by omega) ?_)
      rw [hn, Utf8.toNat_byte (by omega)]
    have hunit : Reader.ofCodeUnit n = [UInt8.ofNat n] := by
      rw [Reader.ofCodeUnit, if_neg (by omega), hchar]
    have hafter : Reader.afterUnit n tail = ([UInt8.ofNat n], tail) := by
      rw [Reader.afterUnit]
      cases Reader.escapedUnit? tail <;> simp [hpair, hunit]
    simp [Reader.escaped, Reader.unit?, hcode, hafter]

/-- A byte stands for itself in print, or behind a backslash as what is read back as that byte. -/
theorem escape_cases (b : UInt8) :
    (escape b = [b] ∧ b ≠ 0x22 ∧ ¬ b < 0x20 ∧ b ≠ 0x5C) ∨
      ∃ code, escape b = 0x5C :: code ∧
        ∀ tail, Reader.escaped (code ++ tail) = some ([b], tail) := by
  rw [escape]
  cases hletter : shortEscapes.lookup b with
  | some letter =>
    obtain ⟨before, after, hsplit, -⟩ := List.lookup_eq_some_iff.mp hletter
    have hmem : (b, letter) ∈ shortEscapes := hsplit ▸ by simp
    refine .inr ⟨[letter], rfl, fun tail => ?_⟩
    simp only [shortEscapes, List.mem_cons, Prod.mk.injEq, List.not_mem_nil, or_false] at hmem
    rcases hmem with ⟨rfl, rfl⟩ | ⟨rfl, rfl⟩ | ⟨rfl, rfl⟩ | ⟨rfl, rfl⟩ | ⟨rfl, rfl⟩ | ⟨rfl, rfl⟩ |
      ⟨rfl, rfl⟩ <;> rfl
  | none =>
    dsimp only
    split
    case isTrue hcontrol =>
      have hlt : b.toNat < 32 := UInt8.lt_iff_toNat_lt.mp hcontrol
      have hcode : ∀ n < 32, ∃ code, Utf8.encode ("\\u" ++ Numeral.hex 4 n) = 0x5C :: 0x75 :: code ∧
          code.length = 4 ∧ Reader.unit? code = some n := by
        intro n hn
        refine ⟨(Utf8.encode ("\\u" ++ Numeral.hex 4 n)).drop 2, ?_⟩
        revert n
        decide +kernel
      obtain ⟨code, hprint, hlength, hunit⟩ := hcode b.toNat hlt
      refine .inr ⟨0x75 :: code, hprint, fun tail => ?_⟩
      rw [escaped_unit hlength hunit (by omega), UInt8.ofNat_toNat]
    case isFalse hprintable =>
      refine .inl ⟨rfl, ?_, hprintable, ?_⟩
      · rintro rfl
        cases hletter
      · rintro rfl
        cases hletter

theorem string_escape (done : Bytes) (b : UInt8) (tail : Bytes) :
    Reader.string done (escape b ++ tail) = Reader.string (b :: done) tail := by
  rcases escape_cases b with ⟨hself, hquote, hcontrol, hslash⟩ | ⟨code, hcode, hescaped⟩
  · rw [hself, List.singleton_append, Reader.string.eq_def]
    simp [hquote, hcontrol, hslash]
  · rw [hcode, List.cons_append, Reader.string.eq_def]
    dsimp only
    rw [if_neg (by decide), if_neg (by decide), if_neg (by decide)]
    split
    next denoted after h =>
      obtain ⟨rfl, rfl⟩ := Prod.mk.inj (Option.some.inj ((hescaped tail).symm.trans h))
      rfl
    next h => exact absurd ((hescaped tail).symm.trans h) (Option.some_ne_none _)

theorem string_flatMap (contents done rest : Bytes) :
    Reader.string done (contents.flatMap escape ++ 0x22 :: rest) =
      some (done.reverse ++ contents, rest) := by
  induction contents generalizing done with
  | nil =>
    rw [List.flatMap_nil, List.nil_append, Reader.string.eq_def]
    simp
  | cons b contents ih =>
    rw [List.flatMap_cons, List.append_assoc, string_escape, ih]
    simp

/-! ## Values -/

theorem skipBlanks_newLine (depth : Nat) (bytes : Bytes) :
    skipBlanks (newLine depth ++ bytes) = skipBlanks bytes := by
  have hblank : ∀ b ∈ newLine depth, isBlank b = true := by
    intro b hb
    rcases List.mem_cons.mp hb with rfl | hb
    · rfl
    · rw [List.eq_of_mem_replicate hb]
      rfl
  exact List.dropWhile_append_of_pos hblank

theorem skipBlanks_skipBlanks (bytes : Bytes) : skipBlanks (skipBlanks bytes) = skipBlanks bytes :=
  List.dropWhile_idempotent isBlank bytes

theorem ends_newLine (depth : Nat) (bytes : Bytes) : Ends (newLine depth ++ bytes) :=
  .line _

theorem value_of_skipBlanks {first second : Bytes} (h : skipBlanks first = skipBlanks second)
    (fuel : Nat) : Reader.value fuel first = Reader.value fuel second := by
  cases fuel with
  | zero => rfl
  | succ fuel => simp only [Reader.value, h]

theorem members_of_skipBlanks {first second : Bytes} (h : skipBlanks first = skipBlanks second)
    (fuel : Nat) : Reader.members fuel first = Reader.members fuel second := by
  cases fuel with
  | zero => rfl
  | succ fuel => simp only [Reader.members, h]

/-- The value is read back from its print at any depth, with a fuel of at least its length. -/
def ReadsBack (v : Json) : Prop :=
  ∀ depth fuel rest, (print depth v).length ≤ fuel → Ends rest →
    Reader.value fuel (print depth v ++ rest) = some (v, rest)

theorem starts_integer (n : Int) :
    ∃ b run, Utf8.encode (Numeral.integer n) = b :: run ∧ (b = 0x2D ∨ isDigit b = true) := by
  obtain ⟨b, run, hrun, hb⟩ := starts_decimal n.natAbs
  rw [encode_integer]
  split
  case isTrue => exact ⟨0x2D, _, List.singleton_append, .inl rfl⟩
  case isFalse =>
    rw [List.nil_append]
    exact ⟨b, run, hrun, .inr hb⟩

/-- What starts an integer starts nothing else. -/
theorem starts_nothing_else {b : UInt8} (h : b = 0x2D ∨ isDigit b = true) :
    isBlank b = false ∧ b ≠ 0x7B ∧ b ≠ 0x5B ∧ b ≠ 0x22 ∧ b ≠ 0x74 ∧ b ≠ 0x66 ∧ b ≠ 0x6E := by
  rcases h with rfl | h
  · decide
  · simp only [isDigit, Bool.and_eq_true, decide_eq_true_eq, UInt8.le_iff_toNat_le,
      UInt8.reduceToNat] at h
    simp only [isBlank, Bool.or_eq_false_iff, decide_eq_false_iff_not, ne_eq, ← UInt8.toNat_inj,
      UInt8.reduceToNat]
    omega

/-- What starts with a sign or a digit and is read as a number is read back. -/
theorem readsBack_number {v : Json} {first : UInt8} {run : Bytes}
    (hprint : ∀ depth, print depth v = first :: run) (hfirst : first = 0x2D ∨ isDigit first = true)
    (hnumber : ∀ rest, Ends rest → Reader.number (first :: (run ++ rest)) = some (v, rest)) :
    ReadsBack v := by
  intro depth fuel rest hfuel hrest
  obtain ⟨hblank, h1, h2, h3, h4, h5, h6⟩ := starts_nothing_else hfirst
  rw [hprint] at hfuel ⊢
  have hskip : skipBlanks (first :: (run ++ rest)) = first :: (run ++ rest) := by
    rw [skipBlanks, List.dropWhile_cons_of_neg (by rw [hblank]; exact Bool.false_ne_true)]
  cases fuel with
  | zero => cases hfuel
  | succ fuel =>
    rw [List.cons_append, Reader.value, hskip]
    simp only [h1, h2, h3, h4, h5, h6, if_false, hnumber rest hrest]

theorem readsBack_integer (n : Int) : ReadsBack (.integer n) := by
  obtain ⟨b, run, hrun, hb⟩ := starts_integer n
  apply readsBack_number (fun depth => by rw [print, hrun]) hb
  intro rest hrest
  have hnumber := number_integer n hrest
  rwa [hrun, List.cons_append] at hnumber

theorem readsBack_word {v : Json} {first : UInt8} {letters : Bytes}
    (hprint : ∀ depth, print depth v = first :: letters)
    (hvalue : ∀ fuel rest, Reader.value (fuel + 1) (first :: letters ++ rest) = some (v, rest)) :
    ReadsBack v := by
  intro depth fuel rest hfuel _
  rw [hprint] at hfuel ⊢
  cases fuel with
  | zero => cases hfuel
  | succ fuel => exact hvalue fuel rest

theorem readsBack_null : ReadsBack .null := by
  have hword : Utf8.encode "null" = [0x6E, 0x75, 0x6C, 0x6C] := by decide +kernel
  refine readsBack_word (fun depth => by rw [print, hword]) fun fuel rest => ?_
  simp [Reader.value, skipBlanks, isBlank, Reader.word, hword]

theorem readsBack_bool (value : Bool) : ReadsBack (.bool value) := by
  have htrue : Utf8.encode "true" = [0x74, 0x72, 0x75, 0x65] := by decide +kernel
  have hfalse : Utf8.encode "false" = [0x66, 0x61, 0x6C, 0x73, 0x65] := by decide +kernel
  cases value with
  | true =>
    refine readsBack_word (fun depth => by rw [print, htrue]) fun fuel rest => ?_
    simp [Reader.value, skipBlanks, isBlank, Reader.word, htrue]
  | false =>
    refine readsBack_word (fun depth => by rw [print, hfalse]) fun fuel rest => ?_
    simp [Reader.value, skipBlanks, isBlank, Reader.word, hfalse]

theorem readsBack_string (contents : Bytes) : ReadsBack (.string contents) := by
  refine readsBack_word (fun depth => by rw [print, quote]; rfl) fun fuel rest => ?_
  have hstring := string_flatMap contents [] rest
  simp [Reader.value, skipBlanks, isBlank, hstring]

theorem value_bracket {bytes rest : Bytes} (h : skipBlanks bytes = 0x5D :: rest) (fuel : Nat) :
    Reader.value fuel bytes = none := by
  have hnumber : Reader.number (0x5D :: rest) = none := rfl
  cases fuel with
  | zero => rfl
  | succ fuel =>
    rw [Reader.value, h]
    exact hnumber

/-- No print starts like the end of an array. -/
theorem skipBlanks_print_ne {v : Json} (hv : ReadsBack v) (depth : Nat) {rest : Bytes}
    (hrest : Ends rest) (after : Bytes) : skipBlanks (print depth v ++ rest) ≠ 0x5D :: after := by
  intro h
  have hnone := value_bracket h (print depth v).length
  rw [hv depth _ rest (le_refl _) hrest] at hnone
  exact Option.some_ne_none _ hnone

theorem items_of_skipBlanks {first second : Bytes} (h : skipBlanks first = skipBlanks second)
    (fuel : Nat) : Reader.items fuel first = Reader.items fuel second := by
  cases fuel with
  | zero => rfl
  | succ fuel => simp only [Reader.items, value_of_skipBlanks h]

section Steps
variable {depth fuel : Nat}

theorem items_comma {item : Json} (hitem : ReadsBack item)
    (hfuel : (print depth item).length ≤ fuel) (rest : Bytes) :
    Reader.items (fuel + 1) (print depth item ++ 0x2C :: rest) =
      (Reader.items fuel rest).map fun r => (item :: r.1, r.2) := by
  rw [Reader.items, hitem depth fuel _ hfuel (.comma rest)]
  rfl

theorem items_last {item : Json} (hitem : ReadsBack item)
    (hfuel : (print depth item).length ≤ fuel) (outer : Nat) (rest : Bytes) :
    Reader.items (fuel + 1) (print depth item ++ (newLine outer ++ 0x5D :: rest)) =
      some ([item], rest) := by
  rw [Reader.items, hitem depth fuel _ hfuel (ends_newLine outer _)]
  simp only [bind, Option.bind, skipBlanks_newLine]
  rfl

/-- Reading a member comes down to reading its value. -/
theorem members_succ (name : Bytes) (value : Json) (tail : Bytes) :
    Reader.members (fuel + 1) (quote name ++ 0x3A :: 0x20 :: (print depth value ++ tail)) =
      (Reader.value fuel (print depth value ++ tail)).bind fun r =>
        match skipBlanks r.2 with
        | 0x2C :: rest => (Reader.members fuel rest).map fun s => ((name, r.1) :: s.1, s.2)
        | 0x7D :: rest => some ([(name, r.1)], rest)
        | _ => none := by
  have hquote : skipBlanks (quote name ++ 0x3A :: 0x20 :: (print depth value ++ tail)) =
      0x22 :: (name.flatMap escape ++ 0x22 :: 0x3A :: 0x20 :: (print depth value ++ tail)) := by
    simp only [quote, List.cons_append, List.append_assoc, List.nil_append]
    rfl
  have hcolon : ∀ bytes, skipBlanks (0x3A :: bytes) = 0x3A :: bytes := fun _ => rfl
  have hblank : ∀ bytes, skipBlanks (0x20 :: bytes) = skipBlanks bytes := fun _ => rfl
  rw [Reader.members, hquote]
  simp only [string_flatMap, bind, Option.bind, List.reverse_nil, List.nil_append, hcolon]
  exact congrArg (Option.bind · _) (value_of_skipBlanks (hblank _) fuel)

theorem members_comma (name : Bytes) {value : Json} (hvalue : ReadsBack value)
    (hfuel : (print depth value).length ≤ fuel) (rest : Bytes) :
    Reader.members (fuel + 1) (quote name ++ 0x3A :: 0x20 :: (print depth value ++ 0x2C :: rest)) =
      (Reader.members fuel rest).map fun r => ((name, value) :: r.1, r.2) := by
  rw [members_succ, hvalue depth fuel _ hfuel (.comma rest)]
  rfl

theorem members_last (name : Bytes) {value : Json} (hvalue : ReadsBack value)
    (hfuel : (print depth value).length ≤ fuel) (outer : Nat) (rest : Bytes) :
    Reader.members (fuel + 1)
        (quote name ++ 0x3A :: 0x20 :: (print depth value ++ (newLine outer ++ 0x7D :: rest))) =
      some ([(name, value)], rest) := by
  rw [members_succ, hvalue depth fuel _ hfuel (ends_newLine outer _)]
  simp only [Option.bind, skipBlanks_newLine]
  rfl

end Steps

theorem items_print (depth outer : Nat) {item : Json} {items : List Json} (hitem : ReadsBack item)
    (h : ∀ item ∈ items, ReadsBack item) (fuel : Nat) (rest : Bytes)
    (hfuel : (print depth item).length + (printItems depth items).length < fuel) :
    Reader.items fuel
        (print depth item ++ (printItems depth items ++ (newLine outer ++ 0x5D :: rest))) =
      some (item :: items, rest) := by
  induction items generalizing item fuel with
  | nil =>
    obtain ⟨fuel, rfl⟩ := Nat.exists_eq_succ_of_ne_zero (Nat.ne_zero_of_lt hfuel)
    exact items_last hitem (by omega) outer rest
  | cons next items ih =>
    obtain ⟨fuel, rfl⟩ := Nat.exists_eq_succ_of_ne_zero (Nat.ne_zero_of_lt hfuel)
    obtain ⟨hnext, hitems⟩ := List.forall_mem_cons.mp h
    simp only [printItems, List.length_append, List.length_cons] at hfuel
    have htail := ih hnext hitems fuel (by omega)
    simp only [printItems, List.append_assoc, List.cons_append]
    rw [items_comma hitem (by omega), items_of_skipBlanks (skipBlanks_newLine depth _), htail]
    rfl

theorem readsBack_array {items : List Json} (h : ∀ item ∈ items, ReadsBack item) :
    ReadsBack (.array items) := by
  intro depth fuel rest hfuel hrest
  cases items with
  | nil =>
    have hprint : print depth (.array []) = [0x5B, 0x5D] := by
      rw [print]
      decide +kernel
    rw [hprint] at hfuel ⊢
    obtain ⟨fuel, rfl⟩ := Nat.exists_eq_succ_of_ne_zero (Nat.ne_zero_of_lt hfuel)
    rfl
  | cons item items =>
    obtain ⟨hitem, hitems⟩ := List.forall_mem_cons.mp h
    rw [print, enclosed] at hfuel ⊢
    obtain ⟨fuel, rfl⟩ := Nat.exists_eq_succ_of_ne_zero (Nat.ne_zero_of_lt hfuel)
    simp only [List.length_append, List.length_cons] at hfuel
    have hread := items_print (depth + 1) depth hitem hitems fuel rest (by omega)
    have hopen : ∀ bytes, skipBlanks (0x5B :: bytes) = 0x5B :: bytes := fun _ => rfl
    have hends : Ends (printItems (depth + 1) items ++ (newLine depth ++ 0x5D :: rest)) := by
      cases items with
      | nil => exact ends_newLine depth _
      | cons => exact .comma _
    simp only [List.append_assoc, List.cons_append, List.nil_append]
    rw [Reader.value, hopen]
    dsimp only
    rw [if_neg (by decide), if_pos rfl, skipBlanks_newLine]
    split
    next after hclose => exact absurd hclose (skipBlanks_print_ne hitem _ hends after)
    next =>
      rw [items_of_skipBlanks (skipBlanks_skipBlanks _), hread]
      rfl

theorem members_print (depth outer : Nat) (name : Bytes) {value : Json}
    {members : List (Bytes × Json)} (hvalue : ReadsBack value)
    (h : ∀ m ∈ members, ReadsBack m.2) (fuel : Nat) (rest : Bytes)
    (hfuel : (print depth value).length + (printMembers depth members).length < fuel) :
    Reader.members fuel
        (quote name ++ 0x3A :: 0x20 :: (print depth value ++
          (printMembers depth members ++ (newLine outer ++ 0x7D :: rest)))) =
      some ((name, value) :: members, rest) := by
  induction members generalizing name value fuel with
  | nil =>
    obtain ⟨fuel, rfl⟩ := Nat.exists_eq_succ_of_ne_zero (Nat.ne_zero_of_lt hfuel)
    exact members_last name hvalue (by omega) outer rest
  | cons next members ih =>
    obtain ⟨fuel, rfl⟩ := Nat.exists_eq_succ_of_ne_zero (Nat.ne_zero_of_lt hfuel)
    obtain ⟨hnext, hmembers⟩ := List.forall_mem_cons.mp h
    simp only [printMembers, List.length_append, List.length_cons] at hfuel
    have htail := ih next.1 hnext hmembers fuel (by omega)
    simp only [printMembers, List.append_assoc, List.cons_append, List.nil_append]
    rw [members_comma name hvalue (by omega), members_of_skipBlanks (skipBlanks_newLine depth _),
      htail]
    rfl

theorem readsBack_object {members : List (Bytes × Json)} (h : ∀ m ∈ members, ReadsBack m.2) :
    ReadsBack (.object members) := by
  intro depth fuel rest hfuel hrest
  cases members with
  | nil =>
    rw [print] at hfuel ⊢
    obtain ⟨fuel, rfl⟩ := Nat.exists_eq_succ_of_ne_zero (Nat.ne_zero_of_lt hfuel)
    rfl
  | cons m members =>
    obtain ⟨hm, hmembers⟩ := List.forall_mem_cons.mp h
    rw [print, enclosed] at hfuel ⊢
    obtain ⟨fuel, rfl⟩ := Nat.exists_eq_succ_of_ne_zero (Nat.ne_zero_of_lt hfuel)
    simp only [List.length_append, List.length_cons] at hfuel
    have hread := members_print (depth + 1) depth m.1 hm hmembers fuel rest (by omega)
    have hopen : ∀ bytes, skipBlanks (0x7B :: bytes) = 0x7B :: bytes := fun _ => rfl
    have hquote : ∀ bytes, skipBlanks (quote m.1 ++ bytes) = quote m.1 ++ bytes := fun _ => rfl
    simp only [List.append_assoc, List.cons_append, List.nil_append]
    rw [Reader.value, hopen]
    dsimp only
    rw [if_pos rfl, skipBlanks_newLine, hquote]
    split
    next after hclose => cases hclose
    next => rw [hread]; rfl

theorem readsBack_of_isPlain {v : Json} (h : IsPlain v) : ReadsBack v := by
  induction h with
  | null => exact readsBack_null
  | bool value => exact readsBack_bool value
  | integer n => exact readsBack_integer n
  | string contents => exact readsBack_string contents
  | array items _ ih => exact readsBack_array ih
  | object members _ ih => exact readsBack_object ih

/-- A value that is read back is what its print denotes, also with a line feed behind it. -/
theorem ReadsBack.ofBytes? {v : Json} (h : ReadsBack v) {rest : Bytes} (hrest : Ends rest)
    (hblank : skipBlanks rest = []) : Json.ofBytes? (v.toBytes ++ rest) = some v := by
  have hvalue := h 0 (2 * (v.toBytes ++ rest).length + 2) rest
    (by rw [List.length_append, toBytes]; omega) hrest
  rw [← toBytes] at hvalue
  rw [Json.ofBytes?, hvalue]
  exact if_pos hblank

/-- A value whose print says all about it is what its print denotes. -/
theorem ofBytes?_toBytes {v : Json} (h : IsPlain v) : ofBytes? v.toBytes = some v := by
  have hvalue := (readsBack_of_isPlain h).ofBytes? .nothing rfl
  rwa [List.append_nil] at hvalue

end Json

end Savegame
