/-
# Addresses and their texts

A **numeral** is decimal digits after an optional plus sign, with any white space around them, whose value is below
`2 ^ 64`.  A text **writes** an address when it is two numerals with a slash between them.

`addresses_are_read_back` says that reading accepts exactly the texts that write an address, and gives the address
that they write; that the displayed form of an address is such a text; and that the address of a command, once read,
passes the check against the suite.
-/
import BlockFlow.Command
import BlockFlow.Proofs.Splitting
import Mathlib.Data.Nat.Digits.Defs

namespace BlockFlow

open Text

/-! ## 1. Trimming -/

/-- What trimming leaves of a text stands between white space. -/
theorem Text.exists_padding (cs : List Char) : ∃ before after : List Char,
    before.all isBlank = true ∧ after.all isBlank = true ∧ cs = before ++ trimChars cs ++ after := by
  refine ⟨cs.takeWhile isBlank, ((cs.dropWhile isBlank).reverse.takeWhile isBlank).reverse, ?_, ?_, ?_⟩
  · simp
  · simp
  · have hback : (cs.dropWhile isBlank).reverse = (cs.dropWhile isBlank).reverse.takeWhile isBlank ++
        (cs.dropWhile isBlank).reverse.dropWhile isBlank := (List.takeWhile_append_dropWhile ..).symm
    have hfront : cs = cs.takeWhile isBlank ++ cs.dropWhile isBlank := (List.takeWhile_append_dropWhile ..).symm
    have hrest : cs.dropWhile isBlank =
        trimChars cs ++ ((cs.dropWhile isBlank).reverse.takeWhile isBlank).reverse := by
      rw [trimChars, ← List.reverse_append, ← hback, List.reverse_reverse]
    calc
      cs = cs.takeWhile isBlank ++ cs.dropWhile isBlank := hfront
      _ = cs.takeWhile isBlank ++
          (trimChars cs ++ ((cs.dropWhile isBlank).reverse.takeWhile isBlank).reverse) :=
            congrArg (cs.takeWhile isBlank ++ ·) hrest
      _ = _ := by rw [List.append_assoc]

namespace Address

/-! ## 2. Numerals -/

/-- The number that decimal digits write, the last of them counting for ones. -/
def digitsValue (digits : List Char) : Nat := Nat.ofDigits 10 (digits.reverse.map fun c => c.toNat - '0'.toNat)

/-- **How a number below `2 ^ 64` may be written**: an optional plus sign and decimal digits, one at least, with white
space around them. -/
inductive Numeral : List Char → Nat → Prop
  | mk {before sign digits after : List Char} : before.all isBlank = true → after.all isBlank = true →
      sign ∈ [[], ['+']] → digits ≠ [] → digits.all Char.isDigit = true → digitsValue digits < 2 ^ 64 →
      Numeral (before ++ (sign ++ digits) ++ after) (digitsValue digits)

/-- **How an address may be written**: two numerals with a slash between them. -/
inductive Written : List Char → Address → Prop
  | mk {left right : List Char} {a : Address} : Numeral left a.unit → Numeral right a.position →
      Written (left ++ '/' :: right) a

/-- Reading digits from the left counts each of them for its place. -/
theorem foldl_digits (cs : List Char) (n : Nat) :
    cs.foldl (fun n c => 10 * n + (c.toNat - 48)) n = 10 ^ cs.length * n + digitsValue cs := by
  induction cs generalizing n with
  | nil => simp [digitsValue]
  | cons c cs ih =>
    have hcons : digitsValue (c :: cs) = digitsValue cs + 10 ^ cs.length * (c.toNat - 48) := by
      simp [digitsValue, Nat.ofDigits_append]
    rw [List.foldl_cons, ih, hcons, List.length_cons, Nat.pow_succ]
    ring

theorem digitsValue?_eq_some_iff {cs : List Char} {n : Nat} :
    digitsValue? cs = some n ↔ cs ≠ [] ∧ cs.all Char.isDigit = true ∧ digitsValue cs < 2 ^ 64 ∧ digitsValue cs = n := by
  have hfold : cs.foldl (fun n c => 10 * n + (c.toNat - 48)) 0 = digitsValue cs := by simpa using foldl_digits cs 0
  have hlimit : limit = 2 ^ 64 - 1 := rfl
  unfold digitsValue?
  split
  · rename_i hbad
    simp only [Bool.or_eq_true, List.isEmpty_iff, Bool.not_eq_true'] at hbad
    constructor
    · intro h
      cases h
    · rintro ⟨hne, hall, -, -⟩
      rcases hbad with hnil | hnot
      · exact absurd hnil hne
      · rw [hall] at hnot
        cases hnot
  · rename_i hgood
    simp only [Bool.or_eq_true, List.isEmpty_iff, Bool.not_eq_true', not_or, Bool.not_eq_false] at hgood
    simp only [hfold]
    split
    · rename_i hle
      rw [Option.some.injEq]
      exact ⟨fun h => ⟨hgood.1, hgood.2, by omega, h⟩, fun h => h.2.2.2⟩
    · rename_i hgt
      constructor
      · intro h
        cases h
      · rintro ⟨-, -, hlt, -⟩
        omega

/-- A digit is neither a sign nor a slash nor white space. -/
theorem isBlank_of_isDigit {c : Char} (h : c.isDigit = true) : isBlank c = false ∧ c ≠ '+' ∧ c ≠ '/' := by
  obtain ⟨hlow, hhigh⟩ : 48 ≤ c.toNat ∧ c.toNat ≤ 57 := Char.isDigit_iff_toNat.1 h
  refine ⟨?_, ?_, ?_⟩
  · simp only [isBlank, Bool.or_eq_false_iff, Bool.and_eq_false_iff, decide_eq_false_iff_not, beq_eq_false_iff_ne]
    omega
  · rintro rfl
    revert hlow
    decide
  · rintro rfl
    revert hlow
    decide

theorem count?_eq_some_iff {cs : List Char} {n : Nat} : count? cs = some n ↔
    ∃ sign digits, cs = sign ++ digits ∧ sign ∈ [[], ['+']] ∧ digits ≠ [] ∧ digits.all Char.isDigit = true ∧
      digitsValue digits < 2 ^ 64 ∧ digitsValue digits = n := by
  constructor
  · intro h
    unfold count? at h
    split at h
    · exact ⟨['+'], _, rfl, by simp, digitsValue?_eq_some_iff.1 h⟩
    · exact ⟨[], _, rfl, by simp, digitsValue?_eq_some_iff.1 h⟩
  · rintro ⟨sign, digits, rfl, hsign, h⟩
    have hdigits : digitsValue? digits = some n := digitsValue?_eq_some_iff.2 h
    rcases List.mem_cons.1 hsign with rfl | hsign
    · rw [List.nil_append]
      unfold count?
      split
      · exact absurd rfl (isBlank_of_isDigit (List.all_eq_true.1 h.2.1 '+' List.mem_cons_self)).2.1
      · exact hdigits
    · obtain rfl := List.mem_singleton.1 hsign
      exact hdigits

/-- What a sign and digits make up has no white space at its ends. -/
theorem trimChars_count {sign digits : List Char} (hsign : sign ∈ [[], ['+']]) (hne : digits ≠ [])
    (hall : digits.all Char.isDigit = true) : trimChars (sign ++ digits) = sign ++ digits := by
  refine trimChars_eq_self ?_ ?_
  · intro c hc
    rcases List.mem_cons.1 hsign with rfl | hsign
    · exact (isBlank_of_isDigit (List.all_eq_true.1 hall c (List.mem_of_mem_head? hc))).1
    · obtain rfl := List.mem_singleton.1 hsign
      obtain rfl : '+' = c := by simpa using hc
      decide
  · intro c hc
    rw [List.getLast?_append_of_ne_nil _ hne] at hc
    exact (isBlank_of_isDigit (List.all_eq_true.1 hall c (List.mem_of_mem_getLast? hc))).1

/-- **A count with white space around it is a numeral**, and no other text is one. -/
theorem paddedCount?_eq_some_iff {cs : List Char} {n : Nat} : paddedCount? cs = some n ↔ Numeral cs n := by
  unfold paddedCount?
  constructor
  · intro h
    obtain ⟨sign, digits, htrim, hsign, hne, hall, hlt, rfl⟩ := count?_eq_some_iff.1 h
    obtain ⟨before, after, hbefore, hafter, hcs⟩ := exists_padding cs
    rw [hcs, htrim]
    exact .mk hbefore hafter hsign hne hall hlt
  · rintro ⟨hbefore, hafter, hsign, hne, hall, hlt⟩
    rw [trimChars_padded hbefore hafter (by simp [hne]) (trimChars_count hsign hne hall)]
    exact count?_eq_some_iff.2 ⟨_, _, rfl, hsign, hne, hall, hlt, rfl⟩

theorem Numeral.lt {cs : List Char} {n : Nat} (h : Numeral cs n) : n < 2 ^ 64 := by
  obtain ⟨-, -, -, -, -, hlt⟩ := h
  exact hlt

/-- There is no slash in a numeral. -/
theorem Numeral.no_slash {cs : List Char} {n : Nat} (h : Numeral cs n) : '/' ∉ cs := by
  obtain ⟨hbefore, hafter, hsign, -, hall, -⟩ := h
  have hblank {ds : List Char} (hds : ds.all isBlank = true) : '/' ∉ ds := by
    intro hmem
    have hslash := List.all_eq_true.1 hds '/' hmem
    revert hslash
    decide
  simp only [List.mem_append, not_or]
  refine ⟨⟨hblank hbefore, ?_, ?_⟩, hblank hafter⟩
  · intro hmem
    simp only [List.mem_cons, List.not_mem_nil, or_false] at hsign
    rcases hsign with rfl | rfl
    · cases hmem
    · revert hmem
      decide
  · intro hmem
    exact (isBlank_of_isDigit (List.all_eq_true.1 hall '/' hmem)).2.2 rfl

/-! ## 3. Reading addresses -/

/-- A text is split at its first slash. -/
theorem splitSlash_eq_some_iff {cs left right : List Char} :
    splitSlash cs = some (left, right) ↔ cs = left ++ '/' :: right ∧ '/' ∉ left := by
  induction cs generalizing left with
  | nil => simp [splitSlash]
  | cons c cs ih =>
    by_cases hc : c = '/'
    · subst hc
      cases left with
      | nil => simp [splitSlash]
      | cons d left =>
        rw [splitSlash]
        simp only [Option.some.injEq, Prod.mk.injEq, List.nil_eq, reduceCtorEq, false_and, List.cons_append,
          List.cons.injEq, List.mem_cons, not_or, false_iff, not_and]
        rintro ⟨rfl, -⟩ hne
        exact absurd rfl hne
    · rw [splitSlash.eq_3 _ _ (fun h => hc h)]
      cases left with
      | nil => simp [hc]
      | cons d left =>
        simp only [Option.map_eq_some_iff, Prod.exists, Prod.mk.injEq, List.cons.injEq, List.cons_append,
          List.mem_cons, not_or]
        constructor
        · rintro ⟨a, b, hab, ⟨rfl, rfl⟩, rfl⟩
          obtain ⟨rfl, hleft⟩ := ih.1 hab
          exact ⟨⟨rfl, rfl⟩, Ne.symm hc, hleft⟩
        · rintro ⟨⟨rfl, rfl⟩, -, hleft⟩
          exact ⟨left, right, ih.2 ⟨rfl, hleft⟩, ⟨rfl, rfl⟩, rfl⟩

/-- **The characters that are read as an address** are those that write it. -/
theorem ofChars?_eq_some_iff {cs : List Char} {a : Address} : ofChars? cs = some a ↔ Written cs a := by
  unfold ofChars?
  constructor
  · intro h
    simp only [Option.bind_eq_bind, Option.bind_eq_some_iff, Prod.exists] at h
    obtain ⟨left, right, hsplit, unit, hunit, position, hposition, ha⟩ := h
    cases ha
    obtain ⟨rfl, -⟩ := splitSlash_eq_some_iff.1 hsplit
    exact .mk (paddedCount?_eq_some_iff.1 hunit) (paddedCount?_eq_some_iff.1 hposition)
  · rintro ⟨hunit, hposition⟩
    rw [splitSlash_eq_some_iff.2 ⟨rfl, hunit.no_slash⟩]
    simp [paddedCount?_eq_some_iff.2 hunit, paddedCount?_eq_some_iff.2 hposition]

theorem parse_eq_ok_iff {text : String} {a : Address} : parse text = .ok a ↔ Written text.toList a := by
  rw [← ofChars?_eq_some_iff, parse]
  cases ofChars? text.toList <;> simp

/-- A text that writes no address is refused. -/
theorem parse_of_not_written {text : String} (h : ∀ a, ¬ Written text.toList a) :
    parse text = .error (malformed text) := by
  rw [parse]
  cases hread : ofChars? text.toList with
  | none => rfl
  | some a => exact absurd (ofChars?_eq_some_iff.1 hread) (h a)

/-- A text that writes an address has one slash, and both numbers are below `2 ^ 64`. -/
theorem Written.bounds {cs : List Char} {a : Address} (h : Written cs a) :
    a.unit < 2 ^ 64 ∧ a.position < 2 ^ 64 ∧ cs.count '/' = 1 := by
  obtain ⟨hunit, hposition⟩ := h
  refine ⟨hunit.lt, hposition.lt, ?_⟩
  rw [List.count_append, List.count_cons_self, List.count_eq_zero_of_not_mem hunit.no_slash,
    List.count_eq_zero_of_not_mem hposition.no_slash]

/-! ## 4. Displayed addresses -/

/-- The decimal digits of a number have its value. -/
theorem digitsValue_toDigits (n : Nat) : digitsValue (Nat.toDigits 10 n) = n := by
  have hfold := foldl_digits (Nat.toDigits 10 n) 0
  have hvalue : Nat.ofDigitChars 10 (Nat.toDigits 10 n) 0 = n := Nat.ofDigitChars_toDigits (by decide) (by decide)
  rw [Nat.ofDigitChars] at hvalue
  rw [Nat.mul_zero, Nat.zero_add] at hfold
  rw [← hfold]
  exact hvalue

/-- The displayed form of a number is a numeral of it. -/
theorem numeral_toString {n : Nat} (h : n < 2 ^ 64) : Numeral (toString n).toList n := by
  have hdigits : (toString n).toList = [] ++ ([] ++ Nat.toDigits 10 n) ++ [] := by simp
  have hnumeral : Numeral ([] ++ ([] ++ Nat.toDigits 10 n) ++ []) (digitsValue (Nat.toDigits 10 n)) := by
    refine .mk rfl rfl (by simp) Nat.toDigits_ne_nil ?_ ?_
    · exact List.all_eq_true.2 fun c hc => Nat.isDigit_of_mem_toDigits (by decide) (by decide) hc
    · rwa [digitsValue_toDigits]
  rwa [digitsValue_toDigits, ← hdigits] at hnumeral

/-- The displayed form of an address writes it. -/
theorem written_toText {a : Address} (hunit : a.unit < 2 ^ 64) (hposition : a.position < 2 ^ 64) :
    Written a.toText.toList a := by
  have htext : a.toText.toList = (toString a.unit).toList ++ '/' :: (toString a.position).toList := by
    simp [toText]
  rw [htext]
  exact .mk (numeral_toString hunit) (numeral_toString hposition)

/-- **Addresses are read back, and nothing else is read.**  The displayed form of an address is read as the address;
a text is read as an address exactly if it writes it, so that both numbers are below `2 ^ 64` and there is one slash;
every other text is malformed; and what is read from a text that writes the address of a command of a suite, as the
displayed form does, passes the check against the suite. -/
theorem addresses_are_read_back :
    (∀ a : Address, a.unit < 2 ^ 64 → a.position < 2 ^ 64 → parse a.toText = .ok a) ∧
    (∀ (text : String) (a : Address), parse text = .ok a ↔ Written text.toList a) ∧
    (∀ (text : String) (a : Address), Written text.toList a →
      a.unit < 2 ^ 64 ∧ a.position < 2 ^ 64 ∧ text.toList.count '/' = 1) ∧
    (∀ text : String, (∀ a, ¬ Written text.toList a) →
      parse text = .error (malformed text) ∧ (malformed text).code = "ADDRESS_MALFORMED") ∧
    (∀ (units : List ScriptUnit) (text : String) (a : Address), Written text.toList a →
      (commandAt? units a).isSome → ∃ b, parse text = .ok b ∧ b.check units = .ok a) ∧
    ∀ (units : List ScriptUnit) (a : Address), (commandAt? units a).isSome → a.unit < 2 ^ 64 →
      a.position < 2 ^ 64 → ∃ b, parse a.toText = .ok b ∧ b.check units = .ok a := by
  have hback {a : Address} (hunit : a.unit < 2 ^ 64) (hposition : a.position < 2 ^ 64) : parse a.toText = .ok a :=
    parse_eq_ok_iff.2 (written_toText hunit hposition)
  refine ⟨?_, ?_, ?_, ?_, ?_, ?_⟩
  · intro a hunit hposition
    exact hback hunit hposition
  · intro text a
    exact parse_eq_ok_iff
  · intro text a h
    exact h.bounds
  · intro text h
    exact ⟨parse_of_not_written h, rfl⟩
  · intro units text a h hcommand
    exact ⟨a, parse_eq_ok_iff.2 h, check_eq_ok_iff.2 ⟨rfl, hcommand⟩⟩
  · intro units a hcommand hunit hposition
    exact ⟨a, hback hunit hposition, check_eq_ok_iff.2 ⟨rfl, hcommand⟩⟩

/-- A plus sign, leading zeros and white space are read over, up to the greatest number. -/
theorem last_address_is_read_back :
    Written " +007/\u30000018446744073709551615 ".toList ⟨7, 2 ^ 64 - 1⟩ ∧
    parse " +007/\u30000018446744073709551615 " = .ok ⟨7, 2 ^ 64 - 1⟩ ∧
    parse (toText ⟨7, 2 ^ 64 - 1⟩) = .ok ⟨7, 2 ^ 64 - 1⟩ := by
  have hleft : Numeral " +007".toList 7 := @Numeral.mk [' '] ['+'] "007".toList [] rfl rfl (by simp) (by decide)
    (by decide) (by decide)
  have hright : Numeral "\u30000018446744073709551615 ".toList (2 ^ 64 - 1) := by
    have hchars : "\u30000018446744073709551615 ".toList =
        ['\u3000'] ++ ([] ++ "0018446744073709551615".toList) ++ [' '] := by decide +kernel
    have hvalue : digitsValue "0018446744073709551615".toList = 2 ^ 64 - 1 := by decide +kernel
    rw [hchars, ← hvalue]
    exact .mk (by decide) (by decide) (by simp) (by decide) (by decide) (by decide +kernel)
  have hsplit : " +007/\u30000018446744073709551615 ".toList =
      " +007".toList ++ '/' :: "\u30000018446744073709551615 ".toList := by decide
  have hwritten : Written " +007/\u30000018446744073709551615 ".toList ⟨7, 2 ^ 64 - 1⟩ := by
    rw [hsplit]
    exact .mk hleft hright
  exact ⟨hwritten, (addresses_are_read_back.2.1 _ _).2 hwritten,
    addresses_are_read_back.1 _ (by decide) (by decide)⟩

/-- The number after the greatest one, a sign alone and a second slash are refused. -/
example : ["18446744073709551616/0", "+/0", "0/0/0", "0", "-1/0"].all (fun text => (ofChars? text.toList).isNone) := by
  decide

end Address

end BlockFlow
