/-
# White space and trimming

The `White_Space` property of Unicode, twenty-five characters in ten ranges, and the trimming of a
text at both ends by it.  Every name, target and address part is trimmed this way.

`trimChars_idem` says that a trimmed text has nothing left to trim, and `trimChars_eq_self` which
texts are left alone.
-/

namespace BlockFlow.Text

/-! ## 1. The property -/

/-- The characters with the property `White_Space`. -/
def isBlank (c : Char) : Bool :=
  let n := c.toNat
  (0x09 ≤ n && n ≤ 0x0D) || n == 0x20 || n == 0x85 || n == 0xA0 || n == 0x1680 ||
    (0x2000 ≤ n && n ≤ 0x200A) || n == 0x2028 || n == 0x2029 || n == 0x202F || n == 0x205F ||
    n == 0x3000

/-- Whether a text holds nothing but white space; the empty text does. -/
def allBlank (s : String) : Bool := s.toList.all isBlank

/-! ## 2. Trimming -/

/-- The characters from the first to the last that are not white space. -/
def trimChars (cs : List Char) : List Char :=
  ((cs.dropWhile isBlank).reverse.dropWhile isBlank).reverse

/-- A text without the white space at its two ends. -/
def trim (s : String) : String := String.ofList (trimChars s.toList)

@[simp] theorem trimChars_nil : trimChars [] = [] := rfl

@[simp] theorem toList_trim (s : String) : (trim s).toList = trimChars s.toList := by
  simp [trim]

/-- A text that neither starts nor ends with white space is left alone. -/
theorem trimChars_eq_self {cs : List Char} (hd : ∀ c ∈ cs.head?, isBlank c = false)
    (tl : ∀ c ∈ cs.getLast?, isBlank c = false) : trimChars cs = cs := by
  have h1 : cs.dropWhile isBlank = cs := by
    cases cs with
    | nil => rfl
    | cons c r => simp [List.dropWhile, hd c (by simp)]
  have h2 : cs.reverse.dropWhile isBlank = cs.reverse := by
    cases hr : cs.reverse with
    | nil => rfl
    | cons c r =>
      have : c ∈ cs.getLast? := by simp [← List.head?_reverse, hr]
      simp [List.dropWhile, tl c this]
  rw [trimChars, h1, h2, List.reverse_reverse]

/-- A trimmed text has nothing left to trim. -/
theorem trimChars_idem (cs : List Char) : trimChars (trimChars cs) = trimChars cs := by
  have hhead (ds : List Char) : ∀ c ∈ (ds.dropWhile isBlank).head?, isBlank c = false := by
    intro c hc
    have := List.head?_dropWhile_not isBlank ds
    rw [hc] at this
    exact this
  refine trimChars_eq_self (fun c hc => hhead cs c ?_) fun c hc => ?_
  · obtain ⟨rest, hrest⟩ :=
      List.reverse_prefix.2 (List.dropWhile_suffix (l := (cs.dropWhile isBlank).reverse) isBlank)
    rw [List.reverse_reverse] at hrest
    rw [Option.mem_def, trimChars] at hc
    rw [Option.mem_def, ← hrest, List.head?_append, hc, Option.some_or]
  · rw [trimChars, List.getLast?_reverse] at hc
    exact hhead _ c hc

@[simp] theorem trim_trim (s : String) : trim (trim s) = trim s := by
  rw [trim, toList_trim, trimChars_idem, trim]

end BlockFlow.Text
