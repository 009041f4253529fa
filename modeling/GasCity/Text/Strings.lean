import Mathlib.Data.Finset.Sort
import Mathlib.Data.List.Infix
import Mathlib.Data.String.Basic

/-! # Texts

The functions of Go's `strings`, `strconv` and `sort` packages that the modelled code uses.
-/

namespace GasCity

/-- Go's `strings.Cut` at one character: the text before and after its first occurrence. -/
def cut (sep : Char) : List Char → Option (List Char × List Char)
  | [] => none
  | c :: cs => if c = sep then some ([], cs) else (cut sep cs).map fun (p, s) => (c :: p, s)

/-- Go's `strings.HasPrefix`. -/
def hasPrefix (s p : String) : Bool :=
  p.toList.isPrefixOf s.toList

/-- Go's `strings.HasSuffix`. -/
def hasSuffix (s suffix : String) : Bool :=
  decide (suffix.toList <:+ s.toList)

/-- Go's `strings.Fields`, for fields between blanks, tabs and line ends. -/
def fields (s : String) : List String :=
  ((s.toList.splitOnP Char.isWhitespace).filter (· ≠ [])).map String.ofList

/-- Go's `strings.Split` at one character. -/
def stringsSplit (sep : Char) (s : String) : List String :=
  (s.toList.splitOnP (· == sep)).map String.ofList

def trimPrefix (s start : String) : String :=
  if hasPrefix s start then .ofList (s.toList.drop start.toList.length) else s

def trimSuffix (s rest : String) : String :=
  if rest.toList.isSuffixOf s.toList then
    .ofList (s.toList.take (s.toList.length - rest.toList.length))
  else s

/-- Go's `strings.ToLower`. -/
def toLower (s : String) : String := String.ofList (s.toList.map Char.toLower)

/-- Go's `strings.EqualFold` on ASCII texts. -/
def equalFold (s t : String) : Bool :=
  s.toLower == t.toLower

/-- Go's `sort.Strings`, on a set of strings. -/
def sortStrings (s : Finset String) : List String :=
  s.sort (· ≤ ·)

def parseDigits (digits : List Char) : Option ℕ :=
  if digits ≠ [] ∧ digits.all Char.isDigit then some (Nat.ofDigitChars 10 digits 0) else none

/-- Go's `strconv.Atoi`, on numbers of any size. -/
def atoi (s : String) : Option ℤ :=
  match s.toList with
  | '-' :: digits => (parseDigits digits).map fun n => -(n : ℤ)
  | '+' :: digits => (parseDigits digits).map fun n => (n : ℤ)
  | digits => (parseDigits digits).map fun n => (n : ℤ)

theorem atoi_toString (n : ℕ) : atoi (toString n) = some (n : ℤ) := by
  have hlist : (toString n).toList = Nat.toDigits 10 n := by
    rw [Nat.toString_eq_ofList_toDigits, String.toList_ofList]
  have hdigit : ∀ c ∈ Nat.toDigits 10 n, c.isDigit = true := fun c hc =>
    Nat.isDigit_of_mem_toDigits (by decide) (by decide) hc
  have hparse : parseDigits (Nat.toDigits 10 n) = some n := by
    rw [parseDigits, if_pos ⟨Nat.toDigits_ne_nil, List.all_eq_true.mpr hdigit⟩,
      Nat.ofDigitChars_ten_toDigits]
  unfold atoi
  rw [hlist]
  split
  · next digits heq =>
    exact absurd (hdigit '-' (heq ▸ List.mem_cons_self ..)) (by decide)
  · next digits heq =>
    exact absurd (hdigit '+' (heq ▸ List.mem_cons_self ..)) (by decide)
  · rw [hparse]
    rfl

end GasCity
