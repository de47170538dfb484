import Mathlib.Algebra.Order.Ring.Nat
import Mathlib.Data.List.TakeWhile

/-! Decimal numerals of a C++ `int`: `std::to_string` and `std::stoi`. -/

namespace Base

/-- Texts are lists of characters. -/
abbrev Text := List Char

instance : LawfulBEq Text := inferInstance

/-- `std::to_string(int)`. -/
def toText (n : Int32) : Text :=
  if n.toInt < 0 then '-' :: Nat.toDigits 10 n.toInt.natAbs else Nat.toDigits 10 n.toInt.natAbs

/-- `isspace` in the C locale. -/
def isSpace (c : Char) : Bool := c == ' ' || (9 ≤ c.toNat && c.toNat ≤ 13)

/-- An `int` of the given value, if there is one. -/
def narrow (value : Int) : Option Int32 :=
  if -2 ^ 31 ≤ value ∧ value < 2 ^ 31 then some (.ofInt value) else none

/-- The digits at the front of a text as a number, if there are any. -/
def leadingDigits (text : Text) : Option Nat :=
  match text.takeWhile Char.isDigit with
  | [] => none
  | digits => some (Nat.ofDigitChars 10 digits 0)

/-- `std::stoi`: white space, a sign, the longest run of digits; `none` where it throws. -/
def stoi (text : Text) : Option Int32 :=
  match text.dropWhile isSpace with
  | '-' :: rest => leadingDigits rest >>= fun n => narrow (-n)
  | '+' :: rest => leadingDigits rest >>= fun n => narrow n
  | rest => leadingDigits rest >>= fun n => narrow n

theorem isDigit_toDigits {n : Nat} {c : Char} (mem : c ∈ Nat.toDigits 10 n) : c.isDigit = true :=
  Nat.isDigit_of_mem_toDigits (by decide) (by decide) mem

theorem toText_chars {n : Int32} {c : Char} (mem : c ∈ toText n) : c = '-' ∨ c.isDigit = true := by
  unfold toText at mem
  split at mem
  · rcases List.mem_cons.mp mem with rfl | mem
    · exact .inl rfl
    · exact .inr (isDigit_toDigits mem)
  · exact .inr (isDigit_toDigits mem)

theorem toText_free {c : Char} (sign : c ≠ '-') (digit : c.isDigit = false) (n : Int32) : c ∉ toText n := by
  intro mem
  rcases toText_chars mem with rfl | isDigit
  · exact sign rfl
  · rw [digit] at isDigit
    cases isDigit

theorem toText_ne_nil (n : Int32) : toText n ≠ [] := by
  unfold toText
  split
  · simp
  · exact Nat.toDigits_ne_nil

theorem leadingDigits_toDigits (n : Nat) : leadingDigits (Nat.toDigits 10 n) = some n := by
  have digits : (Nat.toDigits 10 n).takeWhile Char.isDigit = Nat.toDigits 10 n :=
    List.takeWhile_eq_self_iff.mpr fun _ mem => isDigit_toDigits mem
  have nonempty : Nat.toDigits 10 n ≠ [] := Nat.toDigits_ne_nil
  unfold leadingDigits
  rw [digits]
  split
  · contradiction
  · rw [Nat.ofDigitChars_ten_toDigits]

theorem narrow_toInt (n : Int32) : narrow n.toInt = some n := by
  rw [narrow, if_pos ⟨Int32.le_toInt n, Int32.toInt_lt n⟩, Int32.ofInt_toInt]

theorem isDigit_not_isSpace {c : Char} (digit : c.isDigit = true) : isSpace c = false := by
  have bounds : 48 ≤ c.toNat ∧ c.toNat ≤ 57 := by
    simp only [Char.isDigit, Bool.and_eq_true, decide_eq_true_eq, ge_iff_le, UInt32.le_iff_toNat_le] at digit
    exact digit
  have blank : c ≠ ' ' := by
    rintro rfl
    exact absurd digit (by decide)
  simp only [isSpace, beq_eq_false_iff_ne.mpr blank, Bool.false_or, Bool.and_eq_false_iff,
    decide_eq_false_iff_not]
  omega

theorem stoi_toDigits (n : Nat) : stoi (Nat.toDigits 10 n) = narrow n := by
  obtain ⟨c, digits, eq⟩ := List.exists_cons_of_ne_nil (Nat.toDigits_ne_nil (n := n) (b := 10))
  have digit : c.isDigit = true := isDigit_toDigits (n := n) (by simp [eq])
  have read := leadingDigits_toDigits n
  rw [eq] at read ⊢
  have same : (c :: digits).dropWhile isSpace = c :: digits := by
    simp [isDigit_not_isSpace digit]
  unfold stoi
  rw [same]
  split
  · rename_i heq
    rw [(List.cons.inj heq).1] at digit
    exact absurd digit (by decide)
  · rename_i heq
    rw [(List.cons.inj heq).1] at digit
    exact absurd digit (by decide)
  · rw [read, Option.bind_eq_bind, Option.bind_some]

theorem stoi_toText (n : Int32) : stoi (toText n) = some n := by
  unfold toText
  split
  · rename_i negative
    have value : -((n.toInt.natAbs : Nat) : Int) = n.toInt := by omega
    show (leadingDigits (Nat.toDigits 10 n.toInt.natAbs) >>= fun k => narrow (-k)) = some n
    rw [leadingDigits_toDigits, Option.bind_eq_bind, Option.bind_some, value, narrow_toInt]
  · rename_i positive
    have value : ((n.toInt.natAbs : Nat) : Int) = n.toInt := by omega
    rw [stoi_toDigits, value, narrow_toInt]

theorem toText_inj {m n : Int32} : toText m = toText n ↔ m = n := by
  refine ⟨fun same => ?_, congrArg toText⟩
  have decoded := congrArg stoi same
  rw [stoi_toText, stoi_toText] at decoded
  exact Option.some.inj decoded

end Base
