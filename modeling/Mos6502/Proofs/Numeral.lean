import Mathlib.Algebra.Ring.Nat
import Mos6502.Address
import Mos6502.Printing

/-! Numerals read back. A number that its width can hold is written in exactly as many digits, and
the digits, in either case, give the number again. -/
namespace Mos6502.Numeral

def isDigit (c : Char) : Bool :=
  (Address.digit? c).isSome

theorem isDigit_ne {c mark : Char} (digit : isDigit c = true) (other : isDigit mark = false) :
    (c != mark) = true := by
  apply bne_iff_ne.mpr
  rintro rfl
  cases digit.symm.trans other

/- The number that digits give behind those that gave `start`, most significant first. -/
def valueFrom (base start : Nat) (digits : List Char) : Nat :=
  digits.foldl (fun n c => base * n + (Address.digit? c).getD 0) start

def value (base : Nat) (digits : List Char) : Nat :=
  valueFrom base 0 digits

/- The text is a numeral of that width for `n`, and of nothing else. -/
structure Writes (base width n : Nat) (text : List Char) : Prop where
  length : text.length = width
  digits : ∀ c ∈ text, isDigit c = true
  value : value base text = n

theorem Writes.unique {base width m n : Nat} {text : List Char} (one : Writes base width m text)
    (other : Writes base width n text) : m = n :=
  one.value.symm.trans other.value

theorem digit?_digitChar : ∀ d < 16, Address.digit? d.digitChar = some d := by decide

theorem digit?_toUpper : ∀ d < 16, Address.digit? d.digitChar.toUpper = some d := by decide

/-- The digits are those of hexadecimal numbers, with letters in either case. -/
theorem digit?_eq_some_iff (c : Char) (d : Nat) :
    Address.digit? c = some d ↔ d < 16 ∧ (c = d.digitChar ∨ c = d.digitChar.toUpper) := by
  constructor
  · intro read
    have ascii : c.toNat < 128 := by
      unfold Address.digit? at read
      split at read
      · rename_i bounds
        exact Nat.lt_of_le_of_lt bounds.2 (by decide)
      · split at read
        · rename_i bounds
          exact Nat.lt_of_le_of_lt bounds.2 (by decide)
        · split at read
          · rename_i bounds
            exact Nat.lt_of_le_of_lt bounds.2 (by decide)
          · cases read
    have checked : ∀ n < 128, ∀ d ∈ Address.digit? (Char.ofNat n),
        d < 16 ∧ (Char.ofNat n = d.digitChar ∨ Char.ofNat n = d.digitChar.toUpper) := by
      decide +kernel
    rw [← Char.ofNat_toNat c] at read ⊢
    exact checked c.toNat ascii d read
  · rintro ⟨small, rfl | rfl⟩
    · exact digit?_digitChar d small
    · exact digit?_toUpper d small

theorem Writes.snoc {base width n : Nat} {front : List Char} {last : Char} {d : Nat}
    (high : Writes base width n front) (low : Address.digit? last = some d) :
    Writes base (width + 1) (base * n + d) (front ++ [last]) := by
  refine ⟨?_, ?_, ?_⟩
  · rw [List.length_append, high.length]
    rfl
  · intro c member
    rcases List.mem_append.mp member with member | member
    · exact high.digits c member
    · obtain rfl : c = last := by simpa using member
      rw [isDigit, low]
      rfl
  · have front_value := high.value
    rw [Numeral.value, valueFrom] at front_value ⊢
    rw [List.foldl_append, front_value, List.foldl_cons, List.foldl_nil, low, Option.getD_some]

/- Letters may be written in either case: `spell` says which. -/
theorem writes_padded (spell : Char → Char)
    (spelled : ∀ d < 16, Address.digit? (spell d.digitChar) = some d) (base width n : Nat)
    (positive : 0 < base) (small : base ≤ 16) (fits : n < base ^ width) :
    Writes base width n ((padded base width n).map spell) := by
  induction width generalizing n with
  | zero =>
    have zero : n = 0 := by simpa using fits
    subst n
    exact ⟨rfl, nofun, rfl⟩
  | succ width ih =>
    have high : n / base < base ^ width := Nat.div_lt_of_lt_mul (by rwa [← Nat.pow_succ'])
    have low : n % base < 16 := Nat.lt_of_lt_of_le (Nat.mod_lt n positive) small
    have step := (ih (n / base) high).snoc (spelled _ low)
    rw [Nat.div_add_mod] at step
    rw [padded, List.map_append]
    exact step

theorem writes_binary {width n : Nat} (fits : n < 2 ^ width) :
    Writes 2 width n (binary width n).toList := by
  have digits := writes_padded id digit?_digitChar 2 width n (by decide) (by decide) fits
  rw [binary, String.toList_ofList]
  rwa [List.map_id] at digits

theorem writes_hex {width n : Nat} (fits : n < 16 ^ width) :
    Writes 16 width n (hex width n).toList := by
  have digits := writes_padded id digit?_digitChar 16 width n (by decide) (by decide) fits
  rw [hex, String.toList_ofList]
  rwa [List.map_id] at digits

theorem writes_upperHex {width n : Nat} (fits : n < 16 ^ width) :
    Writes 16 width n (upperHex width n).toList := by
  rw [upperHex, String.toList_ofList]
  exact writes_padded Char.toUpper digit?_toUpper 16 width n (by decide) (by decide) fits

/- Every character of a numeral is one of the digits of its base. -/
theorem forall_mem_padded (spell : Char → Char) {P : Char → Prop} {base width n : Nat}
    (spelled : ∀ d < base, P (spell d.digitChar)) (positive : 0 < base) (fits : n < base ^ width) :
    ∀ c ∈ (padded base width n).map spell, P c := by
  induction width generalizing n with
  | zero =>
    obtain rfl : n = 0 := by simpa using fits
    exact nofun
  | succ width ih =>
    have high : n / base < base ^ width := Nat.div_lt_of_lt_mul (by rwa [← Nat.pow_succ'])
    simp only [padded, List.map_append, List.map_cons, List.map_nil, List.forall_mem_append,
      List.forall_mem_singleton]
    exact ⟨ih high, spelled _ (Nat.mod_lt n positive)⟩

theorem mem_binary {width n : Nat} (fits : n < 2 ^ width) :
    ∀ c ∈ (binary width n).toList, c ∈ "01".toList := by
  have digits := forall_mem_padded id (P := (· ∈ "01".toList)) (by decide) (by decide) fits
  simpa [binary] using digits

theorem mem_hex {width n : Nat} (fits : n < 16 ^ width) :
    ∀ c ∈ (hex width n).toList, c ∈ "0123456789abcdef".toList := by
  have digits :=
    forall_mem_padded id (P := (· ∈ "0123456789abcdef".toList)) (by decide) (by decide) fits
  simpa [hex] using digits

theorem mem_upperHex {width n : Nat} (fits : n < 16 ^ width) :
    ∀ c ∈ (upperHex width n).toList, c ∈ "0123456789ABCDEF".toList := by
  rw [upperHex, String.toList_ofList]
  exact forall_mem_padded Char.toUpper (by decide) (by decide) fits

theorem binary_injective {width m n : Nat} (m_fits : m < 2 ^ width) (n_fits : n < 2 ^ width)
    (same : binary width m = binary width n) : m = n :=
  (writes_binary m_fits).unique (same ▸ writes_binary n_fits)

theorem hex_injective {width m n : Nat} (m_fits : m < 16 ^ width) (n_fits : n < 16 ^ width)
    (same : hex width m = hex width n) : m = n :=
  (writes_hex m_fits).unique (same ▸ writes_hex n_fits)

theorem upperHex_injective {width m n : Nat} (m_fits : m < 16 ^ width) (n_fits : n < 16 ^ width)
    (same : upperHex width m = upperHex width n) : m = n :=
  (writes_upperHex m_fits).unique (same ▸ writes_upperHex n_fits)

end Mos6502.Numeral
