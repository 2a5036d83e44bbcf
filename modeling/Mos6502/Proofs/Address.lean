import Mos6502.Proofs.Line

/-! The grammar of addresses. Behind the marks stands a number in hexadecimal digits, with a sign or
without. What is no number fails at its first character that is no digit, or with which the number
gets too large, whichever comes first. -/
namespace Mos6502

namespace Numeral

theorem le_valueFrom {base : Nat} (positive : 0 < base) (start : Nat) (digits : List Char) :
    start ≤ valueFrom base start digits := by
  induction digits generalizing start with
  | nil => exact Nat.le_refl start
  | cons c digits ih =>
    have step : start ≤ base * start + (Address.digit? c).getD 0 :=
      Nat.le_add_right_of_le (Nat.le_mul_of_pos_left start positive)
    exact Nat.le_trans step (ih _)

theorem exists_writes_toDigits (spell : Char → Char)
    (spelled : ∀ d < 16, Address.digit? (spell d.digitChar) = some d) (n : Nat) :
    ∃ length, Writes 16 length n ((Nat.toDigits 16 n).map spell) := by
  induction n using Nat.strongRecOn with
  | ind n ih =>
    have low := spelled (n % 16) (Nat.mod_lt n (by decide))
    by_cases small : n < 16
    · have empty : Writes 16 0 0 [] := ⟨rfl, nofun, rfl⟩
      refine ⟨1, ?_⟩
      rw [Nat.mod_eq_of_lt small] at low
      simpa [Nat.toDigits_of_lt_base small] using empty.snoc low
    · have large : 16 ≤ n := Nat.le_of_not_lt small
      obtain ⟨length, high⟩ := ih (n / 16) (Nat.div_lt_self (by omega) (by decide))
      refine ⟨length + 1, ?_⟩
      have whole := high.snoc low
      rw [Nat.div_add_mod] at whole
      simpa [Nat.toDigits_of_base_le (by decide) large] using whole

/- However many digits are asked for, the number is written, with zeros in front of it if it is
short. -/
theorem exists_writes_padded (spell : Char → Char)
    (spelled : ∀ d < 16, Address.digit? (spell d.digitChar) = some d) (width n : Nat) :
    ∃ length, width ≤ length ∧ Writes 16 length n ((padded 16 width n).map spell) := by
  induction width generalizing n with
  | zero =>
    cases n with
    | zero => exact ⟨0, Nat.le_refl 0, rfl, nofun, rfl⟩
    | succ n =>
      obtain ⟨length, written⟩ := exists_writes_toDigits spell spelled (n + 1)
      exact ⟨length, Nat.zero_le length, written⟩
  | succ width ih =>
    obtain ⟨length, wide, high⟩ := ih (n / 16)
    have whole := high.snoc (spelled (n % 16) (Nat.mod_lt n (by decide)))
    rw [Nat.div_add_mod] at whole
    refine ⟨length + 1, Nat.succ_le_succ wide, ?_⟩
    simpa [padded] using whole

end Numeral

namespace Address

/- What is left of a text behind all its leading `0x` and then all its leading `$`. -/
def Strips (text bare : List Char) : Prop :=
  ∃ m k : Nat,
    text = (List.replicate m ['0', 'x']).flatten ++ (List.replicate k '$' ++ bare) ∧
    ¬ ['0', 'x'] <+: List.replicate k '$' ++ bare ∧ ¬ ['$'] <+: bare

theorem dropMarks_hex (m : Nat) (rest : List Char) :
    dropMarks ((List.replicate m ['0', 'x']).flatten ++ rest) = dropMarks rest := by
  induction m with
  | zero => rfl
  | succ m ih => simpa [List.replicate_succ, dropMarks] using ih

theorem dropMarks_of_not_hex {text : List Char} (plain : ¬ ['0', 'x'] <+: text) :
    dropMarks text = text.dropWhile (· == '$') := by
  apply dropMarks.eq_2
  rintro rest rfl
  exact plain ⟨rest, rfl⟩

theorem dropWhile_dollar {bare : List Char} (k : Nat) (plain : ¬ ['$'] <+: bare) :
    (List.replicate k '$' ++ bare).dropWhile (· == '$') = bare := by
  have dollars : ∀ c ∈ List.replicate k '$', (c == '$') = true := by
    intro c member
    simp [List.eq_of_mem_replicate member]
  rw [List.dropWhile_append_of_pos dollars]
  cases bare with
  | nil => rfl
  | cons c rest =>
    have other : (c == '$') = false := by
      apply beq_false_of_ne
      rintro rfl
      exact plain ⟨rest, rfl⟩
    simp [other]

theorem dropMarks_of_strips {text bare : List Char} (strips : Strips text bare) :
    dropMarks text = bare := by
  obtain ⟨m, k, rfl, no_hex, no_dollar⟩ := strips
  rw [dropMarks_hex, dropMarks_of_not_hex no_hex, dropWhile_dollar k no_dollar]

theorem strips_dropMarks (text : List Char) : Strips text (dropMarks text) := by
  fun_induction dropMarks text with
  | case1 rest ih =>
    obtain ⟨m, k, split, no_hex, no_dollar⟩ := ih
    refine ⟨m + 1, k, ?_, no_hex, no_dollar⟩
    simpa [List.replicate_succ] using split
  | case2 text other =>
    have dollars : text.takeWhile (· == '$') =
        List.replicate (text.takeWhile (· == '$')).length '$' := by
      apply List.eq_replicate_of_mem
      intro c member
      simpa using List.all_eq_true.mp List.all_takeWhile c member
    have split : List.replicate (text.takeWhile (· == '$')).length '$' ++
        text.dropWhile (· == '$') = text := by
      rw [← dollars]
      exact List.takeWhile_append_dropWhile
    refine ⟨0, (text.takeWhile (· == '$')).length, ?_, ?_, ?_⟩
    · simpa using split.symm
    · rw [split]
      rintro ⟨rest, rfl⟩
      exact other rest rfl
    · rintro ⟨rest, starts⟩
      have head := List.head?_dropWhile_not (· == '$') text
      simp [← starts] at head

/- The text without its sign. -/
def unsigned : List Char → List Char
  | '+' :: rest => rest
  | text => text

/- One or more digits that give `n`, with a sign in front of them or without. -/
def Spells (bare : List Char) (n : Nat) : Prop :=
  ∃ digits : List Char, (bare = digits ∨ bare = '+' :: digits) ∧ digits ≠ [] ∧
    (∀ c ∈ digits, Numeral.isDigit c = true) ∧ Numeral.value 16 digits = n

/- What is wrong at position `p` of digits behind those that gave `start`: there is no digit, or
the number up to and with that digit is no address. -/
inductive FaultAt (start : Nat) (digits : List Char) (p : Nat) : NumberFault → Prop
  | invalidDigit {c : Char} : digits[p]? = some c → Numeral.isDigit c = false →
      FaultAt start digits p .invalidDigit
  | tooLarge {c : Char} : digits[p]? = some c → Numeral.isDigit c = true →
      0xFFFF < Numeral.valueFrom 16 start (digits.take (p + 1)) →
      FaultAt start digits p .tooLarge

def FirstFault (start : Nat) (digits : List Char) (fault : NumberFault) : Prop :=
  ∃ p, FaultAt start digits p fault ∧ ∀ q < p, ∀ other, ¬ FaultAt start digits q other

/- Why a text without marks is no address. -/
inductive Refused : List Char → NumberFault → Prop
  | empty : Refused [] .empty
  | sign : Refused ['+'] .invalidDigit
  | number {bare : List Char} {fault : NumberFault} : bare ≠ [] → bare ≠ ['+'] →
      FirstFault 0 (unsigned bare) fault → Refused bare fault

section Digits

variable {start : Nat} {c : Char} {rest : List Char} {fault : NumberFault}

theorem faultAt_succ {p : Nat} :
    FaultAt start (c :: rest) (p + 1) fault ↔
      FaultAt (16 * start + (digit? c).getD 0) rest p fault := by
  constructor
  · rintro (⟨here, strange⟩ | ⟨here, digit, large⟩)
    · exact .invalidDigit here strange
    · exact .tooLarge here digit large
  · rintro (⟨here, strange⟩ | ⟨here, digit, large⟩)
    · exact .invalidDigit here strange
    · exact .tooLarge here digit large

/- A fault at the first character is the first fault. -/
theorem firstFault_of_head (head : FaultAt start (c :: rest) 0 fault) {other : NumberFault} :
    FirstFault start (c :: rest) other ↔ FaultAt start (c :: rest) 0 other := by
  constructor
  · rintro ⟨p, at_p, before⟩
    cases p with
    | zero => exact at_p
    | succ p => exact absurd head (before 0 (Nat.succ_pos p) fault)
  · intro at_zero
    exact ⟨0, at_zero, fun q below => absurd below (Nat.not_lt_zero q)⟩

theorem firstFault_cons (head : ∀ other, ¬ FaultAt start (c :: rest) 0 other) :
    FirstFault start (c :: rest) fault ↔
      FirstFault (16 * start + (digit? c).getD 0) rest fault := by
  constructor
  · rintro ⟨p, at_p, before⟩
    cases p with
    | zero => exact absurd at_p (head fault)
    | succ p =>
      refine ⟨p, faultAt_succ.mp at_p, ?_⟩
      intro q below other at_q
      exact before (q + 1) (Nat.succ_lt_succ below) other (faultAt_succ.mpr at_q)
  · rintro ⟨p, at_p, before⟩
    refine ⟨p + 1, faultAt_succ.mpr at_p, ?_⟩
    intro q below other at_q
    cases q with
    | zero => exact head other at_q
    | succ q => exact before q (Nat.lt_of_succ_lt_succ below) other (faultAt_succ.mp at_q)

theorem faultAt_zero_of_none (strange : digit? c = none) :
    FaultAt start (c :: rest) 0 fault ↔ fault = .invalidDigit := by
  have no_digit : Numeral.isDigit c = false := by simp [Numeral.isDigit, strange]
  constructor
  · rintro (⟨here, -⟩ | ⟨here, digit, -⟩)
    · rfl
    · obtain rfl := Option.some.inj here
      cases digit.symm.trans no_digit
  · rintro rfl
    exact .invalidDigit rfl no_digit

theorem faultAt_zero_of_some {d : Nat} (read : digit? c = some d) :
    FaultAt start (c :: rest) 0 fault ↔ 0xFFFF < 16 * start + d ∧ fault = .tooLarge := by
  have digit : Numeral.isDigit c = true := by simp [Numeral.isDigit, read]
  have value : Numeral.valueFrom 16 start ((c :: rest).take 1) = 16 * start + d := by
    simp [Numeral.valueFrom, read]
  constructor
  · rintro (⟨here, strange⟩ | ⟨here, -, large⟩)
    · obtain rfl := Option.some.inj here
      cases digit.symm.trans strange
    · rw [value] at large
      exact ⟨large, rfl⟩
  · rintro ⟨large, rfl⟩
    rw [← value] at large
    exact .tooLarge rfl digit large

end Digits

/-- Digits are read to their number unless that is too large. -/
theorem readDigits_eq_ok_iff {start : Nat} (small : start ≤ 0xFFFF) (digits : List Char) (n : Nat) :
    readDigits start digits = .ok n ↔ (∀ c ∈ digits, Numeral.isDigit c = true) ∧
      Numeral.valueFrom 16 start digits = n ∧ n ≤ 0xFFFF := by
  fun_induction readDigits start digits with
  | case1 start =>
    simp only [Except.ok.injEq, Numeral.valueFrom, List.foldl_nil]
    constructor
    · rintro rfl
      exact ⟨List.forall_mem_nil _, rfl, small⟩
    · rintro ⟨-, same, -⟩
      exact same
  | case2 start c rest strange =>
    simp [Numeral.isDigit, strange]
  | case3 start c rest d read fits ih =>
    rw [ih fits]
    simp [Numeral.isDigit, Numeral.valueFrom, read]
  | case4 start c rest d read large =>
    constructor
    · intro parsed
      cases parsed
    · rintro ⟨-, value, bound⟩
      -- No digit behind the overflow makes the number smaller again.
      have above := Numeral.le_valueFrom (by decide : 0 < 16) (16 * start + d) rest
      simp only [Numeral.valueFrom, List.foldl_cons, read, Option.getD_some] at value above
      omega

/- Either the first character decides, or the faults behind it are those of the rest, one further
on. -/
theorem readDigits_eq_error_iff (start : Nat) (digits : List Char) (fault : NumberFault) :
    readDigits start digits = .error fault ↔ FirstFault start digits fault := by
  fun_induction readDigits start digits with
  | case1 start =>
    constructor
    · exact nofun
    · rintro ⟨p, ⟨here, -⟩ | ⟨here, -, -⟩, -⟩ <;> cases here
  | case2 start c rest strange =>
    have head : FaultAt start (c :: rest) 0 .invalidDigit := (faultAt_zero_of_none strange).mpr rfl
    rw [firstFault_of_head head, faultAt_zero_of_none strange, Except.error.injEq, eq_comm]
  | case3 start c rest d read fits ih =>
    have head : ∀ other, ¬ FaultAt start (c :: rest) 0 other := by
      intro other at_zero
      exact absurd ((faultAt_zero_of_some read).mp at_zero).1 (Nat.not_lt_of_le fits)
    rw [ih, firstFault_cons head, read, Option.getD_some]
  | case4 start c rest d read large =>
    have above : 0xFFFF < 16 * start + d := Nat.lt_of_not_le large
    have head : FaultAt start (c :: rest) 0 .tooLarge :=
      (faultAt_zero_of_some read).mpr ⟨above, rfl⟩
    rw [firstFault_of_head head, faultAt_zero_of_some read, Except.error.injEq]
    constructor
    · rintro rfl
      exact ⟨above, rfl⟩
    · rintro ⟨-, rfl⟩
      rfl

theorem readNumber_eq {bare : List Char} (nonempty : bare ≠ []) (more : bare ≠ ['+']) :
    readNumber bare = readDigits 0 (unsigned bare) := by
  unfold readNumber unsigned
  split <;> simp_all

theorem eq_unsigned (bare : List Char) : bare = unsigned bare ∨ bare = '+' :: unsigned bare := by
  unfold unsigned
  split <;> simp

theorem unsigned_of_digits {digits : List Char}
    (all : ∀ c ∈ digits, Numeral.isDigit c = true) : unsigned digits = digits := by
  apply unsigned.eq_2
  rintro rest rfl
  exact absurd (all '+' (List.mem_cons_self ..)) (by decide)

theorem spells_iff {bare : List Char} (nonempty : bare ≠ []) (more : bare ≠ ['+']) (n : Nat) :
    Spells bare n ↔ (∀ c ∈ unsigned bare, Numeral.isDigit c = true) ∧
      Numeral.value 16 (unsigned bare) = n := by
  constructor
  · rintro ⟨digits, rfl | rfl, -, all, value⟩
    · rw [unsigned_of_digits all]
      exact ⟨all, value⟩
    · exact ⟨all, value⟩
  · rintro ⟨all, value⟩
    refine ⟨unsigned bare, eq_unsigned bare, ?_, all, value⟩
    intro none_left
    rcases eq_unsigned bare with same | same <;> rw [none_left] at same
    · exact nonempty same
    · exact more same

theorem not_spells_bare_sign (n : Nat) : ¬ Spells [] n ∧ ¬ Spells ['+'] n := by
  constructor
  · rintro ⟨digits, same | same, nonempty, -, -⟩
    · exact nonempty same.symm
    · cases same
  · rintro ⟨digits, same | same, nonempty, all, -⟩
    · subst same
      exact absurd (all '+' (List.mem_cons_self ..)) (by decide)
    · exact nonempty (List.cons.inj same).2.symm

theorem readNumber_eq_ok_iff (bare : List Char) (n : Nat) :
    readNumber bare = .ok n ↔ Spells bare n ∧ n ≤ 0xFFFF := by
  obtain ⟨not_empty, not_sign⟩ := not_spells_bare_sign n
  by_cases empty : bare = []
  · subst empty
    simp [readNumber, not_empty]
  · by_cases sign : bare = ['+']
    · subst sign
      simp [readNumber, not_sign]
    · rw [readNumber_eq empty sign, spells_iff empty sign, and_assoc]
      exact readDigits_eq_ok_iff (Nat.zero_le _) (unsigned bare) n

theorem readNumber_eq_error_iff (bare : List Char) (fault : NumberFault) :
    readNumber bare = .error fault ↔ Refused bare fault := by
  constructor
  · intro failed
    by_cases empty : bare = []
    · subst empty
      cases failed
      exact .empty
    · by_cases sign : bare = ['+']
      · subst sign
        cases failed
        exact .sign
      · rw [readNumber_eq empty sign, readDigits_eq_error_iff] at failed
        exact .number empty sign failed
  · intro refused
    cases refused with
    | empty => rfl
    | sign => rfl
    | number empty sign first =>
      rw [readNumber_eq empty sign]
      exact (readDigits_eq_error_iff 0 _ fault).mpr first

section Parse

variable {text : String} {bare : List Char} (strips : Strips text.toList bare)

include strips

theorem parse_eq_ok_iff (n : UInt16) : parse text = .ok n ↔ Spells bare n.toNat := by
  simp only [parse, dropMarks_of_strips strips]
  constructor
  · intro parsed
    split at parsed
    · rename_i value number
      obtain ⟨spelled, fits⟩ := (readNumber_eq_ok_iff bare value).mp number
      obtain rfl := Except.ok.inj parsed
      rw [UInt16.toNat_ofNat_of_lt' (Nat.lt_succ_of_le fits)]
      exact spelled
    · cases parsed
  · intro spelled
    have bound : n.toNat ≤ 0xFFFF := Nat.le_of_lt_succ n.toNat_lt
    have read := (readNumber_eq_ok_iff bare n.toNat).mpr ⟨spelled, bound⟩
    simp only [read, UInt16.ofNat_toNat]

theorem parse_eq_error_iff (e : AddressError) :
    parse text = .error e ↔ e.text = String.ofList bare ∧ Refused bare e.fault := by
  rw [← readNumber_eq_error_iff]
  simp only [parse, dropMarks_of_strips strips]
  obtain ⟨shown, fault⟩ := e
  cases readNumber bare with
  | ok value => simp
  | error cause => simp [eq_comm]

end Parse

/-- Marks in front of a numeral are of no consequence. -/
theorem parse_marked {digits : List Char} {length : Nat} {n : UInt16}
    (written : Numeral.Writes 16 (length + 1) n.toNat digits) (m k : Nat) :
    parse (String.join (List.replicate m "0x") ++ String.join (List.replicate k "$") ++
      String.ofList digits) = .ok n := by
  have no_digit (c : Char) (other : Numeral.isDigit c = false) : c ∉ digits := by
    intro member
    cases (written.digits c member).symm.trans other
  have strips : Strips (String.join (List.replicate m "0x") ++
      String.join (List.replicate k "$") ++ String.ofList digits).toList digits := by
    refine ⟨m, k, ?_, ?_, ?_⟩
    · simp [String.toList_join, List.flatMap_replicate]
    · intro hex
      have member : 'x' ∈ List.replicate k '$' ++ digits := hex.subset (by decide)
      simp [no_digit 'x' (by decide)] at member
    · intro dollar
      exact no_digit '$' (by decide) (dollar.subset (by decide))
  refine (parse_eq_ok_iff strips n).mpr ⟨digits, .inl rfl, ?_, written.digits, written.value⟩
  exact List.ne_nil_of_length_pos (by rw [written.length]; exact Nat.succ_pos length)

theorem parse_padded (spell : Char → Char)
    (spelled : ∀ d < 16, digit? (spell d.digitChar) = some d) (n : UInt16) (m k width : Nat) :
    parse (String.join (List.replicate m "0x") ++ String.join (List.replicate k "$") ++
      String.ofList ((Numeral.padded 16 (width + 1) n.toNat).map spell)) = .ok n := by
  obtain ⟨length, wide, written⟩ := Numeral.exists_writes_padded spell spelled (width + 1) n.toNat
  obtain ⟨more, rfl⟩ := Nat.exists_eq_add_one.mpr (Nat.lt_of_lt_of_le (Nat.succ_pos width) wide)
  exact parse_marked written m k

end Address

/-- How addresses are read. The text behind the marks is an address if it is a sign or none and then
digits, of either case and with any zeros in front, that give a number of sixteen bits. Any other
text is refused and shown: it is empty, or a lone sign, or the first of its characters that is no
digit or makes the number too large decides. So whatever the padding and the marks, a numeral is
read back, and so is every address that a listing prints. -/
theorem address_grammar :
    (∀ text : String, ∃ bare : List Char,
      Address.Strips text.toList bare ∧
      (∀ other, Address.Strips text.toList other → other = bare) ∧
      (∀ n : UInt16, Address.parse text = .ok n ↔ Address.Spells bare n.toNat) ∧
      (∀ e, Address.parse text = .error e ↔
        e.text = String.ofList bare ∧ Address.Refused bare e.fault) ∧
      ∀ e, Address.parse text = .error e → e.explanation =
        ⟨"Invalid address '" ++ String.ofList bare ++ "'", some e.fault.message⟩) ∧
    (∀ (c : Char) (d : Nat), Address.digit? c = some d ↔
      d < 16 ∧ (c = d.digitChar ∨ c = d.digitChar.toUpper)) ∧
    (∀ (n : UInt16) (m k width : Nat),
      let marks := String.join (List.replicate m "0x") ++ String.join (List.replicate k "$")
      Address.parse (marks ++ Numeral.hex (width + 1) n.toNat) = .ok n ∧
      Address.parse (marks ++ Numeral.upperHex (width + 1) n.toNat) = .ok n) ∧
    ∀ layout : Layout, layout.addresses = true → ∀ i : Instruction,
      Address.parse (String.ofList ((layout.line i).toList.takeWhile (· != ' '))) =
        .ok (UInt16.ofNat (layout.origin.toNat + i.offset)) := by
  refine ⟨?_, Numeral.digit?_eq_some_iff, ?_, ?_⟩
  · intro text
    have strips := Address.strips_dropMarks text.toList
    have refused := Address.parse_eq_error_iff strips
    refine ⟨_, strips, ?_, Address.parse_eq_ok_iff strips, refused, ?_⟩
    · intro other also
      exact (Address.dropMarks_of_strips also).symm
    · intro e failed
      rw [← ((refused e).mp failed).1]
      rfl
  · intro n m k width marks
    constructor
    · have read := Address.parse_padded id Numeral.digit?_digitChar n m k width
      rwa [List.map_id] at read
    · exact Address.parse_padded Char.toUpper Numeral.digit?_toUpper n m k width
  · intro layout addressed i
    have read := Address.parse_marked (layout.writes_address i) 0 0
    rw [Layout.takeWhile_line addressed]
    simp only [List.replicate_zero, String.join_nil, String.empty_append] at read
    exact read

/- An overflow in front of a character that is no digit. -/
theorem address_grammar_overflow :
    Address.parse "0x$10000g" = .error ⟨"10000g", .tooLarge⟩ ∧
      Address.Refused "10000g".toList .tooLarge := by
  have failed : Address.parse "0x$10000g" = .error ⟨"10000g", .tooLarge⟩ := by decide +kernel
  obtain ⟨bare, -, -, -, errors, -⟩ := address_grammar.1 "0x$10000g"
  obtain ⟨shown, refused⟩ := (errors _).mp failed
  obtain rfl : "10000g".toList = bare :=
    (congrArg String.toList shown).trans String.toList_ofList
  exact ⟨failed, refused⟩

end Mos6502
