import Mathlib.Data.List.TakeWhile
import Arboretum.Json.Decoder

/-!
# Numbers that are written

`numeralOf cs` is the numeral that `readUnsigned` finds in the characters `cs`, if they are one
number from the first to the last.  What the reader makes of a number does not change if something
stands behind it that is no part of a number (`readNumber_append`).  So a number is read back
wherever it is written, whoever wrote it: a natural number because its digits are a numeral
(`numeralOf_digits`), and a float on condition that `ReadsBack write x`.
-/

namespace Arboretum.Json

/-! ## Numerals of natural numbers -/

namespace Numeral

/-- The decimal digits of `n`, as numbers. -/
def digitsOf (n : Nat) : List Nat := (Decimal.digits n).map fun c => c.toNat - 48

/-- The numeral that `Decimal.digits n` spells. -/
def ofNat (n : Nat) : Numeral := { negative := false, whole := digitsOf n }

theorem digitsOf_of_lt {n : Nat} (h : n < 10) : digitsOf n = [n] := by
  rw [digitsOf, Decimal.digits, Nat.toDigits_of_lt_base h, List.map_singleton,
    Nat.toNat_digitChar_sub_48_of_lt_ten h]

theorem digitsOf_of_le {n : Nat} (h : 10 ≤ n) : digitsOf n = digitsOf (n / 10) ++ [n % 10] := by
  rw [digitsOf, Decimal.digits, Nat.toDigits_of_base_le (by omega) h, List.map_append,
    List.map_singleton, Nat.toNat_digitChar_sub_48_of_lt_ten (Nat.mod_lt n (by omega))]
  rfl

/-- Induction on the decimal digits of `n`, with the last one taken away in each step. -/
theorem digits_induction {P : Nat → Prop} (one : ∀ n < 10, P n)
    (more : ∀ n, 10 ≤ n → P (n / 10) → P n) (n : Nat) : P n := by
  induction n using Nat.strongRecOn with
  | _ n ih =>
    by_cases h : n < 10
    · exact one n h
    · exact more n (Nat.le_of_not_lt h) (ih _ (Nat.div_lt_self (by omega) (by omega)))

/-- The first digit of `n` is zero only if `n` is. -/
theorem exists_head_digitsOf (n : Nat) :
    ∃ d ds, digitsOf n = d :: ds ∧ (d = 0 → n = 0 ∧ ds = []) := by
  induction n using digits_induction with
  | one n hn => exact ⟨n, [], digitsOf_of_lt hn, fun hzero => ⟨hzero, rfl⟩⟩
  | more n hn ih =>
    obtain ⟨d, ds, hds, hd⟩ := ih
    refine ⟨d, ds ++ [n % 10], ?_, fun hzero => ?_⟩
    · rw [digitsOf_of_le hn, hds, List.cons_append]
    · have := (hd hzero).1
      omega

theorem ofDigits_digitsOf (n : Nat) : ofDigits (digitsOf n) = n := by
  induction n using digits_induction with
  | one n hn => rw [digitsOf_of_lt hn, ofDigits, List.foldl_cons, List.foldl_nil, Nat.zero_mul,
      Nat.zero_add]
  | more n hn ih =>
    rw [digitsOf_of_le hn, ofDigits, List.foldl_append, List.foldl_cons, List.foldl_nil]
    rw [ofDigits] at ih
    rw [ih]
    omega

theorem le_foldl_digits (kept : Nat) (ds : List Nat) :
    kept ≤ ds.foldl (fun n d => n * 10 + d) kept := by
  induction ds generalizing kept with
  | nil => exact Nat.le_refl _
  | cons d ds ih =>
    have := ih (kept * 10 + d)
    rw [List.foldl_cons]
    omega

/-- If the whole number fits into 64 bits, `keepWhole` keeps all of its digits. -/
theorem keepWhole_of_lt {kept : Nat} {ds : List Nat}
    (h : ds.foldl (fun n d => n * 10 + d) kept < 0x10000000000000000) :
    keepWhole kept ds = (ds.foldl (fun n d => n * 10 + d) kept, 0) := by
  induction ds generalizing kept with
  | nil => rfl
  | cons d ds ih =>
    rw [List.foldl_cons] at h ⊢
    rw [keepWhole, if_pos (Nat.lt_of_le_of_lt (le_foldl_digits _ ds) h), ih h]

/-- A natural number of at most 64 bits is the `number` of its numeral. -/
theorem number_ofNat {n : Nat} (h : n < 0x10000000000000000) :
    (ofNat n).number = some (.natural n) := by
  have hkeep : keepWhole 0 (digitsOf n) = (n, 0) := by
    have hn := ofDigits_digitsOf n
    rw [ofDigits] at hn
    rw [keepWhole_of_lt (hn.symm ▸ h), hn]
  simp only [number, ofNat, hkeep, ofDigits_digitsOf]
  rfl

end Numeral

theorem isDigit_of_mem_digits {n : Nat} {c : Char} (h : c ∈ Decimal.digits n) :
    isDigit c = true := by
  have hchar : ∀ d < 10, isDigit (Nat.digitChar d) = true := by decide
  induction n using Numeral.digits_induction with
  | one n hn =>
    rw [Decimal.digits, Nat.toDigits_of_lt_base hn, List.mem_singleton] at h
    exact h ▸ hchar n hn
  | more n hn ih =>
    rw [Decimal.digits, Nat.toDigits_of_base_le (by omega) hn, List.mem_append,
      List.mem_singleton] at h
    rcases h with h | h
    · exact ih h
    · exact h ▸ hchar _ (Nat.mod_lt n (by omega))

/-! ## What stands behind a number -/

/-- Whether `rest` can stand behind a number: it does not begin with a character that could be a
part of one. -/
def EndsNumber (rest : List Char) : Prop :=
  ∀ c cs, rest = c :: cs → isDigit c = false ∧ c ≠ '.' ∧ c ≠ 'e' ∧ c ≠ 'E'

theorem endsNumber_nil : EndsNumber [] := by
  intro c cs h
  cases h

theorem EndsNumber.of_head {c : Char} (h : isDigit c = false ∧ c ≠ '.' ∧ c ≠ 'e' ∧ c ≠ 'E')
    (cs : List Char) : EndsNumber (c :: cs) := by
  intro c' cs' heq
  obtain ⟨rfl, -⟩ := List.cons.inj heq
  exact h

/-- The reader never finds a number where `wantsDigit` looks for one. -/
theorem wantsDigit_ne {cs left : List Char} {n : Numeral} : wantsDigit cs ≠ (.number n, left) := by
  unfold wantsDigit
  split <;> nofun

/-- The digits that are wanted, and then what `read` makes of them and of what follows. -/
def digitsThen (read : List Nat → List Char → Node × List Char) (cs : List Char) :
    Node × List Char :=
  match readDigits cs with
  | ([], cs) => wantsDigit cs
  | (ds, cs) => read ds cs

/-- The numeral `n` with an exponent, and what follows. -/
def withExponent (n : Numeral) (negative : Bool) (ds : List Nat) (cs : List Char) :
    Node × List Char :=
  (.number { n with exponent := some (negative, ds) }, cs)

theorem readExponent_of_ne (n : Numeral) {c : Char} (he : c ≠ 'e') (hE : c ≠ 'E')
    (cs : List Char) : readExponent n (c :: cs) = (.number n, c :: cs) :=
  if_neg (by simp [he, hE])

/-- Behind `e` or `E`, the reader takes a sign, if there is one, and goes on with the digits of the
exponent. -/
theorem exists_readExponent (n : Numeral) {c : Char} (he : c = 'e' ∨ c = 'E') (sign : Char)
    (cs : List Char) :
    ∃ negative cs', ∀ rest,
      readExponent n (c :: sign :: cs ++ rest) =
        digitsThen (withExponent n negative) (cs' ++ rest) := by
  by_cases hminus : sign = '-'
  · subst hminus
    refine ⟨true, cs, fun rest => ?_⟩
    rcases he with rfl | rfl <;> rfl
  · by_cases hplus : sign = '+'
    · subst hplus
      refine ⟨false, cs, fun rest => ?_⟩
      rcases he with rfl | rfl <;> rfl
    · refine ⟨false, sign :: cs, fun rest => ?_⟩
      rw [List.cons_append, List.cons_append, readExponent, if_pos (by simpa using he)]
      · rfl
      all_goals
        rintro cs' heq
        have := (List.cons.inj heq).1
        contradiction

theorem readFraction_of_ne (n : Numeral) {cs : List Char} (h : ∀ cs', cs ≠ '.' :: cs') :
    readFraction n cs = readExponent n cs := by
  rw [readFraction]
  exact h

/-- What a number consists of behind its sign, once its whole digits `ds` are read: a leading zero
must be the only one. -/
def fractionBehind (negative : Bool) (ds : List Nat) (cs : List Char) : Node × List Char :=
  match ds with
  | 0 :: _ :: _ => (.broken .malformed .malformed, [])
  | ds => readFraction { negative := negative, whole := ds } cs

theorem readUnsigned_eq (negative : Bool) (cs : List Char) :
    readUnsigned negative cs = digitsThen (fractionBehind negative) cs := by
  unfold readUnsigned digitsThen
  rcases readDigits cs with ⟨_ | ⟨_ | d, _ | ⟨d', ds⟩⟩, cs'⟩ <;> rfl

/-! ## Reading on -/

/-- The reader `read` finds the same number if something follows that is no part of a number. -/
def ReadsOn (read : List Char → Node × List Char) : Prop :=
  ∀ {n : Numeral} {cs left rest : List Char}, EndsNumber rest → read cs = (.number n, left) →
    read (cs ++ rest) = (.number n, left ++ rest)

theorem readDigits_append {rest : List Char} (hrest : EndsNumber rest) (cs : List Char) :
    readDigits (cs ++ rest) = ((readDigits cs).1, (readDigits cs).2 ++ rest) := by
  have hstop : rest.takeWhile isDigit = [] ∧ rest.dropWhile isDigit = rest := by
    cases rest with
    | nil => exact ⟨rfl, rfl⟩
    | cons c cs =>
      have hc : ¬ isDigit c = true := by
        rw [(hrest c cs rfl).1]
        exact Bool.false_ne_true
      exact ⟨List.takeWhile_cons_of_neg hc, List.dropWhile_cons_of_neg hc⟩
  simp only [readDigits]
  induction cs with
  | nil => rw [List.nil_append, hstop.1, hstop.2]; rfl
  | cons c cs ih =>
    rw [List.cons_append, List.takeWhile_cons, List.takeWhile_cons, List.dropWhile_cons,
      List.dropWhile_cons]
    cases isDigit c with
    | false => rfl
    | true =>
      obtain ⟨htake, hdrop⟩ := Prod.mk.inj ih
      simp only [if_true, List.map_cons, htake, hdrop]

theorem readsOn_digitsThen {read : List Nat → List Char → Node × List Char}
    (h : ∀ ds, ReadsOn (read ds)) : ReadsOn (digitsThen read) := by
  intro n cs left rest hrest hread
  unfold digitsThen at hread ⊢
  rw [readDigits_append hrest]
  rcases hdigits : readDigits cs with ⟨ds, cs'⟩
  rw [hdigits] at hread
  cases ds with
  | nil => exact absurd hread wantsDigit_ne
  | cons d ds => exact h _ hrest hread

theorem readsOn_withExponent (n : Numeral) (negative : Bool) (ds : List Nat) :
    ReadsOn (withExponent n negative ds) := by
  intro m cs left rest _ hread
  obtain ⟨hm, rfl⟩ := Prod.mk.inj hread
  rw [withExponent, hm]

theorem readsOn_readExponent (n : Numeral) : ReadsOn (readExponent n) := by
  intro m cs left rest hrest hread
  cases cs with
  | nil =>
    obtain ⟨hm, rfl⟩ := Prod.mk.inj hread
    cases rest with
    | nil => exact hread
    | cons c cs =>
      obtain ⟨-, -, he, hE⟩ := hrest c cs rfl
      exact (readExponent_of_ne n he hE cs).trans (by rw [hm, List.nil_append])
  | cons c cs =>
    by_cases he : c = 'e' ∨ c = 'E'
    · cases cs with
      | nil =>
        -- the text ends behind the letter
        rcases he with rfl | rfl <;> cases hread
      | cons sign cs =>
        obtain ⟨negative, cs', h⟩ := exists_readExponent n he sign cs
        have hnil := h []
        rw [List.append_nil, List.append_nil] at hnil
        rw [hnil] at hread
        rw [h]
        exact readsOn_digitsThen (readsOn_withExponent n negative) hrest hread
    · rw [not_or] at he
      rw [readExponent_of_ne n he.1 he.2] at hread
      obtain ⟨hm, rfl⟩ := Prod.mk.inj hread
      rw [List.cons_append, readExponent_of_ne n he.1 he.2, hm]

theorem readsOn_readFraction (n : Numeral) : ReadsOn (readFraction n) := by
  intro m cs left rest hrest hread
  by_cases hpoint : ∃ cs', cs = '.' :: cs'
  · obtain ⟨cs', rfl⟩ := hpoint
    exact readsOn_digitsThen (fun ds => readsOn_readExponent _) hrest hread
  · rw [readFraction_of_ne n (not_exists.1 hpoint)] at hread
    rw [readFraction_of_ne, readsOn_readExponent n hrest hread]
    intro cs' heq
    cases cs with
    | nil => exact (hrest '.' cs' heq).2.1 rfl
    | cons c cs => exact hpoint ⟨cs, by rw [(List.cons.inj heq).1]⟩

theorem readsOn_readUnsigned (negative : Bool) : ReadsOn (readUnsigned negative) := by
  intro m cs left rest hrest hread
  rw [readUnsigned_eq] at hread ⊢
  refine readsOn_digitsThen (fun ds => ?_) hrest hread
  unfold fractionBehind
  split
  · intro m cs left rest _ hread
    cases hread
  · exact readsOn_readFraction _

/-! ## Whole numbers of a text -/

/-- The reader at a number, which may begin with `-`. -/
def readNumber : List Char → Node × List Char
  | '-' :: cs => readUnsigned true cs
  | cs => readUnsigned false cs

/-- The numeral that `readNumber` finds in `cs`, if it uses up all of `cs`. -/
def numeralOf (cs : List Char) : Option Numeral :=
  match readNumber cs with
  | (.number n, []) => some n
  | _ => none

theorem numeralOf_eq_some_iff {cs : List Char} {n : Numeral} :
    numeralOf cs = some n ↔ readNumber cs = (.number n, []) := by
  unfold numeralOf
  split
  · rename_i m heq
    rw [heq]
    simp only [Option.some.injEq, Prod.mk.injEq, Node.number.injEq, and_true]
  · rename_i hne
    exact iff_of_false nofun (hne n)

theorem readNumber_of_ne {c : Char} (h : c ≠ '-') (cs : List Char) :
    readNumber (c :: cs) = readUnsigned false (c :: cs) := by
  rw [readNumber]
  exact fun cs' heq => h (List.cons.inj heq).1

/-- A number begins with `-` or with a digit. -/
theorem exists_head_of_numeralOf {cs : List Char} {n : Numeral} (h : numeralOf cs = some n) :
    ∃ c cs', cs = c :: cs' ∧ (c = '-' ∨ c ≠ '-' ∧ isDigit c = true) := by
  rw [numeralOf_eq_some_iff] at h
  cases cs with
  | nil => cases h
  | cons c cs =>
    refine ⟨c, cs, rfl, ?_⟩
    by_cases hminus : c = '-'
    · exact .inl hminus
    · rw [readNumber_of_ne hminus, readUnsigned_eq] at h
      by_cases hdigit : isDigit c = true
      · exact .inr ⟨hminus, hdigit⟩
      · -- no digit, no number
        simp only [digitsThen, readDigits, List.takeWhile_cons_of_neg hdigit] at h
        exact absurd h wantsDigit_ne

theorem readNumber_append {cs rest : List Char} {n : Numeral} (h : numeralOf cs = some n)
    (hrest : EndsNumber rest) : readNumber (cs ++ rest) = (.number n, rest) := by
  obtain ⟨c, cs, rfl, hc⟩ := exists_head_of_numeralOf h
  rw [numeralOf_eq_some_iff] at h
  rcases hc with rfl | ⟨hminus, -⟩
  · exact readsOn_readUnsigned true hrest h
  · rw [readNumber_of_ne hminus] at h
    rw [List.cons_append, readNumber_of_ne hminus]
    exact readsOn_readUnsigned false hrest h

/-- The digits of `n` are read as `Numeral.ofNat n`. -/
theorem numeralOf_digits (n : Nat) : numeralOf (Decimal.digits n) = some (.ofNat n) := by
  have hread : readDigits (Decimal.digits n) = (Numeral.digitsOf n, []) := by
    have hall := fun c => isDigit_of_mem_digits (n := n) (c := c)
    rw [readDigits, List.takeWhile_eq_self_iff.2 hall, List.dropWhile_eq_nil_iff.2 hall]
    rfl
  obtain ⟨d, ds, hds, hzero⟩ := Numeral.exists_head_digitsOf n
  obtain ⟨c, cs, hcs⟩ := List.exists_cons_of_ne_nil (Nat.toDigits_ne_nil (n := n) (b := 10))
  have hminus : c ≠ '-' := by
    rintro rfl
    exact absurd (isDigit_of_mem_digits (n := n) (hcs ▸ List.mem_cons_self)) (by decide)
  rw [numeralOf_eq_some_iff, Decimal.digits, hcs, readNumber_of_ne hminus, ← hcs]
  rw [Decimal.digits, hds] at hread
  rw [readUnsigned_eq, digitsThen, hread, Numeral.ofNat, hds]
  cases d with
  | zero =>
    rw [(hzero rfl).2]
    rfl
  | succ d => rfl

/-! ## Floats -/

/-- What `write` writes for a float is a number, and it is read as that float again. -/
def ReadsBack (write : Float32 → List Char) (x : Float32) : Prop :=
  ((numeralOf (write x)).bind Numeral.number).map Number.toFloat32 = some x

instance (write : Float32 → List Char) (x : Float32) : Decidable (ReadsBack write x) :=
  inferInstanceAs (Decidable (_ = _))

end Arboretum.Json
