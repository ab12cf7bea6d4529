/-
Written numbers are lexemes of the numbers they were written for. Without its sign, the text of a
finite double is a decimal: digits, perhaps with others behind a point. The decimal is the double
itself or its shortest one, and either rounds to it, so the scanner reads the double in it
(`lexeme_text`). That holds of every layout that never writes an exponent, keeps the sign of zero,
and ends whole numbers with nothing or with `.0`.
-/
import Lox.Number.Text
import Lox.Proofs.Number.Binary
import Lox.Proofs.Number.Shortest
import Lox.Proofs.Token.Longest

namespace Lox.Number

variable {m : Nat} {e : Int} {q : ℚ}

/-! ## Decimals -/

/-- What digits count, the last of them behind a point. -/
def decimal (integer fraction : List Char) : ℚ :=
  Nat.ofDigitChars 10 (integer ++ fraction) 0 / 10 ^ fraction.length

/-- The text is digits, perhaps with others behind a point, and counts `q`. -/
inductive Decimal : List Char → ℚ → Prop
  | integer {ds : List Char} (some : ds ≠ []) (all : ∀ d ∈ ds, Digit d) : Decimal ds (decimal ds [])
  | pointed {ds fs : List Char} (some : ds ≠ []) (all : ∀ d ∈ ds, Digit d) (behind : fs ≠ [])
    (fraction : ∀ d ∈ fs, Digit d) : Decimal (ds ++ '.' :: fs) (decimal ds fs)

/-- The real `q` reads as `m · 2 ^ e`. -/
def Reads (m : Nat) (e : Int) (q : ℚ) : Prop :=
  (m = 0 ∧ e = -1074) ∧ q = 0 ∨ Canonical m e ∧ RoundsTo m e q

theorem ofDigits_eq {integer fraction : List Char} (reads : Reads m e (decimal integer fraction)) :
    ofDigits integer fraction = magnitude m e := by
  have unit : 0 < Nat.pow 10 fraction.length := Nat.pow_pos (by decide)
  refine congrArg (fun bits => Float.ofBits (UInt64.ofNat bits)) ?_
  unfold decimal at reads
  rcases reads with ⟨⟨rfl, rfl⟩, zero⟩ | ⟨canonical, rounds⟩
  · have : Nat.ofDigitChars 10 (integer ++ fraction) 0 = 0 := by
      rcases div_eq_zero_iff.1 zero with zero | zero
      · exact_mod_cast zero
      · exact absurd zero (by positivity)
    rw [this, show packBits 0 (-1074) = 0 by decide]
    exact if_pos rfl
  · refine nearestBits_eq unit canonical ?_
    rwa [show ((Nat.pow 10 fraction.length : Nat) : ℚ) = 10 ^ fraction.length by
      exact_mod_cast rfl]

/-- The scanner reads a decimal of a double as the double. -/
theorem Decimal.lexeme {text : List Char} (written : Decimal text q) (reads : Reads m e q) :
    Lexeme (.number (magnitude m e)) text := by
  cases written with
  | @integer ds some all =>
    obtain ⟨d, ds, rfl⟩ := List.exists_cons_of_ne_nil some
    rw [← ofDigits_eq reads]
    exact .integer (all d (List.mem_cons_self ..)) fun c mem => all c (List.mem_cons_of_mem _ mem)
  | @pointed ds fs some all behind fraction =>
    obtain ⟨d, ds, rfl⟩ := List.exists_cons_of_ne_nil some
    obtain ⟨f, fs, rfl⟩ := List.exists_cons_of_ne_nil behind
    rw [← ofDigits_eq reads]
    exact .decimal (all d (List.mem_cons_self ..)) (fun c mem => all c (List.mem_cons_of_mem _ mem))
      fraction

/-! ## Digits around a point -/

theorem digit_of_mem_digits {n : Nat} : ∀ d ∈ digits n, Digit d := fun _ mem =>
  isDigit_iff.1 (Nat.isDigit_of_mem_toDigits (by decide) (by decide) mem)

theorem digits_ne_nil (n : Nat) : digits n ≠ [] := Nat.toDigits_ne_nil

theorem ofDigitChars_digits (n : Nat) : Nat.ofDigitChars 10 (digits n) 0 = n :=
  Nat.ofDigitChars_ten_toDigits

theorem digit_of_mem_zeros {k : Nat} : ∀ d ∈ List.replicate k '0', Digit d := by
  intro d mem
  rw [List.eq_of_mem_replicate mem]
  exact ⟨by decide, by decide⟩

theorem Decimal.of_eq {text : List Char} {q' : ℚ} (written : Decimal text q) (same : q = q') :
    Decimal text q' :=
  same ▸ written

/-- How whole numbers may end. -/
def WholeEnd (ending : String) : Prop := ending = "" ∨ ending = ".0"

/-- Digits with a whole number's end behind them. -/
theorem decimal_ended {ds : List Char} (some : ds ≠ []) (all : ∀ d ∈ ds, Digit d) {ending : String}
    (ends : WholeEnd ending) : Decimal (ds ++ ending.toList) (Nat.ofDigitChars 10 ds 0) := by
  rcases ends with rfl | rfl
  · rw [show ("" : String).toList = [] from rfl, List.append_nil]
    exact (Decimal.integer some all).of_eq (by simp [decimal])
  · have zero : ∀ d ∈ ['0'], Digit d := digit_of_mem_zeros (k := 1)
    refine (Decimal.pointed some all (List.cons_ne_nil '0' []) zero).of_eq ?_
    simp [decimal, Nat.ofDigitChars_append, Nat.ofDigitChars_cons]

/-- Digits count as many tenths as stand behind the point. -/
theorem decimal_eq {c : Nat} {grid : Int} {integer fraction : List Char}
    (value : Nat.ofDigitChars 10 (integer ++ fraction) 0 = c) (tenths : grid = -(fraction.length : Int)) :
    decimal integer fraction = c * 10 ^ grid := by
  unfold decimal
  rw [value, tenths, zpow_neg, zpow_natCast]
  exact div_eq_mul_inv ..

/-- Digits with the point at a position count what they count without it, in units of a grid. -/
theorem decimal_pointed (c : Nat) (grid : Int) {ending : String} (ends : WholeEnd ending) :
    Decimal (pointed (digits c) (grid + (digits c).length) ending) (c * 10 ^ grid) := by
  have some := digits_ne_nil c
  unfold pointed
  split
  · -- all digits stand behind the point
    rename_i left
    have zero : ∀ d ∈ ['0'], Digit d := digit_of_mem_zeros (k := 1)
    have behind : ∀ d ∈ List.replicate (-(grid + (digits c).length)).toNat '0' ++ digits c,
        Digit d := List.forall_mem_append.2 ⟨digit_of_mem_zeros, digit_of_mem_digits⟩
    refine (Decimal.pointed (List.cons_ne_nil '0' []) zero (by simp [some]) behind).of_eq
      (decimal_eq ?_ ?_)
    · simp [Nat.ofDigitChars_append, Nat.ofDigitChars_cons, ofDigitChars_digits]
    · rw [List.length_append, List.length_replicate]
      omega
  · split
    · -- the point stands among the digits
      rename_i right inside
      have taken : (digits c).take (grid + (digits c).length).toNat ≠ [] := by
        rw [ne_eq, List.take_eq_nil_iff]
        simp only [some, or_false]
        omega
      have left : (digits c).drop (grid + (digits c).length).toNat ≠ [] := by
        rw [ne_eq, List.drop_eq_nil_iff]
        omega
      refine (Decimal.pointed taken (fun d mem => digit_of_mem_digits d (List.mem_of_mem_take mem))
        left fun d mem => digit_of_mem_digits d (List.mem_of_mem_drop mem)).of_eq (decimal_eq ?_ ?_)
      · rw [List.take_append_drop, ofDigitChars_digits]
      · rw [List.length_drop]
        omega
    · -- zeros fill up to the point
      rename_i right outside
      have all : ∀ d ∈ digits c ++
          List.replicate ((grid + (digits c).length).toNat - (digits c).length) '0', Digit d :=
        List.forall_mem_append.2 ⟨digit_of_mem_digits, digit_of_mem_zeros⟩
      refine (decimal_ended (by simp [some]) all ends).of_eq ?_
      have zeros : grid = (((grid + (digits c).length).toNat - (digits c).length : Nat) : Int) := by
        omega
      rw [Nat.ofDigitChars_append, ofDigitChars_digits, Nat.ofDigitChars_replicate_zero]
      conv_rhs => rw [zeros, zpow_natCast]
      push_cast
      ring

/-! ## Layouts -/

/-- The layout writes all finite doubles as decimals with their signs. -/
structure Readable (l : Layout) : Prop where
  point : ∀ position, l.positional position
  zero : l.signedZero
  exactEnd : WholeEnd l.exactEnd
  shortestEnd : WholeEnd l.shortestEnd

variable {l : Layout}

theorem whole?_eq {n : Nat} (whole : whole? m e = some n) : (n : ℚ) = m * 2 ^ e := by
  unfold whole? at whole
  split at whole
  · rename_i divides
    have unit : (pow2 (-e) : ℚ) ≠ 0 := by exact_mod_cast (pow2_pos _).ne'
    have quotient : ((m / pow2 (-e) : Nat) : ℚ) * pow2 (-e) = m := by
      exact_mod_cast Nat.div_mul_cancel (Nat.dvd_of_mod_eq_zero divides)
    cases whole
    rw [← pow2_div, ← quotient]
    push_cast
    field_simp
  · cases whole

theorem reads_self (canonical : m = 0 ∧ e = -1074 ∨ Canonical m e) : Reads m e (m * 2 ^ e) := by
  rcases canonical with ⟨rfl, rfl⟩ | canonical
  · exact .inl ⟨⟨rfl, rfl⟩, by simp⟩
  · exact .inr ⟨canonical, roundsTo_self m e⟩

theorem reads_shortest (canonical : m = 0 ∧ e = -1074 ∨ Canonical m e) (tie : Tie) :
    Reads m e ((shortest m e tie).1 * 10 ^ (shortest m e tie).2) := by
  rcases canonical with ⟨rfl, rfl⟩ | canonical
  · exact .inl ⟨⟨rfl, rfl⟩, by simp [shortest]⟩
  · exact .inr ⟨canonical, roundsTo_shortest canonical tie⟩

/-- The shortest text of a double reads as it. -/
theorem lexeme_shortestText (readable : Readable l) (canonical : m = 0 ∧ e = -1074 ∨ Canonical m e) :
    Lexeme (.number (magnitude m e)) (shortestText l m e) := by
  unfold shortestText
  simp only [readable.point, ↓reduceIte]
  exact (decimal_pointed _ _ readable.shortestEnd).lexeme (reads_shortest canonical l.tie)

/-- The text of a finite double is its sign in front of a lexeme of its magnitude. -/
theorem lexeme_text (readable : Readable l) {x : Float} {negative : Bool}
    (spelt : Spelt x negative m e) : ∃ body, Lexeme (.number (magnitude m e)) body ∧
      (text l x).toList = (if negative then ['-'] else []) ++ body := by
  unfold text finiteText
  simp only [spelt.parts, String.toList_ofList]
  split
  · rename_i n whole
    split
    · refine ⟨_, (decimal_ended (digits_ne_nil n) digit_of_mem_digits readable.exactEnd).lexeme ?_, ?_⟩
      · rw [ofDigitChars_digits, whole?_eq whole]
        exact reads_self spelt.canonical
      · rw [readable.zero, Bool.not_true, Bool.and_false, if_neg Bool.false_ne_true,
          List.append_assoc]
    · exact ⟨_, lexeme_shortestText readable spelt.canonical, rfl⟩
  · exact ⟨_, lexeme_shortestText readable spelt.canonical, rfl⟩

/-! ## Numbers that were read -/

/-- A number in a source has no sign, and is infinite or put together from its parts. -/
theorem spelt_of_lexeme {x : Float} {source : List Char} (lexeme : Lexeme (.number x) source)
    (bounded : x.isInf = false) : ∃ m e, Spelt x false m e := by
  have read : ∃ n d, x = nearest n d := by
    cases lexeme with
    | integer | decimal => exact ⟨_, _, rfl⟩
    | operator listed => simp [operators] at listed
    | keyword listed => simp [Kind.reserved] at listed
  obtain ⟨n, d, rfl⟩ := read
  have least : nearestBits n d ≤ infinityBits := by
    unfold nearestBits
    split
    · exact Nat.zero_le _
    · exact Nat.min_le_right ..
  rcases Nat.lt_or_eq_of_le least with less | full
  · exact spelt_of_lt less
  · have infinite : (Float.ofBits (UInt64.ofNat infinityBits)).isInf = true := by decide +kernel
    unfold nearest at bounded
    rw [full, infinite] at bounded
    cases bounded

/-- What a source wrote for a number and what is written for it are lexemes of one number. -/
theorem lexeme_text_of_lexeme (readable : Readable l) {x : Float} {source : List Char}
    (lexeme : Lexeme (.number x) source) (bounded : x.isInf = false) :
    Lexeme (.number x) (text l x).toList := by
  obtain ⟨m, e, spelt⟩ := spelt_of_lexeme lexeme bounded
  obtain ⟨body, written, chars⟩ := lexeme_text readable spelt
  have value : x = magnitude m e := spelt.value
  rw [chars, value]
  exact written

end Lox.Number
