import SceneReplay.Number.Numeral
import SceneReplay.Proofs.Number.Nearest

/-!
# Written numbers are read back

Every number is written as a sign, digits, and perhaps a point with more digits and an
exponent (`SceneReplay.Numeral.spelling`). Whatever is spelt in this way is taken off the
front of a text in full, as long as a space, a closing bracket or the end of the line
follows (`SceneReplay.Numeral.scan?_spelling`).

Two facts come out of this. An integer of at most `SceneReplay.digitLimit` digits is
read back as it was written (`SceneReplay.Number.speltBy_int`). A finite double, written
with the shortest numeral, is read back as the very same double, whichever of the four
layouts it takes (`SceneReplay.Number.speltBy_float`).
-/

namespace SceneReplay

/-! ### Digits -/

namespace Text

/-- The decimal digits of a natural number. -/
def decimalDigits (n : Nat) : Text := ofChars (Nat.toDigits 10 n)

theorem digitValue?_of_isDigit {c : Char} (h : c.isDigit = true) :
    digitValue? c = some (c.toNat - '0'.toNat) := by
  have hrange : 48 ≤ c.toNat ∧ c.toNat ≤ 57 := by
    simpa [Char.isDigit, UInt32.le_iff_toNat_le] using h
  have hfirst : digitZeros.find? (fun z => z ≤ (CodePoint.char c).code &&
      (CodePoint.char c).code < z + 10) = some 0x30 := by
    have hfirst : (decide (48 ≤ c.toNat) && decide (c.toNat < 48 + 10)) = true := by
      simp only [Bool.and_eq_true, decide_eq_true_eq]
      omega
    rw [digitZeros, List.find?_cons_of_pos]
    exact hfirst
  rw [digitValue?, hfirst]
  rfl

theorem isDigit_of_isDigit {c : Char} (h : c.isDigit = true) : isDigit c = true := by
  rw [isDigit, digitValue?_of_isDigit h]
  rfl

/-- The value of ASCII digits. -/
theorem digitsValue_ofChars {cs : List Char} (h : ∀ c ∈ cs, c.isDigit = true) :
    digitsValue (ofChars cs) = Nat.ofDigitChars 10 cs 0 := by
  have key : ∀ (cs : List Char) (n : Nat), (∀ c ∈ cs, c.isDigit = true) →
      (ofChars cs).foldl (fun n c => n * 10 + (digitValue? c).getD 0) n
        = Nat.ofDigitChars 10 cs n := by
    intro cs
    induction cs with
    | nil => intro n _; simp [ofChars]
    | cons c cs ih =>
      intro n hcs
      obtain ⟨hc, hcs⟩ := List.forall_mem_cons.1 hcs
      have hvalue := digitValue?_of_isDigit hc
      rw [Nat.ofDigitChars_cons, Nat.mul_comm 10 n, ← ih _ hcs]
      simp only [ofChars, List.map_cons, List.foldl_cons, hvalue, Option.getD_some]
  exact key cs 0 h

theorem isDigit_of_mem_toDigits {c : Char} {n : Nat} (h : c ∈ Nat.toDigits 10 n) :
    c.isDigit = true :=
  Nat.isDigit_of_mem_toDigits (by decide) (by decide) h

theorem isDigit_of_mem_ofChars {cs : List Char} (h : ∀ c ∈ cs, c.isDigit = true) :
    ∀ c ∈ ofChars cs, isDigit c = true := by
  intro c hc
  obtain ⟨d, hd, rfl⟩ := List.mem_map.1 hc
  exact isDigit_of_isDigit (h d hd)

/-- Between the ASCII digits and the next run of digits lie the letters. -/
theorem isDigit_eq_false {c : CodePoint} (hlow : 58 ≤ c.code) (hhigh : c.code < 0x660) :
    isDigit c = false := by
  have hzeros : ∀ z ∈ digitZeros, z = 48 ∨ 0x660 ≤ z := by decide
  have hnone : digitZeros.find? (fun z => z ≤ c.code && c.code < z + 10) = none := by
    refine List.find?_eq_none.2 fun z hz => ?_
    rw [Bool.and_eq_true, decide_eq_true_eq, decide_eq_true_eq]
    have := hzeros z hz
    omega
  rw [isDigit, digitValue?, hnone]
  rfl

/-- A digit stands in no other place of a numeral. -/
theorem ne_of_isDigit {c : CodePoint} (h : isDigit c = true) :
    c ≠ .char '-' ∧ c ≠ .char '+' ∧ c ≠ .char '.' ∧ c ≠ .char ' ' ∧ c ≠ .char '\t' ∧
      c ≠ .char '\r' ∧ c ≠ .char '\x0C' ∧ c ≠ .char '\x0B' ∧ c ≠ .char '\n' ∧ c ≠ .char '#' ∧
      c ≠ .char '"' := by
  refine ⟨?_, ?_, ?_, ?_, ?_, ?_, ?_, ?_, ?_, ?_, ?_⟩ <;>
  · rintro rfl
    revert h
    decide

end Text

/-! ### The spelling of a numeral -/

/-- What may follow a number or a name in a written line. -/
def Delimits : Text → Prop
  | [] => True
  | c :: _ => c = .char ' ' ∨ c = .char ']' ∨ c = .char '\n'

theorem delimits_space (rest : Text) : Delimits (.char ' ' :: rest) := Or.inl rfl

theorem delimits_closing (rest : Text) : Delimits (.char ']' :: rest) := Or.inr (Or.inl rfl)

theorem delimits_lineEnd (rest : Text) : Delimits (.char '\n' :: rest) := Or.inr (Or.inr rfl)

namespace Numeral

/-- The minus sign, if there is one. -/
def signText (negative : Bool) : Text := if negative then [.char '-'] else []

/-- The point and the digits after it, if there is a point. -/
def fractionText : Option Text → Text
  | none => []
  | some places => .char '.' :: places

/-- The exponent, always with its sign, if there is one. -/
def exponentText : Option (Bool × Text) → Text
  | none => []
  | some (negative, ds) => .char 'e' :: .char (if negative then '-' else '+') :: ds

/-- A numeral as it is written. -/
def spelling (n : Numeral) : Text :=
  signText n.negative ++ (n.whole ++ (fractionText n.fraction ++ exponentText n.exponent))

/-- A numeral made of digits, with some before the point, and some in its exponent. -/
structure IsSpelt (n : Numeral) : Prop where
  /-- There are digits before the point. -/
  whole_ne_nil : n.whole ≠ []
  /-- They are digits. -/
  whole : ∀ c ∈ n.whole, Text.isDigit c = true
  /-- After the point there are digits only. -/
  fraction : ∀ places, n.fraction = some places → ∀ c ∈ places, Text.isDigit c = true
  /-- So there are in the exponent, and at least one. -/
  exponent : ∀ negative ds, n.exponent = some (negative, ds) →
    ds ≠ [] ∧ ∀ c ∈ ds, Text.isDigit c = true

/-- Digits are taken off the front of a text up to what is none. -/
theorem takeWhile_digits {ds rest : Text} (h : ∀ c ∈ ds, Text.isDigit c = true)
    (hrest : ∀ c cs, rest = c :: cs → Text.isDigit c = false) :
    (ds ++ rest).takeWhile Text.isDigit = ds ∧ (ds ++ rest).dropWhile Text.isDigit = rest := by
  have hnone : rest.takeWhile Text.isDigit = [] ∧ rest.dropWhile Text.isDigit = rest := by
    cases rest with
    | nil => exact ⟨rfl, rfl⟩
    | cons c cs => simp [hrest c cs rfl]
  rw [List.takeWhile_append_of_pos h, List.dropWhile_append_of_pos h, hnone.1, hnone.2,
    List.append_nil]
  exact ⟨rfl, rfl⟩

theorem not_isDigit_of_delimits {rest : Text} (h : Delimits rest) :
    ∀ c cs, rest = c :: cs → Text.isDigit c = false := by
  rintro c cs rfl
  rcases h with rfl | rfl | rfl <;> decide

theorem takeSign_spelling (negative : Bool) {ds : Text} (hne : ds ≠ [])
    (h : ∀ c ∈ ds, Text.isDigit c = true) (rest : Text) :
    takeSign (signText negative ++ (ds ++ rest)) = (negative, ds ++ rest) := by
  cases negative with
  | true => rfl
  | false =>
    obtain ⟨d, ds, rfl⟩ := List.exists_cons_of_ne_nil hne
    obtain ⟨hminus, hplus, -⟩ := Text.ne_of_isDigit (h d List.mem_cons_self)
    change takeSign (d :: (ds ++ rest)) = _
    unfold takeSign
    split
    · exact absurd (List.cons.inj ‹_›).1 hminus
    · exact absurd (List.cons.inj ‹_›).1 hplus
    · rfl

/-- An exponent is taken off in full. -/
theorem takeExponent_spelling {exponent : Option (Bool × Text)}
    (h : ∀ negative ds, exponent = some (negative, ds) →
      ds ≠ [] ∧ ∀ c ∈ ds, Text.isDigit c = true) {rest : Text} (hrest : Delimits rest) :
    takeExponent (exponentText exponent ++ rest) = (exponent, rest) := by
  cases exponent with
  | none =>
    cases rest with
    | nil => rfl
    | cons c cs => rcases hrest with rfl | rfl | rfl <;> rfl
  | some e =>
    obtain ⟨negative, ds⟩ := e
    obtain ⟨hne, hds⟩ := h negative ds rfl
    obtain ⟨htake, hdrop⟩ := takeWhile_digits hds (not_isDigit_of_delimits hrest)
    have hsign : takeSign (.char (if negative then '-' else '+') :: (ds ++ rest))
        = (negative, ds ++ rest) := by
      cases negative <;> rfl
    simp only [exponentText, List.cons_append, takeExponent, hsign, htake, hdrop]
    simp [hne]

/-- **A spelt numeral is taken off the front of a text in full.** -/
theorem scan?_spelling {n : Numeral} (h : n.IsSpelt) {rest : Text} (hrest : Delimits rest) :
    scan? (n.spelling ++ rest) = some (n, rest) := by
  obtain ⟨negative, whole, fraction, exponent⟩ := n
  have hexponent := takeExponent_spelling h.exponent hrest
  generalize htail : exponentText exponent ++ rest = tail at hexponent
  -- What follows the digits of the fraction, or of the whole part, is no digit.
  have htail_digit : ∀ c cs, tail = c :: cs → Text.isDigit c = false := by
    subst htail
    cases exponent with
    | none => exact not_isDigit_of_delimits hrest
    | some e =>
      rintro c cs hc
      cases hc
      decide
  have htail_point : ∀ cs, tail ≠ .char '.' :: cs := by
    subst htail
    cases exponent with
    | none =>
      rintro cs (hc : rest = .char '.' :: cs)
      subst hc
      rcases hrest with hc | hc | hc <;> cases hc
    | some e => nofun
  have hspelling : spelling ⟨negative, whole, fraction, exponent⟩ ++ rest
      = signText negative ++ (whole ++ (fractionText fraction ++ tail)) := by
    rw [← htail]
    simp only [spelling, List.append_assoc]
  rw [hspelling, scan?, takeSign_spelling negative h.whole_ne_nil h.whole]
  cases fraction with
  | none =>
    obtain ⟨htake, hdrop⟩ := takeWhile_digits h.whole htail_digit
    have hfraction : takeFraction tail = (none, tail) := by
      unfold takeFraction
      split
      · exact absurd rfl (htail_point _)
      · rfl
    simp only [fractionText, List.nil_append, htake, hdrop, hfraction, hexponent]
    simp [h.whole_ne_nil]
  | some places =>
    have hpoint : ∀ c cs, CodePoint.char '.' :: (places ++ tail) = c :: cs →
        Text.isDigit c = false := by
      rintro c cs hc
      cases hc
      decide
    obtain ⟨htake, hdrop⟩ := takeWhile_digits h.whole hpoint
    obtain ⟨htake', hdrop'⟩ := takeWhile_digits (h.fraction places rfl) htail_digit
    simp only [fractionText, List.cons_append, htake, hdrop, takeFraction, htake', hdrop',
      hexponent]
    simp [h.whole_ne_nil]

end Numeral

/-! ### Layouts -/

namespace Text

theorem ofChars_append (cs ds : List Char) : ofChars (cs ++ ds) = ofChars cs ++ ofChars ds := by
  simp [ofChars]

theorem isDigit_of_mem_decimalDigits (n : Nat) : ∀ c ∈ decimalDigits n, isDigit c = true :=
  isDigit_of_mem_ofChars fun _ => isDigit_of_mem_toDigits

theorem decimalDigits_ne_nil (n : Nat) : decimalDigits n ≠ [] := by
  simp [decimalDigits, ofChars]

theorem digitsValue_decimalDigits (n : Nat) : digitsValue (decimalDigits n) = n := by
  rw [decimalDigits, digitsValue_ofChars fun _ => isDigit_of_mem_toDigits,
    Nat.ofDigitChars_ten_toDigits]

end Text

namespace Decimal

/-- **What a numeral written without its sign is spelt like**: its digits before and after
the point, and its exponent. It is never spelt like an integer, and its value is that of
the numeral. -/
structure SpeltAs (cs : List Char) (d : Decimal) (whole : Text) (fraction : Option Text)
    (exponent : Option (Bool × Text)) : Prop where
  /-- The parts make up the text. -/
  text : Text.ofChars cs
    = whole ++ (Numeral.fractionText fraction ++ Numeral.exponentText exponent)
  /-- The parts are made of digits. -/
  spelt : ∀ negative, (Numeral.mk negative whole fraction exponent).IsSpelt
  /-- There is a point or an exponent. -/
  float : ¬ (fraction = none ∧ exponent = none)
  /-- The value is that of the numeral. -/
  value : ∀ negative, (Numeral.mk negative whole fraction exponent).decimal.toBinary64 negative
    = d.toBinary64 negative

/-- The power of ten that an exponent stands for. -/
def powerOf : Option (Bool × List Char) → Int
  | none => 0
  | some (negative, ds) =>
    if negative then -(Nat.ofDigitChars 10 ds 0 : Int) else Nat.ofDigitChars 10 ds 0

/-- Parts made of ASCII digits spell what their digits and their exponent say. -/
theorem speltAs_of_parts {cs : List Char} {d : Decimal} (whole places : List Char)
    (fraction : Option (List Char)) (exponent : Option (Bool × List Char))
    (hplaces : fraction.getD [] = places)
    (htext : Text.ofChars cs = Text.ofChars whole ++
      (Numeral.fractionText (fraction.map Text.ofChars) ++
        Numeral.exponentText (exponent.map fun e => (e.1, Text.ofChars e.2))))
    (hne : whole ≠ []) (hdigits : ∀ c ∈ whole ++ places, c.isDigit = true)
    (hexponent : ∀ e, exponent = some e → e.2 ≠ [] ∧ ∀ c ∈ e.2, c.isDigit = true)
    (hfloat : ¬ (fraction = none ∧ exponent = none))
    (hvalue : ∀ negative, toBinary64 negative
      ⟨Nat.ofDigitChars 10 (whole ++ places) 0, powerOf exponent - places.length⟩
        = toBinary64 negative d) :
    SpeltAs cs d (Text.ofChars whole) (fraction.map Text.ofChars)
      (exponent.map fun e => (e.1, Text.ofChars e.2)) := by
  obtain ⟨hwhole, hfraction⟩ := List.forall_mem_append.1 hdigits
  refine ⟨htext, fun negative => ⟨?_, Text.isDigit_of_mem_ofChars hwhole, ?_, ?_⟩, ?_, ?_⟩
  · simpa [Text.ofChars] using hne
  · intro ps hps
    obtain ⟨qs, rfl, rfl⟩ := Option.map_eq_some_iff.1 hps
    obtain rfl : qs = places := hplaces
    exact Text.isDigit_of_mem_ofChars hfraction
  · intro negative ds hds
    obtain ⟨e, rfl, he⟩ := Option.map_eq_some_iff.1 hds
    cases he
    obtain ⟨hne, hall⟩ := hexponent e rfl
    exact ⟨by simpa [Text.ofChars] using hne, Text.isDigit_of_mem_ofChars hall⟩
  · simpa using hfloat
  · intro negative
    rw [← hvalue negative]
    have hgetD : (fraction.map Text.ofChars).getD [] = Text.ofChars places := by
      rw [← hplaces]
      cases fraction <;> rfl
    have hmagnitude : Text.digitsValue (Text.ofChars whole ++ Text.ofChars places)
        = Nat.ofDigitChars 10 (whole ++ places) 0 := by
      rw [← Text.ofChars_append, Text.digitsValue_ofChars hdigits]
    have hlength : (Text.ofChars places).length = places.length := by simp [Text.ofChars]
    simp only [Numeral.decimal, hgetD, hmagnitude, hlength]
    cases exponent with
    | none => rfl
    | some e =>
      have hpower := Text.digitsValue_ofChars (hexponent e rfl).2
      simp only [Option.map_some, hpower, powerOf]

/-- An integer with a point and a zero behind it. -/
theorem speltAs_whole (digits : Nat) {e : Nat} (he : e ≤ 400) :
    ∃ whole fraction exponent,
      SpeltAs (Nat.toDigits 10 digits ++ List.replicate e '0' ++ ['.', '0']) ⟨digits, e⟩ whole
        fraction exponent := by
  refine ⟨_, _, _, speltAs_of_parts (Nat.toDigits 10 digits ++ List.replicate e '0') ['0']
    (some ['0']) none rfl ?_ (by simp) ?_ nofun (by simp) ?_⟩
  · simp [Text.ofChars, Numeral.fractionText, Numeral.exponentText]
  · intro c hc
    simp only [List.mem_append, List.mem_replicate, List.mem_singleton] at hc
    rcases hc with (hc | ⟨-, rfl⟩) | rfl
    · exact Text.isDigit_of_mem_toDigits hc
    · rfl
    · rfl
  · intro negative
    have hdigits : Nat.ofDigitChars 10 (Nat.toDigits 10 digits ++ List.replicate e '0' ++ ['0']) 0
        = digits * 10 ^ e * 10 := by
      rw [Nat.ofDigitChars_append, Nat.ofDigitChars_append, Nat.ofDigitChars_ten_toDigits,
        Nat.ofDigitChars_replicate_zero, Nat.ofDigitChars_cons, Nat.ofDigitChars_nil,
        Nat.mul_comm (10 ^ e), Nat.mul_comm 10]
      rfl
    rw [hdigits]
    exact toBinary64_place negative digits he

/-- The point among the digits. -/
theorem speltAs_among (digits : Nat) {e : Int} {k : Nat} (hk : 0 < k)
    (hlen : (k : Int) = (Nat.toDigits 10 digits).length + e)
    (he : e < 0) :
    ∃ whole fraction exponent,
      SpeltAs ((Nat.toDigits 10 digits).take k ++ '.' :: (Nat.toDigits 10 digits).drop k)
        ⟨digits, e⟩ whole fraction exponent := by
  refine ⟨_, _, _, speltAs_of_parts ((Nat.toDigits 10 digits).take k)
    ((Nat.toDigits 10 digits).drop k) (some ((Nat.toDigits 10 digits).drop k)) none rfl ?_ ?_ ?_
    nofun (by simp) ?_⟩
  · simp [Text.ofChars, Numeral.fractionText, Numeral.exponentText]
  · simp only [ne_eq, List.take_eq_nil_iff, Nat.toDigits_ne_nil, or_false]
    omega
  · rw [List.take_append_drop]
    exact fun c => Text.isDigit_of_mem_toDigits
  · intro negative
    have hlength : ((Nat.toDigits 10 digits).drop k).length = (-e).toNat := by
      rw [List.length_drop]
      omega
    have hexp : powerOf none - (((-e).toNat : Nat) : Int) = e := by
      change (0 : Int) - _ = e
      omega
    rw [List.take_append_drop, Nat.ofDigitChars_ten_toDigits, hlength, hexp]

/-- The point in front of all digits, and zeros between. -/
theorem speltAs_front (digits : Nat) {e : Int} {k : Nat}
    (hlen : (k : Int) + (Nat.toDigits 10 digits).length = -e) :
    ∃ whole fraction exponent,
      SpeltAs ('0' :: '.' :: List.replicate k '0' ++ Nat.toDigits 10 digits) ⟨digits, e⟩ whole
        fraction exponent := by
  refine ⟨_, _, _, speltAs_of_parts ['0'] (List.replicate k '0' ++ Nat.toDigits 10 digits)
    (some (List.replicate k '0' ++ Nat.toDigits 10 digits)) none rfl ?_ (by simp) ?_ nofun
    (by simp) ?_⟩
  · simp [Text.ofChars, Numeral.fractionText, Numeral.exponentText]
  · intro c hc
    simp only [List.mem_append, List.mem_replicate, List.mem_singleton] at hc
    rcases hc with rfl | ⟨-, rfl⟩ | hc
    · rfl
    · rfl
    · exact Text.isDigit_of_mem_toDigits hc
  · intro negative
    have hdigits : Nat.ofDigitChars 10 (['0'] ++ (List.replicate k '0' ++ Nat.toDigits 10 digits)) 0
        = digits := by
      rw [Nat.ofDigitChars_append, Nat.ofDigitChars_append, Nat.ofDigitChars_cons,
        Nat.ofDigitChars_nil, Nat.ofDigitChars_replicate_zero]
      simp
    have hexp : powerOf none - ((List.replicate k '0' ++ Nat.toDigits 10 digits).length : Int)
        = e := by
      rw [List.length_append, List.length_replicate]
      change (0 : Int) - _ = e
      omega
    rw [hdigits, hexp]

/-- Digits filled up with zeros have the same value. -/
theorem ofDigitChars_padded (width n : Nat) : Nat.ofDigitChars 10 (padded width n) 0 = n := by
  rw [padded, Nat.ofDigitChars_append, Nat.ofDigitChars_replicate_zero, Nat.mul_zero,
    Nat.ofDigitChars_ten_toDigits]

/-- One digit, perhaps a point and the others, and an exponent. -/
theorem speltAs_scientific (digits : Nat) {e magnitude : Int} (width : Nat)
    (hlen : magnitude = (Nat.toDigits 10 digits).length - 1 + e) :
    ∃ whole fraction exponent,
      SpeltAs ((match Nat.toDigits 10 digits with
        | [] => []
        | [c] => [c]
        | c :: cs => c :: '.' :: cs) ++
          'e' :: (if magnitude < 0 then '-' else '+') :: padded width magnitude.natAbs)
        ⟨digits, e⟩ whole fraction exponent := by
  obtain ⟨c, cs, hcs⟩ := List.exists_cons_of_ne_nil (Nat.toDigits_ne_nil (b := 10) (n := digits))
  have hvalue : Nat.ofDigitChars 10 (c :: cs) 0 = digits := by
    rw [← hcs, Nat.ofDigitChars_ten_toDigits]
  have hdigits : ∀ d ∈ c :: cs, d.isDigit = true := by
    rw [← hcs]
    exact fun d => Text.isDigit_of_mem_toDigits
  have hexponent : ∀ x, some (decide (magnitude < 0), padded width magnitude.natAbs) = some x →
      x.2 ≠ [] ∧ ∀ d ∈ x.2, d.isDigit = true := by
    rintro x hx
    cases hx
    refine ⟨by simp [padded], fun d hd => ?_⟩
    simp only [padded, List.mem_append, List.mem_replicate] at hd
    rcases hd with ⟨-, rfl⟩ | hd
    · rfl
    · exact Text.isDigit_of_mem_toDigits hd
  have hpower : powerOf (some (decide (magnitude < 0), padded width magnitude.natAbs))
      = magnitude := by
    simp only [powerOf, ofDigitChars_padded, decide_eq_true_eq]
    split <;> omega
  rw [hcs] at hlen ⊢
  cases cs with
  | nil =>
    refine ⟨_, _, _, speltAs_of_parts [c] [] none
      (some (decide (magnitude < 0), padded width magnitude.natAbs)) rfl ?_ (by simp) hdigits
      hexponent (by simp) ?_⟩
    · simp [Text.ofChars, Numeral.fractionText, Numeral.exponentText]
    · intro negative
      have hexp : magnitude - (([] : List Char).length : Int) = e := by
        simp only [List.length_cons, List.length_nil] at hlen ⊢
        omega
      rw [hpower, hexp, List.append_nil, hvalue]
  | cons d ds =>
    refine ⟨_, _, _, speltAs_of_parts [c] (d :: ds) (some (d :: ds))
      (some (decide (magnitude < 0), padded width magnitude.natAbs)) rfl ?_ (by simp) hdigits
      hexponent (by simp) ?_⟩
    · simp [Text.ofChars, Numeral.fractionText, Numeral.exponentText]
    · intro negative
      have hexp : magnitude - ((d :: ds).length : Int) = e := by
        simp only [List.length_cons] at hlen ⊢
        omega
      rw [hpower, hexp, List.singleton_append, hvalue]

/-- **However a numeral is laid out, it is spelt with its own value.** -/
theorem exists_speltAs (d : Decimal) : ∃ whole fraction exponent,
    SpeltAs (d.render .standard) d whole fraction exponent := by
  obtain ⟨digits, e⟩ := d
  have hpos : 0 < (Nat.toDigits 10 digits).length := Nat.length_toDigits_pos
  unfold render
  simp only [Layout.standard]
  split
  · rename_i hplain
    have hrange : -4 ≤ ((Nat.toDigits 10 digits).length : Int) - 1 + e ∧
        ((Nat.toDigits 10 digits).length : Int) - 1 + e < 16 := by
      rw [Bool.and_eq_true] at hplain
      exact ⟨of_decide_eq_true hplain.1, of_decide_eq_true hplain.2⟩
    split
    · rename_i he
      obtain ⟨n, rfl⟩ := Int.eq_ofNat_of_zero_le he
      have hn : n ≤ 400 := by omega
      exact speltAs_whole digits hn
    · rename_i he
      split
      · rename_i hmagnitude
        exact speltAs_among digits (by omega) (by omega) (by omega)
      · rename_i hmagnitude
        exact speltAs_front digits (by omega)
  · exact speltAs_scientific digits 2 rfl

end Decimal

/-! ### Integers and doubles -/

/-- A text spells a number: it is the spelling of a numeral with that value. -/
def Number.SpeltBy (n : Number) (t : Text) : Prop :=
  ∃ m : Numeral, t = m.spelling ∧ m.IsSpelt ∧ m.value = .ok n

/-- **A spelt number is read back** as a whole, whatever delimits it. -/
theorem Number.SpeltBy.scan? {n : Number} {t : Text} (h : n.SpeltBy t) {rest : Text}
    (hrest : Delimits rest) :
    ∃ m, Numeral.scan? (t ++ rest) = some (m, rest) ∧ m.value = .ok n := by
  obtain ⟨m, rfl, hspelt, hvalue⟩ := h
  exact ⟨m, Numeral.scan?_spelling hspelt hrest, hvalue⟩

/-- An integer in decimal digits. -/
theorem Text.ofString_toString (n : Int) :
    ofString (toString n) = Numeral.signText (n < 0) ++ decimalDigits n.natAbs := by
  rw [Int.toString_eq_repr, Int.repr_eq_if]
  by_cases hn : 0 ≤ n
  · have habs : n.toNat = n.natAbs := by omega
    rw [if_pos hn, habs, Numeral.signText, if_neg (by simpa using hn)]
    simp [ofString, decimalDigits]
  · have habs : (-n).toNat = n.natAbs := by omega
    rw [if_neg hn, habs, Numeral.signText, if_pos (by simpa using hn), ofString_append]
    simp [ofString, ofChars, decimalDigits]

/-- **Integers are spelt in decimal digits**, up to the limit on digits. -/
theorem Number.speltBy_int {n : Int} (h : n.natAbs < 10 ^ digitLimit) :
    (Number.int n).SpeltBy (toString n : String) := by
  refine ⟨⟨n < 0, Text.decimalDigits n.natAbs, none, none⟩, ?_, ?_, ?_⟩
  · rw [Text.ofString_toString]
    simp [Numeral.spelling, Numeral.fractionText, Numeral.exponentText]
  · exact ⟨Text.decimalDigits_ne_nil _, Text.isDigit_of_mem_decimalDigits _, nofun, nofun⟩
  · have hlength : ¬ digitLimit < (Text.decimalDigits n.natAbs).length := by
      rw [Text.decimalDigits, Text.ofChars, List.length_map, Nat.not_lt]
      exact (Nat.length_toDigits_le_iff (by decide) (by decide)).2 h
    simp only [Numeral.value, hlength, if_false, Text.digitsValue_decimalDigits,
      decide_eq_true_eq]
    congr 2
    omega

/-- **Finite doubles are spelt by their shortest numeral.** -/
theorem Number.speltBy_float (negative : Bool) (rank : Fin Binary64.rankLimit) :
    (Number.float (.finite negative rank)).SpeltBy (Binary64.finite negative rank).text := by
  obtain ⟨whole, fraction, exponent, htext, hspelt, hfloat, hvalue⟩ :
      ∃ whole fraction exponent,
        Text.ofChars (Binary64.magnitudeText rank)
          = whole ++ (Numeral.fractionText fraction ++ Numeral.exponentText exponent) ∧
        (Numeral.mk negative whole fraction exponent).IsSpelt ∧
        ¬ (fraction = none ∧ exponent = none) ∧
        (Numeral.mk negative whole fraction exponent).decimal.toBinary64 negative
          = .finite negative rank := by
    by_cases hzero : rank.val = 0
    · refine ⟨[.char '0'], some [.char '0'], none, ?_, ?_, by simp, ?_⟩
      · rw [Binary64.magnitudeText, if_pos hzero]
        rfl
      · have hdigit : ∀ c ∈ [CodePoint.char '0'], Text.isDigit c = true := by
          intro c hc
          rw [List.mem_singleton] at hc
          subst hc
          exact Text.isDigit_of_isDigit rfl
        refine ⟨by simp, hdigit, fun places hplaces => ?_, nofun⟩
        cases hplaces
        exact hdigit
      · have hdigits : (Numeral.mk negative [.char '0'] (some [.char '0']) none).decimal.digits
            = 0 := by
          revert negative
          decide
        have hrank : rank = ⟨0, by decide⟩ := Fin.ext hzero
        rw [Decimal.toBinary64, if_pos hdigits, hrank]
        rfl
    · obtain ⟨whole, fraction, exponent, h⟩ := (Decimal.shortest rank).exists_speltAs
      refine ⟨whole, fraction, exponent, ?_, h.spelt negative, h.float, ?_⟩
      · rw [Binary64.magnitudeText, if_neg hzero, h.text]
      · rw [h.value negative, Decimal.toBinary64_shortest rank.isLt hzero, Binary64.ofRank,
          dif_pos rank.isLt]
  refine ⟨⟨negative, whole, fraction, exponent⟩, ?_, hspelt, ?_⟩
  · rw [Numeral.spelling, ← htext]
    cases negative <;> simp [Binary64.text, Text.ofString, Text.ofChars, Numeral.signText]
  · unfold Numeral.value
    split
    · rename_i hf he
      exact absurd ⟨hf, he⟩ hfloat
    · rw [hvalue]

end SceneReplay
