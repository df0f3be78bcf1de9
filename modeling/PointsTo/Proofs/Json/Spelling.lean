import Mathlib.Data.List.Chain
import PointsTo.Json.Token

namespace PointsTo.Json

theorem forall_mem_of_all {p : Char → Prop} [DecidablePred p] {cs : List Char}
    (checked : cs.all fun c => decide (p c)) : ∀ c ∈ cs, p c :=
  fun c listed => of_decide_eq_true (List.all_eq_true.mp checked c listed)

section strings

/-- The hexadecimal digits, small and capital, with their values. -/
def hexDigits : List (Char × Nat) := "0123456789abcdef".toList.zipIdx ++ "0123456789ABCDEF".toList.zipIdx

/-- Four hexadecimal digits that spell a 16-bit unit. -/
inductive UnitSpelled : Nat → List Char → Prop
  | digits {a b c d : Char} {i j k l : Nat} : (a, i) ∈ hexDigits → (b, j) ∈ hexDigits → (c, k) ∈ hexDigits →
    (d, l) ∈ hexDigits → UnitSpelled (4096 * i + 256 * j + 16 * k + l) [a, b, c, d]

/-- The letters of the two-character escapes, and what they stand for. -/
def shortEscapes : List (Char × Char) :=
  [('"', '"'), ('\\', '\\'), ('/', '/'), ('b', '\x08'), ('f', '\x0c'), ('n', '\n'), ('r', '\x0d'), ('t', '\t')]

/-- The ways to write one character of a string. -/
inductive CharSpelled : Char → List Char → Prop
  | plain {c : Char} : 0x20 ≤ c.toNat → c ≠ '"' → c ≠ '\\' → CharSpelled c [c]
  | short {letter c : Char} : (letter, c) ∈ shortEscapes → CharSpelled c ['\\', letter]
  | unit {c : Char} {digits : List Char} : UnitSpelled c.toNat digits → CharSpelled c ('\\' :: 'u' :: digits)
  | pair {c : Char} {leading trailing : List Char} : 0x10000 ≤ c.toNat →
    UnitSpelled (0xD800 + (c.toNat - 0x10000) / 0x400) leading →
    UnitSpelled (0xDC00 + (c.toNat - 0x10000) % 0x400) trailing →
    CharSpelled c ('\\' :: 'u' :: leading ++ '\\' :: 'u' :: trailing)

/-- The ways to write the characters of a string, one after the other. -/
inductive TextSpelled : List Char → List Char → Prop
  | nil : TextSpelled [] []
  | cons {c : Char} {cs spelling rest : List Char} : CharSpelled c spelling → TextSpelled cs rest →
    TextSpelled (c :: cs) (spelling ++ rest)

theorem hexValue?_of_mem {c : Char} {value : Nat} (digit : (c, value) ∈ hexDigits) :
    hexValue? c = some value := by
  have table : ∀ p ∈ hexDigits, hexValue? p.1 = some p.2 := by decide
  exact table _ digit

theorem UnitSpelled.unit?_eq {u : Nat} {digits : List Char} (spelled : UnitSpelled u digits) :
    ∃ a b c d, digits = [a, b, c, d] ∧ unit? a b c d = some u := by
  obtain ⟨first, second, third, fourth⟩ := spelled
  refine ⟨_, _, _, _, rfl, ?_⟩
  simp [unit?, hexValue?_of_mem first, hexValue?_of_mem second, hexValue?_of_mem third,
    hexValue?_of_mem fourth]

/-- No character is half of a surrogate pair. -/
theorem toNat_not_surrogate (c : Char) : isLeading c.toNat = false ∧ isTrailing c.toNat = false := by
  have valid : c.toNat < 0xD800 ∨ 0xDFFF < c.toNat ∧ c.toNat < 0x110000 := c.valid
  simp only [isLeading, isTrailing, Bool.and_eq_false_imp, decide_eq_true_eq, decide_eq_false_iff_not]
  omega

theorem toNat_lt (c : Char) : c.toNat < 0x110000 := by
  have valid : c.toNat < 0xD800 ∨ 0xDFFF < c.toNat ∧ c.toNat < 0x110000 := c.valid
  omega

/-- A character beyond the first 65536 is the character of its surrogate pair. -/
theorem pairChar_halves {c : Char} (beyond : 0x10000 ≤ c.toNat) :
    pairChar (0xD800 + (c.toNat - 0x10000) / 0x400) (0xDC00 + (c.toNat - 0x10000) % 0x400) = c := by
  have whole : 0x10000 + 1024 * (0xD800 + (c.toNat - 0x10000) / 0x400 - 0xD800)
      + (0xDC00 + (c.toNat - 0x10000) % 0x400 - 0xDC00) = c.toNat := by omega
  rw [pairChar, whole, Char.ofNat_toNat]

/-- One character is read, however it is written. -/
theorem scanText_char {c : Char} {spelling : List Char} (spelled : CharSpelled c spelling)
    (rest : List Char) :
    scanText (spelling ++ rest) = (scanText rest).map fun (cs, r) => (c :: cs, r) := by
  cases spelled with
  | plain printable noQuote noBackslash =>
    have plain : isPlain c = true := by simp [isPlain, printable, noQuote, noBackslash]
    simp [scanText, plain, noBackslash]
  | short listed =>
    have table : ∀ p ∈ shortEscapes, escaped? p.1 = some p.2 ∧ p.1 ≠ 'u' := by decide
    obtain ⟨stands, notUnit⟩ := table _ listed
    simp [scanText, stands, notUnit]
  | unit digits =>
    obtain ⟨p, q, r, s, rfl, value⟩ := digits.unit?_eq
    obtain ⟨notLeading, notTrailing⟩ := toNat_not_surrogate c
    simp [scanText, value, notLeading, notTrailing]
  | pair beyond leading trailing =>
    obtain ⟨p, q, r, s, rfl, first⟩ := leading.unit?_eq
    obtain ⟨p', q', r', s', rfl, second⟩ := trailing.unit?_eq
    have bound := toNat_lt c
    have isFirst : isLeading (0xD800 + (c.toNat - 0x10000) / 0x400) = true := by
      simp only [isLeading, Bool.and_eq_true, decide_eq_true_eq]
      omega
    have isSecond : isTrailing (0xDC00 + (c.toNat - 0x10000) % 0x400) = true := by
      simp only [isTrailing, Bool.and_eq_true, decide_eq_true_eq]
      omega
    simp [scanText, first, second, isFirst, isSecond, pairChar_halves beyond]

theorem scanText_spelled {cs spelling : List Char} (spelled : TextSpelled cs spelling) (rest : List Char) :
    scanText (spelling ++ '"' :: rest) = some (cs, rest) := by
  induction spelled with
  | nil => rfl
  | cons first _ ih => rw [List.append_assoc, scanText_char first, ih]; rfl

theorem textSpelled_plain {cs : List Char} (plain : ∀ c ∈ cs, 0x20 ≤ c.toNat ∧ c ≠ '"' ∧ c ≠ '\\') :
    TextSpelled cs cs := by
  induction cs with
  | nil => exact .nil
  | cons c cs ih =>
    obtain ⟨printable, noQuote, noBackslash⟩ := plain c List.mem_cons_self
    exact .cons (.plain printable noQuote noBackslash) (ih fun d later => plain d (List.mem_cons_of_mem _ later))

end strings

section numbers

/-- At least one decimal digit. -/
def Digits (ds : List Char) : Prop := ds ≠ [] ∧ ∀ c ∈ ds, c.isDigit

/-- The ways to write the digits after the point. -/
inductive FractionSpelled : List Char → List Char → Prop
  | none : FractionSpelled [] []
  | point {ds : List Char} : Digits ds → FractionSpelled ds ('.' :: ds)

/-- The ways to write an exponent. -/
inductive ExponentSpelled : Option Exponent → List Char → Prop
  | none : ExponentSpelled none []
  | mark {negative : Bool} {ds sign : List Char} {letter : Char} : letter ∈ ['e', 'E'] →
    sign ∈ (if negative then [['-']] else [[], ['+']]) → Digits ds →
    ExponentSpelled (some ⟨negative, ds⟩) (letter :: sign ++ ds)

/-- The ways to write a number. -/
inductive NumeralSpelled (x : Numeral) : List Char → Prop
  | parts {fraction exponent : List Char} : Digits x.whole → (x.whole.head? = some '0' → x.whole = ['0']) →
    FractionSpelled x.fraction fraction → ExponentSpelled x.exponent exponent →
    NumeralSpelled x ((if x.negative then ['-'] else []) ++ x.whole ++ fraction ++ exponent)

/-- What follows cannot be taken for a part of the number before it. -/
def EndsNumber (rest : List Char) : Prop := ∀ c ∈ rest.head?, c.isDigit = false ∧ c ∉ ['.', 'e', 'E']

theorem takeWhile_digits {ds rest : List Char} (digits : Digits ds)
    (stop : ∀ c ∈ rest.head?, c.isDigit = false) :
    (ds ++ rest).takeWhile Char.isDigit = ds ∧ (ds ++ rest).dropWhile Char.isDigit = rest := by
  rw [List.takeWhile_append_of_pos digits.2, List.dropWhile_append_of_pos digits.2]
  cases rest with
  | nil => simp
  | cons c r =>
    have other : c.isDigit = false := stop c rfl
    simp [other]

/-- Digits begin with a digit, so with none of the other marks of a number. -/
theorem Digits.exists_head {ds : List Char} (digits : Digits ds) :
    ∃ c r, ds = c :: r ∧ c.isDigit = true ∧ c ≠ '-' ∧ c ≠ '+' := by
  obtain ⟨some, all⟩ := digits
  obtain ⟨c, r, rfl⟩ := List.exists_cons_of_ne_nil some
  have digit : c.isDigit = true := all c List.mem_cons_self
  refine ⟨c, r, rfl, digit, ?_, ?_⟩
  all_goals
    rintro rfl
    exact absurd digit (by decide)

theorem scanExponent_spelled {x : Option Exponent} {spelling rest : List Char}
    (spelled : ExponentSpelled x spelling) (stop : EndsNumber rest) :
    scanExponent (spelling ++ rest) = some (x, rest) := by
  cases spelled with
  | none =>
    cases rest with
    | nil => rfl
    | cons c r =>
      have noMark : c ≠ '.' ∧ c ≠ 'e' ∧ c ≠ 'E' := by simpa using (stop c rfl).2
      simp [scanExponent, noMark]
  | @mark negative ds sign letter listed signed digits =>
    obtain ⟨taken, dropped⟩ := takeWhile_digits digits fun c first => (stop c first).1
    have marked : (letter == 'e' || letter == 'E') = true := by simpa using listed
    cases negative with
    | true =>
      obtain rfl : sign = ['-'] := by simpa using signed
      simp [scanExponent, marked, taken, dropped, digits.1]
    | false =>
      obtain rfl | rfl : sign = [] ∨ sign = ['+'] := by simpa using signed
      · obtain ⟨c, r, rfl, _, noMinus, noPlus⟩ := digits.exists_head
        rw [List.cons_append] at taken dropped
        simp [scanExponent, marked, noMinus, noPlus, taken, dropped]
      · simp [scanExponent, marked, taken, dropped, digits.1]

/-- Neither an exponent nor what follows the number begins like a fraction or goes on with digits. -/
theorem ExponentSpelled.head {x : Option Exponent} {spelling rest : List Char}
    (spelled : ExponentSpelled x spelling) (stop : EndsNumber rest) :
    ∀ c ∈ (spelling ++ rest).head?, c.isDigit = false ∧ c ≠ '.' := by
  cases spelled with
  | none =>
    intro c first
    obtain ⟨noDigit, noMark⟩ := stop c first
    exact ⟨noDigit, by rintro rfl; simp at noMark⟩
  | mark listed =>
    rintro c ⟨⟩
    have letters : ∀ c ∈ ['e', 'E'], c.isDigit = false ∧ c ≠ '.' := forall_mem_of_all (by decide)
    exact letters _ listed

theorem scanFraction_spelled {ds spelling rest : List Char} (spelled : FractionSpelled ds spelling)
    (stop : ∀ c ∈ rest.head?, c.isDigit = false ∧ c ≠ '.') :
    scanFraction (spelling ++ rest) = some (ds, rest) := by
  cases spelled with
  | none =>
    cases rest with
    | nil => rfl
    | cons c r =>
      have noPoint : c ≠ '.' := (stop c rfl).2
      simp [scanFraction, noPoint]
  | point digits =>
    obtain ⟨taken, dropped⟩ := takeWhile_digits digits fun c first => (stop c first).1
    simp [scanFraction, taken, dropped, digits.1]

theorem FractionSpelled.head {ds spelling rest : List Char} (spelled : FractionSpelled ds spelling)
    (stop : ∀ c ∈ rest.head?, c.isDigit = false ∧ c ≠ '.') :
    ∀ c ∈ (spelling ++ rest).head?, c.isDigit = false := by
  cases spelled with
  | none => exact fun c first => (stop c first).1
  | point =>
    rintro c ⟨⟩
    rfl

theorem isWhole_of_digits {ds : List Char} (digits : Digits ds) (noZero : ds.head? = some '0' → ds = ['0']) :
    isWhole ds = true := by
  obtain ⟨c, r, rfl, _⟩ := digits.exists_head
  by_cases zero : c = '0'
  · subst zero
    rw [noZero rfl]
    rfl
  · simp [isWhole, zero]

/-- A number is read, however it is written, if it lies within the range of double precision. -/
theorem scanNumeral_spelled {x : Numeral} {spelling rest : List Char} (spelled : NumeralSpelled x spelling)
    (range : x.inRange = true) (stop : EndsNumber rest) :
    scanNumeral (spelling ++ rest) = some (x, rest) := by
  obtain ⟨digits, noZero, fraction, exponent⟩ := spelled
  have afterFraction := exponent.head stop
  have fractionRead := scanFraction_spelled fraction afterFraction
  have exponentRead := scanExponent_spelled exponent stop
  obtain ⟨taken, dropped⟩ := takeWhile_digits digits (fraction.head afterFraction)
  have whole := isWhole_of_digits digits noZero
  obtain ⟨negative, ds, fs, es⟩ := x
  cases negative with
  | true => simp [scanNumeral, taken, dropped, whole, fractionRead, exponentRead, range]
  | false =>
    obtain ⟨c, r, rfl, _, noMinus, _⟩ := digits.exists_head
    rw [List.cons_append] at taken dropped
    simp [scanNumeral, noMinus, taken, dropped, whole, fractionRead, exponentRead, range]

end numbers

section tokens

/-- The structural marks, which end whatever stands before them. -/
def Token.mark? : Token → Option Char
  | .openBrace => some '{'
  | .closeBrace => some '}'
  | .openBracket => some '['
  | .closeBracket => some ']'
  | .colon => some ':'
  | .comma => some ','
  | _ => none

/-- The ways to write a token. -/
inductive Token.Spelled : Token → List Char → Prop
  | mark {t : Token} {c : Char} : t.mark? = some c → Spelled t [c]
  | null : Spelled .null "null".toList
  | bool {b : Bool} : Spelled (.bool b) (if b then "true" else "false").toList
  | number {x : Numeral} {spelling : List Char} : NumeralSpelled x spelling → Spelled (.number x) spelling
  | string {s : String} {spelling : List Char} : TextSpelled s.toList spelling →
    Spelled (.string s) ('"' :: spelling ++ ['"'])

/-- A number within the range of double precision, or any other token. -/
def Token.InRange : Token → Prop
  | .number x => x.inRange = true
  | _ => True

/-- Spaces, tabs, and ends of lines. -/
def Blanks (cs : List Char) : Prop := ∀ c ∈ cs, c ∈ [' ', '\t', '\n', '\x0d']

/-- The ways to write a list of tokens: blanks may stand before each of them and at the end. -/
inductive Spelled : List Token → List Char → Prop
  | nil {blanks : List Char} : Blanks blanks → Spelled [] blanks
  | cons {blanks spelling rest : List Char} {t : Token} {ts : List Token} : Blanks blanks →
    t.Spelled spelling → Spelled ts rest → Spelled (t :: ts) (blanks ++ (spelling ++ rest))

/-- One of two neighbours is a structural mark. -/
def Separated (t u : Token) : Prop := t.mark?.isSome ∨ u.mark?.isSome

/-- A number begins with a minus or a digit, so like no other token and not like a blank. -/
theorem NumeralSpelled.exists_head {x : Numeral} {spelling : List Char} (spelled : NumeralSpelled x spelling) :
    ∃ c r, spelling = c :: r ∧
      c ∉ ['{', '}', '[', ']', ':', ',', '"', 'n', 't', 'f', ' ', '\t', '\n', '\x0d'] := by
  obtain ⟨digits, -, -, -⟩ := spelled
  obtain ⟨d, ds, whole, digit, -⟩ := digits.exists_head
  cases x.negative with
  | true => exact ⟨'-', _, rfl, by decide⟩
  | false =>
    refine ⟨d, _, by rw [whole]; rfl, fun listed => ?_⟩
    have noDigits : ∀ c ∈ ['{', '}', '[', ']', ':', ',', '"', 'n', 't', 'f', ' ', '\t', '\n', '\x0d'],
        c.isDigit = false := forall_mem_of_all (by decide)
    exact absurd digit (by rw [noDigits d listed]; decide)

theorem scanToken_number {x : Numeral} {spelling rest : List Char} (spelled : NumeralSpelled x spelling)
    (range : x.inRange = true) (stop : EndsNumber rest) :
    scanToken (spelling ++ rest) = some (.number x, rest) := by
  have read := scanNumeral_spelled spelled range stop
  obtain ⟨c, r, rfl, other⟩ := spelled.exists_head
  rw [List.cons_append] at read ⊢
  unfold scanToken
  split
  case h_11 => rw [read]; rfl
  all_goals simp_all

theorem scanToken_spelled {t : Token} {spelling rest : List Char} (spelled : t.Spelled spelling)
    (range : t.InRange) (stop : t.mark? = none → EndsNumber rest) :
    scanToken (spelling ++ rest) = some (t, rest) := by
  cases spelled with
  | mark isMark => cases t <;> cases isMark <;> rfl
  | null => rfl
  | @bool b => cases b <;> rfl
  | number digits => exact scanToken_number digits range (stop rfl)
  | string characters =>
    have read := scanText_spelled characters rest
    simp [scanToken, read]

theorem Token.Spelled.exists_head {t : Token} {spelling : List Char} (spelled : t.Spelled spelling) :
    ∃ c r, spelling = c :: r ∧ isBlank c = false := by
  cases spelled with
  | mark isMark => exact ⟨_, _, rfl, by cases t <;> cases isMark <;> rfl⟩
  | null => exact ⟨_, _, rfl, rfl⟩
  | @bool b => cases b <;> exact ⟨_, _, rfl, rfl⟩
  | number digits =>
    obtain ⟨c, r, rfl, other⟩ := digits.exists_head
    refine ⟨c, r, rfl, Bool.eq_false_iff.mpr fun blank => other ?_⟩
    simp only [isBlank, Bool.or_eq_true, beq_iff_eq] at blank
    obtain ((rfl | rfl) | rfl) | rfl := blank <;> decide
  | string => exact ⟨_, _, rfl, rfl⟩

theorem Token.Spelled.eq_mark {t : Token} {spelling : List Char} (spelled : t.Spelled spelling)
    (marked : t.mark?.isSome) : ∃ c, t.mark? = some c ∧ spelling = [c] := by
  cases spelled with
  | mark isMark => exact ⟨_, isMark, rfl⟩
  | _ => cases marked

/-- Blanks and marks cannot belong to a number. -/
theorem Spelled.endsNumber {ts : List Token} {text : List Char} (spelled : Spelled ts text)
    (marked : ∀ t ∈ ts.head?, t.mark?.isSome) : EndsNumber text := by
  have blank : ∀ c ∈ [' ', '\t', '\n', '\x0d'], c.isDigit = false ∧ c ∉ ['.', 'e', 'E'] :=
    forall_mem_of_all (by decide)
  cases spelled with
  | nil blanks => exact fun c first => blank c (blanks c (List.mem_of_mem_head? first))
  | @cons cs _ _ t _ blanks spelled rest =>
    cases cs with
    | cons d ds =>
      rintro c ⟨⟩
      exact blank d (blanks d List.mem_cons_self)
    | nil =>
      obtain ⟨d, isMark, rfl⟩ := spelled.eq_mark (marked t rfl)
      rintro c ⟨⟩
      cases t <;> cases isMark <;> decide

theorem scanTokens_blanks {blanks : List Char} (blank : Blanks blanks) (rest : List Char) (room : Nat) :
    scanTokens (blanks.length + room) (blanks ++ rest) = scanTokens room rest := by
  induction blanks with
  | nil => simp
  | cons c cs ih =>
    have first : isBlank c = true := by
      have blanks : ∀ c ∈ [' ', '\t', '\n', '\x0d'], isBlank c = true := forall_mem_of_all (by decide)
      exact blanks c (blank c List.mem_cons_self)
    rw [List.length_cons, Nat.add_right_comm, List.cons_append, scanTokens, if_pos first]
    exact ih fun d listed => blank d (List.mem_cons_of_mem _ listed)

theorem scanTokens_nil (room : Nat) : scanTokens room [] = some [] := by
  cases room <;> rfl

/-- Scanning gives the tokens back, however they are written. -/
theorem scanTokens_spelled {ts : List Token} {text : List Char} (spelled : Spelled ts text)
    (range : ∀ t ∈ ts, t.InRange) (separated : ts.IsChain Separated) {room : Nat} (enough : text.length ≤ room) :
    scanTokens room text = some ts := by
  induction spelled generalizing room with
  | @nil blanks blank =>
    obtain ⟨more, rfl⟩ := Nat.exists_eq_add_of_le enough
    rw [← List.append_nil blanks, List.length_append, List.length_nil, Nat.add_zero, scanTokens_blanks blank,
      scanTokens_nil]
  | @cons blanks spelling rest t ts blank first others ih =>
    rw [List.length_append] at enough
    obtain ⟨more, rfl⟩ := Nat.exists_eq_add_of_le (Nat.le_of_add_right_le enough)
    have stop : t.mark? = none → EndsNumber rest := by
      intro noMark
      refine others.endsNumber fun u next => ?_
      have neighbours : Separated t u := separated.rel_head? next
      simpa [Separated, noMark] using neighbours
    have read := scanToken_spelled first (range t List.mem_cons_self) stop
    obtain ⟨c, r, rfl, notBlank⟩ := first.exists_head
    simp only [List.length_append, List.length_cons] at enough
    obtain ⟨left, rfl⟩ : ∃ left, more = left + 1 := ⟨more - 1, by omega⟩
    have othersRead : scanTokens left rest = some ts :=
      ih (fun u listed => range u (List.mem_cons_of_mem _ listed)) separated.tail (by omega)
    rw [scanTokens_blanks blank, List.cons_append, scanTokens, if_neg (by simp [notBlank]),
      ← List.cons_append, read]
    simp [othersRead]

/-- Tokens are spelled by blanks and spellings in turn. -/
theorem spelled_of_pieces {ts : List Token} {pieces : List (String × String)}
    (each : List.Forall₂ (fun t piece => Blanks piece.1.toList ∧ t.Spelled piece.2.toList) ts pieces) :
    Spelled ts (pieces.flatMap fun piece => piece.1.toList ++ piece.2.toList) := by
  induction each with
  | nil => exact .nil nofun
  | cons first _ ih =>
    rw [List.flatMap_cons, List.append_assoc]
    exact .cons first.1 first.2 ih

end tokens

end PointsTo.Json
