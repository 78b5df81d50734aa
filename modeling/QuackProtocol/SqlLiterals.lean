import QuackProtocol.DecimalParsers
import QuackProtocol.SqlTemplates

/-! The lexical structure of literals. A literal keeps its own lexemes whatever is written after it, but for a
quote behind its last quote; the display of floating-point numbers and of dates, which the language
and the calendar library do, is taken to have no quotes. -/

open Decoding DecimalDigits Lexing

namespace QuackProtocol

/-- A text that has its lexemes before any character, but for a quote behind its own last quote. -/
structure Solid (text : List Char) : Prop where
  first : ∃ c, text.head? = some c ∧ c ≠ '"' ∧ c ≠ '*'
  lexed : ∃ found, spell found = text ∧
    ∀ next, (text.getLast? = some '\'' → next ≠ some '\'') → Fitting found next

/-- A minus sign, perhaps, and then digits and points. -/
def NumberText (text : List Char) : Prop :=
  ∃ sign digits, text = sign ++ digits ∧ (sign = [] ∨ sign = ['-']) ∧ digits ≠ [] ∧
    ∀ c ∈ digits, c.isDigit = true ∨ c = '.'

/-- What the language prints for finite floating-point numbers. -/
structure PrintsNumbers (prims : Primitives) : Prop where
  float : ∀ bits, F32.isFinite bits = true → NumberText (prims.displayF32 bits).toList
  double : ∀ bits, F64.isFinite bits = true → NumberText (prims.displayF64 bits).toList

/-- What the calendar prints has no quotes in it. -/
structure PrintsUnquoted (calendar : Calendar) : Prop where
  date : ∀ day, '\'' ∉ calendar.date day
  dateTime : ∀ second, '\'' ∉ calendar.dateTime second

section
variable {word body text : List Char}

theorem quoted_of_notMem (h : '\'' ∉ body) : Quoted '\'' body := by
  induction body with
  | nil => exact .nil
  | cons c body ih =>
      rw [List.mem_cons, not_or] at h
      exact .char (Ne.symm h.1) (ih h.2)

theorem stands_quoted (h : Quoted '\'' body) {next : Option Char} (hnext : next ≠ some '\'') :
    Stands (.quoted ('\'' :: (body ++ ['\'']))) next :=
  .quoted (.inl rfl) h hnext

theorem inert_digit {c : Char} (h : c.isDigit = true ∨ c = '.') : Inert c := by
  rcases h with h | rfl
  · refine ⟨?_, ?_, ?_, ?_⟩ <;> rintro rfl <;> cases h
  · refine ⟨?_, ?_, ?_, ?_⟩ <;> decide

/-- A word of characters that begin no region. -/
theorem solid_word (h : ∀ c ∈ word, Inert c) {c : Char} (hfirst : word.head? = some c) (hc : c ≠ '*') :
    Solid word :=
  ⟨⟨c, hfirst, (h c (List.mem_of_mem_head? hfirst)).2.1, hc⟩, others word, spell_others word,
    fun next _ => fitting_others h next⟩

theorem solid_number (h : NumberText text) : Solid text := by
  obtain ⟨sign, digits, rfl, hsign, hne, hdigits⟩ := h
  obtain ⟨d, tail, rfl⟩ := List.exists_cons_of_ne_nil hne
  have hinert : ∀ c ∈ d :: tail, Inert c := fun c hc => inert_digit (hdigits c hc)
  have hstar : d ≠ '*' := by
    rintro rfl
    rcases hdigits '*' (List.mem_cons_self ..) with h | h <;> cases h
  rcases hsign with rfl | rfl
  · exact solid_word hinert rfl hstar
  · refine ⟨⟨'-', rfl, by decide, by decide⟩, others ('-' :: d :: tail), spell_others _, fun next _ => ?_⟩
    refine ⟨.other ⟨by decide, fun h => ?_, by simp⟩, fitting_others hinert next⟩
    have hnext : some d = some '-' := h.2
    cases hnext
    exact (hinert '-' (List.mem_cons_self ..)).2.2.1 rfl

/-- A word with a quoted text behind it. -/
theorem solid_quoted (hword : ∀ c ∈ word, Inert c) (hfirst : ∀ c ∈ word.head?, c ≠ '*')
    (hbody : Quoted '\'' body) : Solid (word ++ '\'' :: (body ++ ['\''])) := by
  have hlast : (word ++ '\'' :: (body ++ ['\''])).getLast? = some '\'' := by
    rw [← List.cons_append, ← List.append_assoc, List.getLast?_concat]
  refine ⟨?_, others word ++ [.quoted ('\'' :: (body ++ ['\'']))], ?_, fun next hnext => ?_⟩
  · cases word with
    | nil => exact ⟨'\'', rfl, by decide, by decide⟩
    | cons c word => exact ⟨c, rfl, (hword c (List.mem_cons_self ..)).2.1, hfirst c rfl⟩
  · rw [spell_append, spell_others, spell_cons, spell_nil, List.append_nil]
    rfl
  · exact fitting_append.mpr ⟨fitting_others hword _, stands_quoted hbody (hnext hlast), trivial⟩

/-- Solid texts between commas, and a bracket behind them. -/
theorem fitting_joined {texts : List (List Char)} (h : ∀ text ∈ texts, Solid text) :
    ∃ found, spell found = joined texts ++ [']'] ∧ ∀ next, Fitting found next := by
  have hbracket : ∀ next, Fitting [.other ']'] next := fun next =>
    fitting_others (List.forall_mem_singleton.mpr (by refine ⟨?_, ?_, ?_, ?_⟩ <;> decide)) next
  induction texts with
  | nil => exact ⟨[.other ']'], rfl, hbracket⟩
  | cons text texts ih =>
      obtain ⟨hfirst, hrest⟩ := List.forall_mem_cons.mp h
      obtain ⟨found, htext, hfits⟩ := hfirst.lexed
      obtain ⟨back, hback, hbackFits⟩ := ih hrest
      cases texts with
      | nil =>
          refine ⟨found ++ [.other ']'], ?_, fun next => fitting_append.mpr ⟨?_, hbracket next⟩⟩
          · rw [spell_append, htext, joined, List.intercalate_singleton]
            rfl
          · exact hfits _ fun _ => by simp [Lexeme.text]
      | cons second texts =>
          have hjoined : joined (text :: second :: texts) = text ++ [',', ' '] ++ joined (second :: texts) :=
            List.intercalate_cons_cons
          refine ⟨found ++ (others [',', ' '] ++ back), ?_, fun next => ?_⟩
          · rw [spell_append, spell_append, htext, hback, spell_others, hjoined, List.append_assoc,
              List.append_assoc]
          · refine fitting_append.mpr ⟨hfits _ fun _ => by simp [spell_append, spell_others], ?_⟩
            exact fitting_append.mpr ⟨fitting_others (by simp [Inert]) _, hbackFits next⟩

end

theorem toDigits_ne_nil (n : Nat) : Nat.toDigits 10 n ≠ [] := by
  rw [Nat.toDigits_eq_if (by decide)]
  split
  · exact List.cons_ne_nil _ _
  · simp

theorem numberText_nat (n : Nat) : NumberText (Nat.toDigits 10 n) :=
  ⟨[], _, rfl, .inl rfl, toDigits_ne_nil n, fun c hc => .inl (isDigits_toDigits n c hc)⟩

theorem toList_toString_int (n : Int) :
    (toString n).toList = (if n < 0 then ['-'] else []) ++ Nat.toDigits 10 n.natAbs := by
  cases n with
  | ofNat n =>
      have htext : toString (Int.ofNat n) = toString n := rfl
      have hnonneg : ¬ Int.ofNat n < 0 := by simp
      rw [htext, toList_toString, if_neg hnonneg]
      rfl
  | negSucc n =>
      have htext : toString (Int.negSucc n) = "-" ++ toString (n + 1) := rfl
      rw [htext, String.toList_append, toList_toString, if_pos (Int.negSucc_lt_zero n)]
      rfl

theorem numberText_int (n : Int) : NumberText (toString n).toList := by
  refine ⟨if n < 0 then ['-'] else [], _, toList_toString_int n, ?_, toDigits_ne_nil _,
    fun c hc => .inl (isDigits_toDigits _ c hc)⟩
  split
  · exact .inr rfl
  · exact .inl rfl

theorem NumberText.unquoted {text : List Char} (h : NumberText text) : '\'' ∉ text := by
  obtain ⟨sign, digits, rfl, hsign, -, hdigits⟩ := h
  rw [List.mem_append, not_or]
  constructor
  · rcases hsign with rfl | rfl <;> simp
  · intro hmem
    exact (inert_digit (hdigits _ hmem)).1 rfl

theorem negateI128_ok {value abs : I128} (h : negateI128 value = .ok abs) : abs.toInt = -value.toInt := by
  obtain ⟨_, hcheck, h⟩ := Outcome.bind_eq_ok h
  obtain ⟨hlower, hupper⟩ := Outcome.check_eq_ok hcheck
  cases h
  have hmin : value ≠ BitVec.intMin 128 := by
    rintro rfl
    rw [BitVec.toInt_intMin] at hupper
    omega
  exact BitVec.toInt_neg_of_ne_intMin hmin

/-- The absolute value that the text of a decimal is made from. -/
theorem decimalToString_abs {decimal : DecimalValue} {s : String} (h : decimalToString decimal = .ok s) :
    ∃ abs, 0 ≤ abs.toInt ∧
      decimalText (if decimal.value.toInt < 0 then "-" else "") abs decimal.scale = .ok s := by
  by_cases hneg : decimal.value.toInt < 0
  · cases habs : negateI128 decimal.value with
    | ok abs =>
        have hif : (if decimal.value.toInt < 0 then negateI128 decimal.value else pure decimal.value) =
            Outcome.ok abs := (if_pos hneg).trans habs
        rw [decimalToString_eq hif] at h
        exact ⟨abs, by rw [negateI128_ok habs]; omega, h⟩
    | err e =>
        unfold decimalToString at h
        simp only [if_pos hneg, habs] at h
        cases h
    | panic cause =>
        unfold decimalToString at h
        simp only [if_pos hneg, habs] at h
        cases h
  · rw [decimalToString_eq (if_neg hneg)] at h
    exact ⟨decimal.value, by omega, h⟩

/-- The text of a decimal has a sign, digits and a point. -/
theorem numberText_decimal {decimal : DecimalValue} {s : String} (h : decimalToString decimal = .ok s) :
    NumberText s.toList := by
  obtain ⟨abs, habs, h⟩ := decimalToString_abs h
  have hsign : ∃ sign : String, (if decimal.value.toInt < 0 then "-" else "") = sign ∧
      (sign.toList = [] ∨ sign.toList = ['-']) := by
    by_cases hneg : decimal.value.toInt < 0
    · exact ⟨"-", if_pos hneg, .inr rfl⟩
    · exact ⟨"", if_neg hneg, .inl rfl⟩
  obtain ⟨sign, heq, hsign⟩ := hsign
  rw [heq] at h
  by_cases hscale : decimal.scale = 0
  · rw [decimalText, if_pos hscale] at h
    cases h
    refine ⟨sign.toList, Nat.toDigits 10 abs.toInt.natAbs, ?_, hsign, toDigits_ne_nil _,
      fun c hc => .inl (isDigits_toDigits _ c hc)⟩
    have htext := toList_toString_int abs.toInt
    rw [if_neg (by omega), List.nil_append] at htext
    rw [String.toList_append, htext]
    rfl
  · have hpower : decimal.scale.toNat ≤ 38 := by
      rw [← returns_decimalText_iff hscale, h]
      exact trivial
    obtain ⟨text, htext, hlist⟩ := toList_decimalText hscale hpower sign abs
    cases htext.symm.trans h
    refine ⟨sign.toList, _, hlist, hsign, List.append_ne_nil_of_left_ne_nil (toDigits_ne_nil _) _,
      fun c hc => ?_⟩
    rcases List.mem_append.mp hc with hc | hc
    · exact .inl (isDigits_toDigits _ c hc)
    · rcases List.mem_cons.mp hc with rfl | hc
      · exact .inr rfl
      · exact .inl (isDigits_fractionDigits _ _ c hc)

theorem unquoted_digits (n : Nat) : '\'' ∉ Nat.toDigits 10 n := fun h =>
  (inert_digit (.inl (isDigits_toDigits n _ h))).1 rfl

theorem unquoted_padded (width : Nat) (number : Int) : '\'' ∉ padded width number := by
  have hsign : '\'' ∉ if number < 0 then ['-'] else [] := by
    split <;> simp
  have hzeros : ∀ count, '\'' ∉ List.replicate count '0' := fun count h => by
    cases List.eq_of_mem_replicate h
  simp only [padded, List.mem_append, not_or]
  exact ⟨⟨hsign, hzeros _⟩, unquoted_digits _⟩

theorem unquoted_fractionText (fraction : Int) : '\'' ∉ fractionText fraction := by
  rw [fractionText]
  split
  · exact List.not_mem_nil
  · intro h
    have hmem := List.mem_reverse.mp ((List.dropWhile_sublist _).mem (List.mem_reverse.mp h))
    rcases List.mem_cons.mp hmem with heq | hmem
    · cases heq
    · exact unquoted_padded 9 fraction hmem

theorem unquoted_clockText (totalSeconds : Int) : '\'' ∉ clockText totalSeconds := by
  simp only [clockText, List.mem_append, List.mem_cons, not_or]
  exact ⟨⟨unquoted_padded _ _, by decide, unquoted_padded _ _⟩, by decide, unquoted_padded _ _⟩

theorem unquoted_formatTime (value : I64) (unit : TimeUnit) : '\'' ∉ formatTime value unit := by
  rw [formatTime, List.mem_append, not_or]
  exact ⟨unquoted_clockText _, unquoted_fractionText _⟩

section
variable {prims : Primitives} {calendar : Calendar}

theorem unquoted_dateFromDays (hcalendar : PrintsUnquoted calendar) {days : I32} {text : List Char}
    (h : dateFromDays calendar days = .ok text) : '\'' ∉ text := by
  obtain ⟨_, -, h⟩ := Outcome.bind_eq_ok h
  cases h
  exact hcalendar.date _

theorem unquoted_formatTimestamp (hcalendar : PrintsUnquoted calendar) {value : I64} {unit : TimestampUnit}
    {timezoneUtc : Bool} {text : List Char}
    (h : formatTimestamp calendar value unit timezoneUtc = .ok text) : '\'' ∉ text := by
  obtain ⟨micros, -, h⟩ := Outcome.bind_eq_ok h
  cases hseconds : fromTimestamp (micros / 1000000) with
  | none =>
      simp only [hseconds] at h
      cases h
  | some seconds =>
      simp only [hseconds] at h
      cases h
      simp only [List.mem_append, List.mem_cons, not_or]
      refine ⟨⟨hcalendar.dateTime _, by decide, unquoted_padded _ _⟩, ?_⟩
      cases timezoneUtc <;> decide

/-! ### Literals -/

/-- Doubling the quotes of a text. -/
theorem quoted_doubled (text : List Char) :
    Quoted '\'' (text.flatMap fun c => if c = '\'' then ['\'', '\''] else [c]) := by
  induction text with
  | nil => exact .nil
  | cons c text ih =>
      rw [List.flatMap_cons]
      by_cases hc : c = '\''
      · rw [if_pos hc]
        exact .pair ih
      · rw [if_neg hc]
        exact .char hc ih

theorem unquoted_bytesToHex (bytes : Bytes) : '\'' ∉ bytesToHex bytes := by
  have hdigit : ∀ n < 16, Nat.digitChar n ≠ '\'' := by decide
  intro h
  obtain ⟨byte, -, hmem⟩ := List.mem_flatMap.mp h
  have hbyte := byte.toNat_lt
  rcases List.mem_cons.mp hmem with heq | hmem
  · exact hdigit _ (by omega) heq.symm
  · exact hdigit _ (by omega) (List.mem_singleton.mp hmem).symm

/-- A word, a quoted text and a bracket. -/
theorem solid_call {word body : List Char} {c : Char} (hword : ∀ d ∈ c :: word, Inert d) (hc : c ≠ '*')
    (hbody : Quoted '\'' body) : Solid (c :: word ++ '\'' :: (body ++ ['\'', ')'])) := by
  refine ⟨⟨c, rfl, (hword c (List.mem_cons_self ..)).2.1, hc⟩,
    others (c :: word) ++ ([.quoted ('\'' :: (body ++ ['\'']))] ++ others [')']), ?_, fun next _ => ?_⟩
  · simp only [spell_append, spell_others, spell_cons, Lexeme.text, List.cons_append, List.append_assoc,
      List.nil_append]
  · refine fitting_append.mpr ⟨fitting_others hword _, fitting_append.mpr ⟨⟨?_, trivial⟩, ?_⟩⟩
    · exact stands_quoted hbody (by simp [spell_others])
    · exact fitting_others (by simp [Inert]) next

theorem solid_valueLiteral (hnumbers : PrintsNumbers prims) (hcalendar : PrintsUnquoted calendar)
    {value : Value} {text : List Char} (h : valueLiteral prims calendar value = .ok text) : Solid text := by
  have hkeyword : ∀ (word : List Char) {c : Char}, (∀ d ∈ word, Inert d) → word.head? = some c → c ≠ '*' →
      ∀ {body : List Char}, '\'' ∉ body → Solid (word ++ '\'' :: (body ++ ['\''])) := by
    intro word c hword hfirst hc body hbody
    refine solid_quoted hword (fun d hd => ?_) (quoted_of_notMem hbody)
    cases hfirst.symm.trans hd
    exact hc
  cases value with
  | null =>
      cases h
      exact solid_word (by simp [Inert]) rfl (by decide)
  | bool value =>
      cases h
      cases value with
      | false => exact solid_word (by simp [Inert]) rfl (by decide)
      | true => exact solid_word (by simp [Inert]) rfl (by decide)
  | int value | hugeInt value =>
      cases h
      exact solid_number (numberText_int _)
  | uint value | uhugeInt value =>
      cases h
      rw [toList_toString]
      exact solid_number (numberText_nat _)
  | float value =>
      rw [valueLiteral] at h
      split at h
      · rename_i hfinite
        cases h
        exact solid_number (hnumbers.float value hfinite)
      · cases h
  | double value =>
      rw [valueLiteral] at h
      split at h
      · rename_i hfinite
        cases h
        exact solid_number (hnumbers.double value hfinite)
      · cases h
  | string value =>
      cases h
      exact @solid_quoted [] _ nofun nofun (quoted_doubled _)
  | bytes value =>
      cases h
      have hcall := @solid_call "rom_hex(".toList (bytesToHex value) 'f' (by simp [Inert]) (by decide)
        (quoted_of_notMem (unquoted_bytesToHex value))
      simpa using hcall
  | decimal value =>
      cases hdecimal : decimalToString value with
      | ok s =>
          rw [valueLiteral, hdecimal] at h
          cases h
          exact solid_number (numberText_decimal hdecimal)
      | err e | panic cause =>
          rw [valueLiteral, hdecimal] at h
          cases h
  | date value =>
      obtain ⟨text, htext, h⟩ := Outcome.bind_eq_ok h
      cases h
      have hdate := hkeyword "DATE ".toList (by simp [Inert]) rfl (by decide)
        (unquoted_dateFromDays hcalendar htext)
      simpa using hdate
  | time value =>
      cases h
      have htime := hkeyword "TIME ".toList (by simp [Inert]) rfl (by decide)
        (unquoted_formatTime value.value value.unit)
      simpa using htime
  | timestamp value =>
      obtain ⟨text, htext, h⟩ := Outcome.bind_eq_ok h
      cases h
      have hunquoted := unquoted_formatTimestamp hcalendar htext
      cases value.timezoneUtc with
      | false =>
          have htimestamp := hkeyword "TIMESTAMP ".toList (by simp [Inert]) rfl (by decide) hunquoted
          simpa using htimestamp
      | true =>
          have htimestamp := hkeyword "TIMESTAMPTZ ".toList (by simp [Inert]) rfl (by decide) hunquoted
          simpa using htimestamp
  | interval value =>
      cases h
      have hnumber : ∀ {w : Nat} (v : BitVec w), '\'' ∉ (displayInt v).toList := fun v =>
        (numberText_int v.toInt).unquoted
      have hbody : '\'' ∉ (displayInt value.months).toList ++ " months ".toList ++
          (displayInt value.days).toList ++ " days ".toList ++ (displayInt value.micros).toList ++
          " microseconds".toList := by
        simp only [List.mem_append, not_or]
        exact ⟨⟨⟨⟨⟨hnumber _, by decide⟩, hnumber _⟩, by decide⟩, hnumber _⟩, by decide⟩
      have hinterval := hkeyword "INTERVAL ".toList (by simp [Inert]) rfl (by decide) hbody
      simpa [toString] using hinterval
  | timeTz value | list value | struct value => cases h

mutual

theorem solid_sqlLiteral (hnumbers : PrintsNumbers prims) (hcalendar : PrintsUnquoted calendar) :
    ∀ {param : SqlParameter} {text : List Char}, sqlLiteral prims calendar param = .ok text → Solid text
  | .value value, text, h => solid_valueLiteral hnumbers hcalendar h
  | .list values, text, h => by
      obtain ⟨texts, htexts, h⟩ := Outcome.bind_eq_ok h
      cases h
      obtain ⟨found, hspell, hfits⟩ := fitting_joined (solid_sqlLiterals hnumbers hcalendar htexts)
      refine ⟨⟨'[', rfl, by decide, by decide⟩, .other '[' :: found, ?_, fun next _ => ?_⟩
      · rw [spell_cons, hspell]
        rfl
      · exact ⟨.other (Inert.plain (by simp [Inert]) _), hfits next⟩

theorem solid_sqlLiterals (hnumbers : PrintsNumbers prims) (hcalendar : PrintsUnquoted calendar) :
    ∀ {params : List SqlParameter} {texts : List (List Char)}, sqlLiterals prims calendar params = .ok texts →
      ∀ text ∈ texts, Solid text
  | [], texts, h => by
      cases h
      nofun
  | param :: params, texts, h => by
      obtain ⟨text, htext, h⟩ := Outcome.bind_eq_ok h
      obtain ⟨rest, hrest, h⟩ := Outcome.bind_eq_ok h
      cases h
      exact List.forall_mem_cons.mpr
        ⟨solid_sqlLiteral hnumbers hcalendar htext, solid_sqlLiterals hnumbers hcalendar hrest⟩

end

end

end QuackProtocol
