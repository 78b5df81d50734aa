import QuackProtocol.DecimalTexts

/-! What the two parsers of decimal texts accept, where they agree, and that both read back the text of a
decimal. The texts without a digit stand for zero in both, and the parser that checks no digits takes a
second sign for the sign of the integer. -/

open Decoding DecimalDigits

namespace QuackProtocol

section
variable {text integer fraction : List Char} {negative : Bool}

/-- The digits of a text are those between which the parsers look for the sign and the point. -/
theorem numeral_iff : Numeral text negative integer fraction ↔
    (splitSign text).1 = negative ∧ splitPoint (splitSign text).2 = (integer, fraction) ∧
      IsDigits integer ∧ IsDigits fraction := by
  constructor
  · intro h
    exact ⟨h.split.1, h.split.2, h.integer, h.fraction⟩
  · rintro ⟨rfl, hparts, hinteger, hfraction⟩
    exact numeral_of_split hparts hinteger hfraction

/-- No digit, and nothing else but a sign and a point. -/
def Bare (text : List Char) : Prop :=
  text ∈ [[], ['+'], ['-'], ['.'], ['+', '.'], ['-', '.']]

theorem bare_iff : Bare text ↔ ∃ negative, Numeral text negative [] [] := by
  constructor
  · intro h
    simp only [Bare, List.mem_cons, List.not_mem_nil, or_false] at h
    rcases h with rfl | rfl | rfl | rfl | rfl | rfl <;>
      exact ⟨_, numeral_iff.mpr ⟨rfl, rfl, by simp [IsDigits]⟩⟩
  · rintro ⟨negative, ⟨sign, point, rfl, hsign, hpoint⟩, -, -⟩
    rcases hsign with ⟨rfl, -⟩ | ⟨rfl | rfl, -⟩ <;> rcases hpoint with rfl | ⟨rfl, -⟩ <;> simp [Bare]

end

theorem parseDecimalValue_eq_ok_iff (s : String) (scale : U64) (unscaled : I128) :
    parseDecimalValue s scale = .ok unscaled ↔
      ∃ negative integer fraction, Numeral (trim s.toList) negative integer fraction ∧
        magnitude integer fraction scale.toNat < 2 ^ 127 ∧
        unscaled.toInt = signed negative (magnitude integer fraction scale.toNat) := by
  constructor
  · intro h
    rcases hparts : splitPoint (splitSign (trim s.toList)).2 with ⟨integer, fraction⟩
    by_cases hdigits : IsDigits integer ∧ IsDigits fraction
    · have hnumeral := numeral_of_split hparts hdigits.1 hdigits.2
      rw [parseDecimalValue_numeral hnumeral] at h
      by_cases hlt : magnitude integer fraction scale.toNat < 2 ^ 127
      · rw [if_pos hlt] at h
        cases h
        exact ⟨_, integer, fraction, hnumeral, hlt, toInt_signed hlt⟩
      · rw [if_neg hlt] at h
        cases h
    · rw [parseDecimalValue_notNumeral (by rwa [hparts])] at h
      cases h
  · rintro ⟨negative, integer, fraction, hnumeral, hlt, hvalue⟩
    rw [parseDecimalValue_numeral hnumeral, if_pos hlt, ← hvalue, BitVec.ofInt_toInt]

/-- The parser takes exactly the numerals with a digit whose magnitude fits, and returns the number at the
scale. -/
def AcceptsNumerals (s : String) (scale : U64) : Prop :=
  ∀ unscaled, parseDecimalValue s scale = .ok unscaled ↔
    ∃ negative integer fraction, Numeral (trim s.toList) negative integer fraction ∧
      (integer ≠ [] ∨ fraction ≠ []) ∧ magnitude integer fraction scale.toNat < 2 ^ 127 ∧
      unscaled.toInt = signed negative (magnitude integer fraction scale.toNat)

theorem parseDecimalValue_numerals_iff (s : String) (scale : U64) :
    AcceptsNumerals s scale ↔ ¬ Bare (trim s.toList) := by
  constructor
  · intro haccepts hbare
    obtain ⟨negative, hnumeral⟩ := bare_iff.mp hbare
    have hzero : magnitude [] [] scale.toNat = 0 := by
      rw [magnitude_eq]
      simp
    have hparsed := (parseDecimalValue_eq_ok_iff s scale (BitVec.ofInt 128 (signed negative 0))).mpr
      ⟨negative, [], [], hnumeral, by rw [hzero]; decide, by rw [hzero]; exact toInt_signed (by decide)⟩
    obtain ⟨negative', integer, fraction, hnumeral', hdigit, -⟩ := (haccepts _).mp hparsed
    have hparts := (numeral_iff.mp hnumeral).2.1
    rw [(numeral_iff.mp hnumeral').2.1, Prod.mk.injEq] at hparts
    exact hdigit.elim (fun h => h hparts.1) (fun h => h hparts.2)
  · intro hbare unscaled
    rw [parseDecimalValue_eq_ok_iff]
    constructor
    · rintro ⟨negative, integer, fraction, hnumeral, hrest⟩
      refine ⟨negative, integer, fraction, hnumeral, ?_, hrest⟩
      by_contra hnot
      rw [not_or, not_not, not_not] at hnot
      obtain ⟨rfl, rfl⟩ := hnot
      exact hbare (bare_iff.mpr ⟨negative, hnumeral⟩)
    · rintro ⟨negative, integer, fraction, hnumeral, -, hrest⟩
      exact ⟨negative, integer, fraction, hnumeral, hrest⟩

/-- The empty text is read as zero. -/
theorem not_acceptsNumerals_empty : ¬ AcceptsNumerals "" 2 := by
  intro h
  obtain ⟨_, integer, fraction, hnumeral, hdigit, -⟩ := (h 0).mp rfl
  have hparts := (numeral_iff.mp hnumeral).2.1
  cases hparts
  exact hdigit.elim (fun hne => hne rfl) (fun hne => hne rfl)

/-! ### Two parsers -/

/-- Both parsers accept the text with the same number, or both refuse it. -/
def ParsersAgree (T : LogicalType) (s : String) (scale : U64) : Prop :=
  (∃ unscaled, parseDecimalString T s = .ok unscaled ∧ parseDecimalValue s scale = .ok unscaled) ∨
    ∃ e e', parseDecimalString T s = .err e ∧ parseDecimalValue s scale = .err e'

/-- An optional sign and digits, in the range of an `i128`. -/
def IntegerText (text : List Char) : Prop :=
  (splitSign text).2 ≠ [] ∧ IsDigits (splitSign text).2 ∧
    InI128 (signed (splitSign text).1 (value (splitSign text).2))

/-- The first bytes of a padded fraction, where they end between two characters. -/
def Cuts (fraction : List Char) (scale : Nat) (front : List Char) : Prop :=
  ∃ back, fraction ++ List.replicate (scale - utf8Length fraction) '0' = front ++ back ∧
    utf8Length front = scale

/-- The texts before and after the point, without the sign. -/
def decimalParts (s : String) : List Char × List Char := splitPoint (splitSign (trim s.toList)).2

def PlainDigits (s : String) : Prop := IsDigits (decimalParts s).1 ∧ IsDigits (decimalParts s).2

/-- The fraction can be cut at the scale, and the text that the integer parser is handed then is no
integer. -/
def UnreadableAt (s : String) (scale : Nat) : Prop :=
  ∃ front, Cuts (decimalParts s).2 scale front ∧
    ¬ IntegerText ((if (decimalParts s).1 = [] then ['0'] else (decimalParts s).1) ++ front)

theorem utf8Length_cons (c : Char) (text : List Char) :
    utf8Length (c :: text) = c.utf8Size + utf8Length text := rfl

theorem truncate_eq_ok_iff {text front : List Char} {n : Nat} (hlength : n ≤ utf8Length text) :
    truncate text n = .ok front ↔ ∃ back, text = front ++ back ∧ utf8Length front = n := by
  induction text generalizing n front with
  | nil =>
      obtain rfl : n = 0 := Nat.le_zero.mp hlength
      show Outcome.ok [] = Outcome.ok front ↔ _
      constructor
      · intro h
        cases h
        exact ⟨[], rfl, rfl⟩
      · rintro ⟨back, hback, -⟩
        rw [(List.append_eq_nil_iff.mp hback.symm).1]
  | cons c text ih =>
      have hpos := c.utf8Size_pos
      cases n with
      | zero =>
          show Outcome.ok [] = Outcome.ok front ↔ _
          constructor
          · intro h
            cases h
            exact ⟨c :: text, rfl, rfl⟩
          · rintro ⟨back, -, hfront⟩
            cases front with
            | nil => rfl
            | cons first front =>
                rw [utf8Length_cons] at hfront
                have := first.utf8Size_pos
                omega
      | succ n =>
          rw [utf8Length_cons] at hlength
          have hstep : truncate (c :: text) (n + 1) = (do
              Outcome.check (c.utf8Size ≤ n + 1) .bounds
              let front ← truncate text (n + 1 - c.utf8Size)
              pure (c :: front)) := rfl
          rw [hstep, Outcome.check]
          by_cases hfits : c.utf8Size ≤ n + 1
          · have hrest := fun front => @ih front (n + 1 - c.utf8Size) (by omega)
            rw [if_pos hfits, Outcome.ok_bind]
            constructor
            · intro h
              obtain ⟨front, hfront, hcons⟩ := Outcome.bind_eq_ok h
              cases hcons
              obtain ⟨back, rfl, hlen⟩ := (hrest front).mp hfront
              exact ⟨back, rfl, by rw [utf8Length_cons]; omega⟩
            · rintro ⟨back, hback, hlen⟩
              cases front with
              | nil => cases hlen
              | cons first front =>
                  obtain ⟨rfl, rfl⟩ := List.cons.inj hback
                  rw [utf8Length_cons] at hlen
                  rw [(hrest front).mpr ⟨back, rfl, by omega⟩]
                  rfl
          · rw [if_neg hfits]
            constructor
            · intro h
              cases h
            · rintro ⟨back, hback, hlen⟩
              cases front with
              | nil => cases hlen
              | cons first front =>
                  obtain ⟨rfl, -⟩ := List.cons.inj hback
                  rw [utf8Length_cons] at hlen
                  omega

theorem utf8Length_append (front back : List Char) :
    utf8Length (front ++ back) = utf8Length front + utf8Length back := by
  rw [utf8Length, List.map_append, List.sum_append]
  rfl

theorem utf8Length_zeros (n : Nat) : utf8Length (List.replicate n '0') = n := by
  rw [utf8Length_digits (isDigits_zeros n), List.length_replicate]

theorem truncate_padded_iff {fraction front : List Char} {scale : Nat} :
    truncate (fraction ++ List.replicate (scale - utf8Length fraction) '0') scale = .ok front ↔
      Cuts fraction scale front := by
  apply truncate_eq_ok_iff
  rw [utf8Length_append, utf8Length_zeros]
  omega

/-- A truncation does not fail: it cuts or it panics. -/
theorem truncate_ne_err (text : List Char) (n : Nat) (e : QuackError) : truncate text n ≠ .err e := by
  induction text generalizing n with
  | nil => nofun
  | cons c text ih =>
      cases n with
      | zero => nofun
      | succ n =>
          intro h
          have hstep : truncate (c :: text) (n + 1) = (do
              Outcome.check (c.utf8Size ≤ n + 1) .bounds
              let front ← truncate text (n + 1 - c.utf8Size)
              pure (c :: front)) := rfl
          rw [hstep, Outcome.check] at h
          by_cases hfits : c.utf8Size ≤ n + 1
          · rw [if_pos hfits, Outcome.ok_bind] at h
            cases hrest : truncate text (n + 1 - c.utf8Size) with
            | ok front =>
                rw [hrest] at h
                cases h
            | err e' => exact ih _ (by rw [hrest]; rw [hrest] at h; cases h; rfl)
            | panic cause =>
                rw [hrest] at h
                cases h
          · rw [if_neg hfits] at h
            cases h

theorem parseI128_eq_none_iff {text : List Char} : parseI128 text = none ↔ ¬ IntegerText text := by
  rw [Option.eq_none_iff_forall_ne_some]
  constructor
  · rintro h ⟨hne, hdigits, hrange⟩
    exact h _ (parseI128_eq_some_iff.mpr ⟨hne, hdigits, hrange, rfl⟩)
  · intro h number hnumber
    obtain ⟨hne, hdigits, hrange, -⟩ := parseI128_eq_some_iff.mp hnumber
    exact h ⟨hne, hdigits, hrange⟩

theorem parseDecimalString_parts {T : LogicalType} {aliasName : Option String} {width scale : U64}
    (hT : T.typeInfo = some (.decimal aliasName width scale)) {s : String} {integer fraction : List Char}
    (hparts : splitPoint (splitSign (trim s.toList)).2 = (integer, fraction)) :
    parseDecimalString T s = (do
      let padded ← truncate (fraction ++ List.replicate (scale.toNat - utf8Length fraction) '0') scale.toNat
      match parseI128 ((if integer = [] then ['0'] else integer) ++ padded) with
      | some unscaled => if (splitSign (trim s.toList)).1 then negateI128 unscaled else pure unscaled
      | none => .err (.protocol s!"invalid decimal value {s}")) := by
  unfold parseDecimalString unscaledOfText
  simp only [hT, hparts]
  cases truncate (fraction ++ List.replicate (scale.toNat - utf8Length fraction) '0') scale.toNat with
  | ok padded =>
      simp only [Outcome.ok_bind]
      cases parseI128 ((if integer = [] then ['0'] else integer) ++ padded) with
      | none => rfl
      | some unscaled =>
          cases (splitSign (trim s.toList)).1 with
          | false => rfl
          | true =>
              simp only [if_true]
              cases negateI128 unscaled <;> rfl
  | err e => rfl
  | panic cause => rfl

/-- When the parser that checks no digits refuses a text. -/
theorem parseDecimalString_err_iff {T : LogicalType} {aliasName : Option String} {width scale : U64}
    (hT : T.typeInfo = some (.decimal aliasName width scale)) (s : String) :
    (∃ e, parseDecimalString T s = .err e) ↔ UnreadableAt s scale.toNat := by
  rw [UnreadableAt, decimalParts]
  rcases hparts : splitPoint (splitSign (trim s.toList)).2 with ⟨integer, fraction⟩
  rw [parseDecimalString_parts hT hparts]
  cases hcut : truncate (fraction ++ List.replicate (scale.toNat - utf8Length fraction) '0') scale.toNat with
  | ok padded =>
      have hcuts := truncate_padded_iff.mp hcut
      rw [Outcome.ok_bind]
      cases hnumber : parseI128 ((if integer = [] then ['0'] else integer) ++ padded) with
      | none => exact ⟨fun _ => ⟨padded, hcuts, parseI128_eq_none_iff.mp hnumber⟩, fun _ => ⟨_, rfl⟩⟩
      | some unscaled =>
          constructor
          · rintro ⟨e, he⟩
            exfalso
            cases hnegative : (splitSign (trim s.toList)).1 with
            | false =>
                simp only [hnegative] at he
                cases he
            | true =>
                simp only [hnegative, if_true, negateI128, Outcome.check] at he
                split at he <;> cases he
          · rintro ⟨front, hfront, hnot⟩
            rw [← truncate_padded_iff, hcut] at hfront
            cases hfront
            rw [parseI128_eq_none_iff.mpr hnot] at hnumber
            cases hnumber
  | err e => exact absurd hcut (truncate_ne_err _ _ e)
  | panic cause =>
      constructor
      · rintro ⟨e, he⟩
        cases he
      · rintro ⟨front, hfront, -⟩
        rw [← truncate_padded_iff, hcut] at hfront
        cases hfront

/-- The parsers agree on the texts with digits on both sides of the point, and on those that the parser
without checks refuses as well. -/
theorem parsersAgree_iff {T : LogicalType} {aliasName : Option String} {width scale : U64}
    (hT : T.typeInfo = some (.decimal aliasName width scale)) (s : String) :
    ParsersAgree T s scale ↔ PlainDigits s ∨ UnreadableAt s scale.toNat := by
  rw [← parseDecimalString_err_iff hT]
  by_cases hdigits : PlainDigits s
  · have hnumeral := numeral_iff.mpr ⟨rfl, rfl, hdigits⟩
    refine ⟨fun _ => .inl hdigits, fun _ => ?_⟩
    unfold ParsersAgree parseDecimalString
    simp only [hT, parseDecimalValue_numeral hnumeral, unscaledOfText_numeral hnumeral]
    split
    · exact .inl ⟨_, rfl, rfl⟩
    · exact .inr ⟨_, _, rfl, rfl⟩
  · unfold ParsersAgree
    simp only [parseDecimalValue_notNumeral hdigits, reduceCtorEq, and_false, exists_false, false_or]
    constructor
    · rintro ⟨e, -, he, -⟩
      exact .inr ⟨e, he⟩
    · rintro (h | ⟨e, he⟩)
      · exact absurd h hdigits
      · exact ⟨e, _, he, rfl⟩

/-- DECIMAL(4, 2). -/
def price : LogicalType := ⟨.decimal, some (.decimal none 4 2)⟩

theorem parsersAgree_price : ParsersAgree price "1.50" 2 ↔ PlainDigits "1.50" ∨ UnreadableAt "1.50" 2 :=
  parsersAgree_iff (T := price) rfl "1.50"

/-- A second sign is taken for the sign of the integer. -/
theorem not_parsersAgree_twoSigns : ¬ ParsersAgree price "--5" 2 := by
  rintro (⟨unscaled, -, h⟩ | ⟨e, e', h, -⟩)
  · cases h
  · cases h

theorem trim_eq_self {text : List Char} (h : ∀ c ∈ text, isWhitespace c = false) : trim text = text := by
  have hdrop : ∀ {text : List Char}, (∀ c ∈ text, isWhitespace c = false) →
      text.dropWhile isWhitespace = text := by
    intro text h
    cases text with
    | nil => rfl
    | cons c text =>
        rw [List.dropWhile_cons, h c (List.mem_cons_self ..)]
        rfl
  rw [trim, hdrop h, hdrop (fun c hc => h c (List.mem_reverse.mp hc)), List.reverse_reverse]

theorem digit_notWhitespace {c : Char} (h : c.isDigit = true) : isWhitespace c = false := by
  simp only [Char.isDigit, Bool.and_eq_true, decide_eq_true_eq] at h
  have hle : c.toNat ≤ 57 := h.2
  have hge : 48 ≤ c.toNat := h.1
  simp only [isWhitespace, Bool.or_eq_false_iff, Bool.decide_or, Bool.decide_and, decide_eq_false_iff_not,
    Bool.and_eq_false_iff]
  omega

theorem Numeral.trim {text integer fraction : List Char} {negative : Bool}
    (h : Numeral text negative integer fraction) : Numeral (trim text) negative integer fraction := by
  rw [trim_eq_self]
  · exact h
  · obtain ⟨⟨sign, point, rfl, hsign, hpoint⟩, hinteger, hfraction⟩ := h
    have hsign' : ∀ c ∈ sign, isWhitespace c = false := by
      rcases hsign with ⟨rfl, -⟩ | ⟨rfl | rfl, -⟩
      · exact List.forall_mem_singleton.mpr (by decide : isWhitespace '-' = false)
      · exact List.forall_mem_singleton.mpr (by decide : isWhitespace '+' = false)
      · exact List.forall_mem_nil _
    have hpoint' : ∀ c ∈ point, isWhitespace c = false := by
      rcases hpoint with rfl | ⟨rfl, -⟩
      · exact List.forall_mem_singleton.mpr (by decide : isWhitespace '.' = false)
      · exact List.forall_mem_nil _
    simp only [List.forall_mem_append]
    exact ⟨hsign', fun c hc => digit_notWhitespace (hinteger c hc), hpoint',
      fun c hc => digit_notWhitespace (hfraction c hc)⟩

theorem toList_toString (n : Nat) : (toString n).toList = Nat.toDigits 10 n := by
  rw [Nat.toString_eq_repr, Nat.repr, String.toList_ofList]

theorem negateI128_abs {v : I128} (h : v ≠ BitVec.intMin 128) (hneg : v.toInt < 0) :
    negateI128 v = .ok (-v) ∧ (-v).toInt = v.toInt.natAbs := by
  have hvalue : (-v).toInt = -v.toInt := BitVec.toInt_neg_of_ne_intMin h
  have hupper := @BitVec.toInt_lt 128 (-v)
  have hrange : InI128 (-v.toInt) := ⟨by omega, by omega⟩
  refine ⟨?_, by omega⟩
  rw [negateI128, Outcome.check, if_pos hrange]
  rfl

theorem exists_abs {v : I128} (h : v ≠ BitVec.intMin 128) : ∃ abs : I128,
    (if v.toInt < 0 then negateI128 v else pure v) = Outcome.ok abs ∧ abs.toInt = v.toInt.natAbs := by
  by_cases hneg : v.toInt < 0
  · rw [if_pos hneg]
    exact ⟨_, negateI128_abs h hneg⟩
  · rw [if_neg hneg]
    exact ⟨v, rfl, by omega⟩

/-- The text of a decimal, from its sign and its absolute value. -/
def decimalText (sign : String) (abs : I128) (scale : U64) : Outcome QuackError String :=
  if scale = 0 then
    pure s!"{sign}{abs.toInt}"
  else do
    Outcome.check (scale.toNat % 2 ^ 32 ≤ 38) .overflow
    let fraction := toString (abs.toNat % 10 ^ (scale.toNat % 2 ^ 32))
    Outcome.check (scale.toNat ≤ 65535) .bounds
    let zeros := String.ofList (List.replicate (scale.toNat - fraction.length) '0')
    pure s!"{sign}{abs.toNat / 10 ^ (scale.toNat % 2 ^ 32)}.{zeros}{fraction}"

theorem decimalToString_eq {d : DecimalValue} {abs : I128}
    (habs : (if d.value.toInt < 0 then negateI128 d.value else pure d.value) = Outcome.ok abs) :
    decimalToString d = decimalText (if d.value.toInt < 0 then "-" else "") abs d.scale := by
  unfold decimalToString
  by_cases hneg : d.value.toInt < 0
  · rw [if_pos hneg] at habs
    simp only [if_pos hneg, habs]
    rfl
  · rw [if_neg hneg] at habs
    cases habs
    simp only [if_neg hneg]
    rfl

/-- The digits of a fraction, with zeros in front up to the scale. -/
def fractionDigits (fraction scale : Nat) : List Char :=
  List.replicate (scale - (Nat.toDigits 10 fraction).length) '0' ++ Nat.toDigits 10 fraction

theorem isDigits_fractionDigits (fraction scale : Nat) : IsDigits (fractionDigits fraction scale) :=
  isDigits_append.mpr ⟨isDigits_zeros _, isDigits_toDigits _⟩

theorem value_fractionDigits (fraction scale : Nat) : value (fractionDigits fraction scale) = fraction := by
  rw [fractionDigits, value_append, value_replicate_zero, value_toDigits, Nat.zero_mul, Nat.zero_add]

theorem length_fractionDigits {fraction scale : Nat} (hscale : 0 < scale) (h : fraction < 10 ^ scale) :
    (fractionDigits fraction scale).length = scale := by
  have hshort := length_toDigits_le hscale h
  rw [fractionDigits, List.length_append, List.length_replicate]
  omega

/-- The power of ten and the width of the fraction are both in range for scales up to 38, and for no others. -/
theorem returns_decimalText_iff {scale : U64} (hscale : scale ≠ 0) {sign : String} {abs : I128} :
    (decimalText sign abs scale).Returns ↔ scale.toNat ≤ 38 := by
  rw [decimalText, if_neg hscale, Outcome.returns_bind_iff, Outcome.returns_check_iff]
  constructor
  · rintro ⟨hpower, hwidth⟩
    have hpower' : (Outcome.check (scale.toNat % 2 ^ 32 ≤ 38) .overflow : Outcome QuackError Unit) = .ok () := by
      rw [Outcome.check, if_pos hpower]
    have hwidth := Outcome.returns_check_iff.mp (Outcome.returns_bind_iff.mp (hwidth () hpower')).1
    omega
  · intro h
    refine ⟨by omega, fun _ _ => Outcome.returns_bind_iff.mpr ⟨?_, fun _ _ => trivial⟩⟩
    exact Outcome.returns_check_iff.mpr (by omega)

theorem toList_decimalText {scale : U64} (hscale : scale ≠ 0) (hpower : scale.toNat ≤ 38)
    (sign : String) (abs : I128) : ∃ s, decimalText sign abs scale = .ok s ∧
      s.toList = sign.toList ++ (Nat.toDigits 10 (abs.toNat / 10 ^ (scale.toNat % 2 ^ 32)) ++
        '.' :: fractionDigits (abs.toNat % 10 ^ (scale.toNat % 2 ^ 32)) scale.toNat) := by
  rw [decimalText, if_neg hscale, Outcome.check, if_pos (show scale.toNat % 2 ^ 32 ≤ 38 by omega), Outcome.ok_bind,
    Outcome.check, if_pos (show scale.toNat ≤ 65535 by omega), Outcome.ok_bind]
  refine ⟨_, rfl, ?_⟩
  have hpoint : ".".toList = ['.'] := rfl
  simp only [toString, String.toList_append, fractionDigits]
  simp only [← Nat.toString_eq_repr, ← String.length_toList, toList_toString, String.toList_ofList,
    List.append_assoc, hpoint]
  rfl

/-- The text of a decimal is the numeral of its value at its scale. -/
theorem decimalToString_numeral {d : DecimalValue} (hscale : d.scale.toNat ≤ 38)
    (hvalue : d.value ≠ BitVec.intMin 128) : ∃ s integer fraction, decimalToString d = .ok s ∧
      Numeral s.toList (decide (d.value.toInt < 0)) integer fraction ∧
      magnitude integer fraction d.scale.toNat = d.value.toInt.natAbs := by
  obtain ⟨abs, habs, hnat⟩ := exists_abs hvalue
  have htoNat : abs.toNat = d.value.toInt.natAbs := by
    have := BitVec.toInt_eq_toNat_cond abs
    have := abs.isLt
    split at * <;> omega
  have hsign : ∃ sign : String, (if d.value.toInt < 0 then "-" else "") = sign ∧
      (sign.toList = ['-'] ∧ decide (d.value.toInt < 0) = true ∨
        (sign.toList = ['+'] ∨ sign.toList = []) ∧ decide (d.value.toInt < 0) = false) := by
    by_cases hneg : d.value.toInt < 0
    · exact ⟨"-", if_pos hneg, .inl ⟨rfl, decide_eq_true hneg⟩⟩
    · exact ⟨"", if_neg hneg, .inr ⟨.inr rfl, decide_eq_false hneg⟩⟩
  obtain ⟨sign, hsign, hshape⟩ := hsign
  rw [decimalToString_eq habs, hsign, decimalText]
  generalize d.value.toInt.natAbs = n at hnat htoNat
  by_cases hzero : d.scale = 0
  · rw [if_pos hzero]
    refine ⟨_, Nat.toDigits 10 n, [], rfl, ⟨⟨sign.toList, [], ?_, hshape, .inr ⟨rfl, rfl⟩⟩,
      isDigits_toDigits n, nofun⟩, ?_⟩
    · have htext : toString (n : Int) = toString n := rfl
      rw [hnat, htext, String.toList_append, toList_toString, List.append_nil, List.append_nil]
      rfl
    · rw [magnitude_eq, hzero, List.append_nil, value_toDigits]
      simp
  · have hexp : d.scale.toNat % 2 ^ 32 = d.scale.toNat := Nat.mod_eq_of_lt (by omega)
    have hk : 0 < d.scale.toNat := by
      rcases Nat.eq_zero_or_pos d.scale.toNat with h | h
      · exact absurd (BitVec.eq_of_toNat_eq h) hzero
      · exact h
    have hpow : 0 < 10 ^ d.scale.toNat := Nat.pow_pos (by decide)
    obtain ⟨s, htext, hlist⟩ := toList_decimalText hzero (by omega) sign abs
    rw [hexp, htoNat] at hlist
    rw [decimalText, if_neg hzero] at htext
    rw [if_neg hzero, htext]
    refine ⟨s, _, fractionDigits (n % 10 ^ d.scale.toNat) d.scale.toNat, rfl,
      ⟨⟨sign.toList, ['.'], hlist, hshape, .inl rfl⟩, isDigits_toDigits _,
        fun c hc => isDigits_fractionDigits _ _ c hc⟩, ?_⟩
    rw [magnitude_eq, value_append, length_fractionDigits hk (Nat.mod_lt n hpow), value_fractionDigits,
      value_toDigits, Nat.mul_div_cancel _ hpow, Nat.mul_comm, Nat.div_add_mod]

/-- Both parsers read back the text of a decimal. -/
theorem decimalToString_readBack {T : LogicalType} {aliasName : Option String} {width : U64}
    (d : DecimalValue) (hscale : d.scale.toNat ≤ 38) (hvalue : d.value ≠ BitVec.intMin 128)
    (hT : T.typeInfo = some (.decimal aliasName width d.scale)) :
    ∃ s, decimalToString d = .ok s ∧ parseDecimalValue s d.scale = .ok d.value ∧
      parseDecimalString T s = .ok d.value := by
  obtain ⟨s, integer, fraction, htext, hnumeral, hmagnitude⟩ := decimalToString_numeral hscale hvalue
  have hnumeral := hnumeral.trim
  have hlt : d.value.toInt.natAbs < 2 ^ 127 := by
    have hupper := @BitVec.toInt_lt 128 d.value
    have hlower := @BitVec.le_toInt 128 d.value
    have hne : d.value.toInt ≠ (BitVec.intMin 128).toInt := fun h => hvalue (BitVec.toInt_inj.mp h)
    rw [BitVec.toInt_intMin] at hne
    omega
  have hvalue : BitVec.ofInt 128 (signed (decide (d.value.toInt < 0)) d.value.toInt.natAbs) = d.value := by
    have hsigned : signed (decide (d.value.toInt < 0)) d.value.toInt.natAbs = d.value.toInt := by
      by_cases hneg : d.value.toInt < 0
      · rw [signed, decide_eq_true hneg, if_pos rfl]
        omega
      · rw [signed, decide_eq_false hneg, if_neg (by decide)]
        omega
    rw [hsigned, BitVec.ofInt_toInt]
  refine ⟨s, htext, ?_, ?_⟩
  · rw [parseDecimalValue_numeral hnumeral, hmagnitude, if_pos hlt, hvalue]
  · unfold parseDecimalString
    simp only [hT, unscaledOfText_numeral hnumeral, hmagnitude, if_pos hlt, hvalue]
    rfl

theorem decimalToString_readBack_price : (2 : U64).toNat ≤ 38 ∧ (-5#128) ≠ BitVec.intMin 128 ∧
    ∃ s, decimalToString ⟨-5, 4, 2⟩ = .ok s ∧ parseDecimalValue s 2 = .ok (-5) ∧
      parseDecimalString price s = .ok (-5) :=
  ⟨by decide, by decide, decimalToString_readBack (T := price) ⟨-5, 4, 2⟩ (by decide) (by decide) rfl⟩

end QuackProtocol
