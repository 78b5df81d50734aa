import QuackProtocol.CanonicalValues
import QuackProtocol.TemporalLiterals

/-! What the JSON of a leaf tells: the texts and the tagged objects that values without parts are converted to are
different for different values, whatever the options. -/

open Decoding DecimalDigits

namespace QuackProtocol

/-- A text with a separator is cut at the first one. -/
theorem cut_injective {c : Char} {front front' back back' : List Char} (hfront : c ∉ front) (hfront' : c ∉ front')
    (h : front ++ c :: back = front' ++ c :: back') : front = front' ∧ back = back' := by
  have htake : ∀ {text rest : List Char}, c ∉ text →
      (text ++ c :: rest).takeWhile (fun d => decide (d ≠ c)) = text := by
    intro text rest htext
    have hother : ∀ d ∈ text, decide (d ≠ c) = true := fun d hd => decide_eq_true fun heq => htext (heq ▸ hd)
    rw [List.takeWhile_append_of_pos hother]
    simp
  have hsame : front = front' := by
    rw [← htake hfront, h, htake hfront']
  subst hsame
  exact ⟨rfl, (List.cons.inj (List.append_cancel_left h)).2⟩

theorem padded_of_neg {width : Nat} {n : Int} (h : n < 0) :
    padded width n = '-' :: fractionDigits n.natAbs (width - 1) := by
  simp only [padded, if_pos h]
  rfl

theorem padded_digits {width : Nat} {n : Int} {c : Char} (h : c ∈ padded width n) :
    c = '-' ∨ c.isDigit = true := by
  by_cases hneg : n < 0
  · rw [padded_of_neg hneg, List.mem_cons] at h
    exact h.imp_right (isDigits_fractionDigits _ _ c)
  · rw [padded_eq (by omega)] at h
    exact .inr (isDigits_fractionDigits _ _ c h)

/-- A number is told by its padded text, also where it is negative. -/
theorem padded_eq_iff {width : Nat} {m n : Int} : padded width m = padded width n ↔ m = n := by
  constructor
  · intro h
    have hminus : ∀ {k : Int}, 0 ≤ k → '-' ∉ padded width k := by
      intro k hk hmem
      rw [padded_eq hk] at hmem
      cases isDigits_fractionDigits _ _ '-' hmem
    rcases lt_or_ge m 0 with hm | hm
    · rcases lt_or_ge n 0 with hn | hn
      · rw [padded_of_neg hm, padded_of_neg hn] at h
        have hvalue := congrArg value (List.cons.inj h).2
        rw [value_fractionDigits, value_fractionDigits] at hvalue
        omega
      · refine absurd ?_ (hminus hn)
        rw [← h, padded_of_neg hm]
        exact List.mem_cons_self ..
    · rcases lt_or_ge n 0 with hn | hn
      · refine absurd ?_ (hminus hm)
        rw [h, padded_of_neg hn]
        exact List.mem_cons_self ..
      · exact padded_injective hm hn h
  · rintro rfl
    rfl

/-- The text of a time tells its nanoseconds, before midnight and after a day too. -/
theorem timeToString_nanos {v w : I64} {unit : TimeUnit} (h : timeToString v unit = timeToString w unit) :
    timeNanos v unit = timeNanos w unit := by
  have hno : ∀ {c : Char} (n : Int), c ≠ '-' → c.isDigit = false → c ∉ padded 2 n := by
    intro c n hminus hdigit hmem
    rcases padded_digits hmem with heq | hdigit'
    · exact hminus heq
    · cases hdigit.symm.trans hdigit'
  simp only [timeToString] at h
  generalize timeNanos v unit = m at h ⊢
  generalize timeNanos w unit = n at h ⊢
  have hpoint : ∀ total : Int, '.' ∉ clockText total := by
    intro total hmem
    simp only [clockText, List.mem_append, List.mem_cons] at hmem
    rcases hmem with (hmem | hmem | hmem) | hmem | hmem
    · exact hno _ (by decide) rfl hmem
    · cases hmem
    · exact hno _ (by decide) rfl hmem
    · cases hmem
    · exact hno _ (by decide) rfl hmem
  obtain ⟨hclock, hfraction⟩ := append_fraction_injective (hpoint _) (hpoint _) (by omega) (by omega) h
  simp only [clockText, List.append_assoc, List.cons_append] at hclock
  obtain ⟨hhours, hclock⟩ := cut_injective (hno _ (by decide) rfl) (hno _ (by decide) rfl) hclock
  obtain ⟨hminutes, hseconds⟩ := cut_injective (hno _ (by decide) rfl) (hno _ (by decide) rfl) hclock
  have hhours := padded_eq_iff.mp hhours
  have hminutes := padded_eq_iff.mp hminutes
  have hseconds := padded_eq_iff.mp hseconds
  have htotal : m / 1000000000 = n / 1000000000 := by
    generalize m / 1000000000 = s at *
    generalize n / 1000000000 = t at *
    have hs := Int.tmod_add_mul_tdiv s 3600
    have ht := Int.tmod_add_mul_tdiv t 3600
    have hs' := Int.tmod_add_mul_tdiv (s.tmod 3600) 60
    have ht' := Int.tmod_add_mul_tdiv (t.tmod 3600) 60
    have hsixty : ∀ k : Int, (k.tmod 3600).tmod 60 = k.tmod 60 := fun k => Int.tmod_tmod_of_dvd k (by decide)
    rw [hsixty] at hs' ht'
    omega
  omega

theorem toDigits_injective {m n : Nat} (h : Nat.toDigits 10 m = Nat.toDigits 10 n) : m = n := by
  rw [← value_toDigits m, h, value_toDigits]

/-- The text of a decimal without its sign. -/
def unsignedDecimal (scale : U64) (n : Nat) : List Char :=
  if scale = 0 then Nat.toDigits 10 n
  else Nat.toDigits 10 (n / 10 ^ (scale.toNat % 2 ^ 32)) ++
    '.' :: fractionDigits (n % 10 ^ (scale.toNat % 2 ^ 32)) scale.toNat

theorem unsignedDecimal_injective {scale : U64} {m n : Nat}
    (h : unsignedDecimal scale m = unsignedDecimal scale n) : m = n := by
  have hpoint : ∀ k : Nat, '.' ∉ Nat.toDigits 10 k := fun k hmem => by cases isDigits_toDigits k '.' hmem
  rw [unsignedDecimal, unsignedDecimal] at h
  split at h
  · exact toDigits_injective h
  · obtain ⟨hinteger, hfraction⟩ := cut_injective (hpoint _) (hpoint _) h
    have hinteger := toDigits_injective hinteger
    have hfraction := congrArg value hfraction
    rw [value_fractionDigits, value_fractionDigits] at hfraction
    rw [← Nat.div_add_mod m (10 ^ (scale.toNat % 2 ^ 32)), hinteger, hfraction, Nat.div_add_mod]

theorem minus_notMem_unsignedDecimal (scale : U64) (n : Nat) : '-' ∉ unsignedDecimal scale n := by
  have hdigits : ∀ k : Nat, '-' ∉ Nat.toDigits 10 k := fun k hmem => by cases isDigits_toDigits k '-' hmem
  intro hmem
  rw [unsignedDecimal] at hmem
  split at hmem
  · exact hdigits _ hmem
  · rcases List.mem_append.mp hmem with hinteger | hfraction
    · exact hdigits _ hinteger
    · rcases List.mem_cons.mp hfraction with heq | hfraction
      · cases heq
      · cases isDigits_fractionDigits _ _ '-' hfraction

theorem toList_decimalToString {d : DecimalValue} {text : String} (h : decimalToString d = .ok text) :
    text.toList = (if d.value.toInt < 0 then ['-'] else []) ++ unsignedDecimal d.scale d.value.toInt.natAbs := by
  obtain ⟨hvalue, hpower⟩ := decimalToString_ok_iff.mp ⟨text, h⟩
  obtain ⟨abs, habs, hnat⟩ := exists_abs hvalue
  have htoNat : abs.toNat = d.value.toInt.natAbs := by
    have := BitVec.toInt_eq_toNat_cond abs
    have := abs.isLt
    split at * <;> omega
  have hsign : (if d.value.toInt < 0 then "-" else "").toList = if d.value.toInt < 0 then ['-'] else [] := by
    split <;> rfl
  rw [decimalToString_eq habs] at h
  rw [unsignedDecimal, ← htoNat, ← hsign]
  by_cases hzero : d.scale = 0
  · rw [decimalText, if_pos hzero] at h
    cases h
    rw [if_pos hzero, hnat, ← htoNat, ← toList_toString]
    simp only [toString, String.toList_append]
    rfl
  · obtain ⟨s, hs, htext⟩ := toList_decimalText hzero hpower
      (if d.value.toInt < 0 then "-" else "") abs
    cases hs.symm.trans h
    rw [htext, if_neg hzero]

/-- A sign and what it is in front of. -/
theorem sign_injective {p q : Prop} [Decidable p] [Decidable q] {front back : List Char} (hfront : '-' ∉ front)
    (hback : '-' ∉ back)
    (h : (if p then ['-'] else []) ++ front = (if q then ['-'] else []) ++ back) : (p ↔ q) ∧ front = back := by
  by_cases hp : p
  · by_cases hq : q
    · rw [if_pos hp, if_pos hq] at h
      exact ⟨iff_of_true hp hq, List.append_cancel_left h⟩
    · rw [if_pos hp, if_neg hq, List.nil_append] at h
      exact absurd (h ▸ List.mem_cons_self ..) hback
  · by_cases hq : q
    · rw [if_neg hp, if_pos hq, List.nil_append] at h
      exact absurd (h ▸ List.mem_cons_self ..) hfront
    · rw [if_neg hp, if_neg hq] at h
      exact ⟨iff_of_false hp hq, h⟩

/-- A decimal is told by its text at its scale. -/
theorem decimalToString_value {scale width width' : U64} {m n : I128} {text : String}
    (hm : decimalToString ⟨m, width, scale⟩ = .ok text) (hn : decimalToString ⟨n, width', scale⟩ = .ok text) :
    m = n := by
  obtain ⟨hsign, habs⟩ := sign_injective (minus_notMem_unsignedDecimal _ _) (minus_notMem_unsignedDecimal _ _)
    ((toList_decimalToString hm).symm.trans (toList_decimalToString hn))
  have habs := unsignedDecimal_injective habs
  simp only at hsign habs
  exact BitVec.eq_of_toInt_eq (by omega)

theorem displayInt_injective {w : Nat} {m n : BitVec w} (h : displayInt m = displayInt n) : m = n :=
  BitVec.eq_of_toInt_eq (toString_int_injective (congrArg String.toList h))

theorem bytesToHex_injective {raw raw' : Bytes} (h : bytesToHex raw = bytesToHex raw') : raw = raw' := by
  have hdigit : ∀ m < 16, ∀ n < 16, Nat.digitChar m = Nat.digitChar n → m = n := by decide
  induction raw generalizing raw' with
  | nil =>
      cases raw' with
      | nil => rfl
      | cons byte raw' => cases h
  | cons byte raw ih =>
      cases raw' with
      | nil => cases h
      | cons byte' raw' =>
          have hbyte := byte.toNat_lt
          have hbyte' := byte'.toNat_lt
          obtain ⟨hhigh, hrest⟩ := List.cons.inj h
          obtain ⟨hlow, hrest⟩ := List.cons.inj hrest
          have hhigh := hdigit _ (by omega) _ (by omega) hhigh
          have hlow := hdigit _ (by omega) _ (by omega) hlow
          rw [ih hrest, UInt8.toNat_inj.mp (by omega : byte.toNat = byte'.toNat)]

/-! ### Objects -/

/-- The entries of an object, in the order of their keys. -/
def Ascending (entries : List (String × JsonValue)) : Prop :=
  entries.Pairwise fun entry other => entry.1 < other.1

theorem mem_insertEntry {entries : List (String × JsonValue)} {key : String} {value : JsonValue}
    (h : Ascending entries) (entry : String × JsonValue) :
    entry ∈ insertEntry entries key value ↔ entry = (key, value) ∨ (entry.1 ≠ key ∧ entry ∈ entries) := by
  induction entries with
  | nil => simp [insertEntry]
  | cons first entries ih =>
      obtain ⟨first, old⟩ := first
      obtain ⟨hfirst, hrest⟩ := List.pairwise_cons.mp h
      have hlater : ∀ entry ∈ entries, key ≤ first → entry.1 ≠ key := by
        rintro entry hmem hle rfl
        exact hle (hfirst entry hmem)
      rw [insertEntry]
      split
      · rename_i heq
        subst heq
        rw [List.mem_cons, List.mem_cons]
        constructor
        · rintro (rfl | hmem)
          · exact .inl rfl
          · exact .inr ⟨hlater entry hmem (String.le_refl _), .inr hmem⟩
        · rintro (rfl | ⟨hne, rfl | hmem⟩)
          · exact .inl rfl
          · exact absurd rfl hne
          · exact .inr hmem
      · rename_i hne
        split
        · rename_i hlt
          rw [List.mem_cons]
          refine or_congr_right ⟨fun hmem => ⟨?_, hmem⟩, And.right⟩
          rcases List.mem_cons.mp hmem with rfl | hmem
          · exact Ne.symm hne
          · exact hlater entry hmem (String.lt_asymm hlt)
        · rw [List.mem_cons, List.mem_cons, ih hrest]
          constructor
          · rintro (rfl | rfl | ⟨hother, hmem⟩)
            · exact .inr ⟨Ne.symm hne, .inl rfl⟩
            · exact .inl rfl
            · exact .inr ⟨hother, .inr hmem⟩
          · rintro (rfl | ⟨hother, rfl | hmem⟩)
            · exact .inr (.inl rfl)
            · exact .inl rfl
            · exact .inr (.inr ⟨hother, hmem⟩)

theorem ascending_insertEntry {entries : List (String × JsonValue)} {key : String} {value : JsonValue}
    (h : Ascending entries) : Ascending (insertEntry entries key value) := by
  induction entries with
  | nil => exact List.pairwise_singleton _ _
  | cons first entries ih =>
      obtain ⟨first, old⟩ := first
      obtain ⟨hfirst, hrest⟩ := List.pairwise_cons.mp h
      rw [insertEntry]
      split
      · rename_i heq
        subst heq
        exact List.pairwise_cons.mpr ⟨hfirst, hrest⟩
      · rename_i hne
        split
        · rename_i hlt
          refine List.pairwise_cons.mpr ⟨fun entry hmem => ?_, h⟩
          rcases List.mem_cons.mp hmem with rfl | hmem
          · exact hlt
          · exact String.lt_trans hlt (hfirst entry hmem)
        · rename_i hlt
          refine List.pairwise_cons.mpr ⟨fun entry hmem => ?_, ih hrest⟩
          rcases (mem_insertEntry hrest entry).mp hmem with rfl | ⟨-, hmem⟩
          · exact Decidable.byContradiction fun hnot => hne (String.le_antisymm hnot hlt)
          · exact hfirst entry hmem

/-- An object is its entries. -/
theorem ascending_ext {entries entries' : List (String × JsonValue)} (h : Ascending entries)
    (h' : Ascending entries') (hmem : ∀ entry, entry ∈ entries ↔ entry ∈ entries') : entries = entries' := by
  have hnodup : ∀ {entries : List (String × JsonValue)}, Ascending entries → entries.Nodup := fun hentries =>
    hentries.imp fun hlt heq => String.ne_of_lt hlt (congrArg Prod.fst heq)
  exact ((List.perm_ext_iff_of_nodup (hnodup h) (hnodup h')).mpr hmem).eq_of_pairwise
    (fun _ _ _ _ hlt hgt => absurd hgt (String.lt_asymm hlt)) h h'

/-- The object after the entries have been inserted one by one. -/
def inserted (object entries : List (String × JsonValue)) : List (String × JsonValue) :=
  entries.foldl (fun found entry => insertEntry found entry.1 entry.2) object

theorem ascending_inserted {object entries : List (String × JsonValue)} (h : Ascending object) :
    Ascending (inserted object entries) := by
  induction entries generalizing object with
  | nil => exact h
  | cons entry entries ih => exact ih (ascending_insertEntry h)

theorem mem_inserted {object entries : List (String × JsonValue)} (hobject : Ascending object)
    (hkeys : (entries.map Prod.fst).Nodup) (entry : String × JsonValue) :
    entry ∈ inserted object entries ↔ entry ∈ entries ∨ (entry.1 ∉ entries.map Prod.fst ∧ entry ∈ object) := by
  induction entries generalizing object with
  | nil => simp [inserted]
  | cons first entries ih =>
      rw [List.map_cons, List.nodup_cons] at hkeys
      obtain ⟨hfirst, hrest⟩ := hkeys
      have hstep : entry ∈ inserted object (first :: entries) ↔
          entry ∈ inserted (insertEntry object first.1 first.2) entries := Iff.rfl
      rw [hstep, ih (ascending_insertEntry hobject) hrest, mem_insertEntry hobject, List.mem_cons, List.map_cons,
        List.mem_cons, not_or, and_or_left, or_assoc]
      constructor
      · rintro (hmem | ⟨hnot, rfl⟩ | ⟨hnot, hne, hmem⟩)
        · exact .inr (.inl hmem)
        · exact .inl rfl
        · exact .inr (.inr ⟨⟨hne, hnot⟩, hmem⟩)
      · rintro (rfl | hmem | ⟨⟨hne, hnot⟩, hmem⟩)
        · exact .inr (.inl ⟨hfirst, rfl⟩)
        · exact .inl hmem
        · exact .inr (.inr ⟨hnot, hne, hmem⟩)

theorem mem_inserted_nil {entries : List (String × JsonValue)} (hkeys : (entries.map Prod.fst).Nodup)
    (entry : String × JsonValue) : entry ∈ inserted [] entries ↔ entry ∈ entries := by
  rw [mem_inserted .nil hkeys, or_iff_left]
  exact fun h => List.not_mem_nil h.2

/-- Objects that are equal have the same values, where they are made with the same keys. -/
theorem ofEntries_values {entries entries' : List (String × JsonValue)}
    (h : JsonValue.ofEntries entries = .ofEntries entries') (hkeys : (entries.map Prod.fst).Nodup)
    (hsame : entries.map Prod.fst = entries'.map Prod.fst) : entries.map Prod.snd = entries'.map Prod.snd := by
  have hobject : inserted [] entries = inserted [] entries' := JsonValue.object.inj h
  have hkeys' : (entries'.map Prod.fst).Nodup := hsame ▸ hkeys
  have hlength := congrArg List.length hsame
  rw [List.length_map, List.length_map] at hlength
  apply List.ext_getElem (by rw [List.length_map, List.length_map, hlength])
  intro i hi hi'
  rw [List.length_map] at hi hi'
  have hmem : entries[i] ∈ entries' := by
    rw [← mem_inserted_nil hkeys', ← hobject, mem_inserted_nil hkeys]
    exact List.getElem_mem hi
  have hkey := List.getElem_of_eq hsame (by rwa [List.length_map] : i < (entries.map Prod.fst).length)
  rw [List.getElem_map, List.getElem_map] at hkey
  rw [List.getElem_map, List.getElem_map, List.inj_on_of_nodup_map hkeys' hmem (List.getElem_mem hi') hkey]

section
variable {calendar : Calendar} {base64 : Bytes → String} {options : JsonOptions}

theorem ofInt_injective {m n : I64} (h : JsonNumber.ofInt m = JsonNumber.ofInt n) : m = n := by
  rw [JsonNumber.ofInt, JsonNumber.ofInt] at h
  split at h <;> split at h <;> cases h <;> rfl

theorem bigintToJson_injective {m n : I128} {mode : BigIntJsonMode} {json : JsonValue}
    (hm : bigintToJson m mode = .ok json) (hn : bigintToJson n mode = .ok json) : m = n := by
  obtain hm' := bigintToJson_ok_iff.mp ⟨json, hm⟩
  obtain hn' := bigintToJson_ok_iff.mp ⟨json, hn⟩
  cases mode with
  | string =>
      cases hm
      exact (displayInt_injective (JsonValue.string.inj (Except.ok.inj hn))).symm
  | number =>
      rw [bigintToJson, if_pos (hm' rfl)] at hm
      rw [bigintToJson, if_pos (hn' rfl)] at hn
      cases hm
      have hsame := ofInt_injective (JsonValue.number.inj (Except.ok.inj hn))
      have hint := congrArg BitVec.toInt hsame
      rw [(Narrowing.toInt_setWidth_eq_iff (w := 64) n (by decide) (by decide)).mpr (hn' rfl),
        (Narrowing.toInt_setWidth_eq_iff (w := 64) m (by decide) (by decide)).mpr (hm' rfl)] at hint
      exact (BitVec.eq_of_toInt_eq hint).symm

theorem unsignedBigintToJson_injective {m n : U128} {mode : BigIntJsonMode} {json : JsonValue}
    (hm : unsignedBigintToJson m mode = .ok json) (hn : unsignedBigintToJson n mode = .ok json) : m = n := by
  obtain hm' := unsignedBigintToJson_ok_iff.mp ⟨json, hm⟩
  obtain hn' := unsignedBigintToJson_ok_iff.mp ⟨json, hn⟩
  cases mode with
  | string =>
      cases hm
      have htext := congrArg String.toList (JsonValue.string.inj (Except.ok.inj hn))
      rw [toList_toString, toList_toString] at htext
      exact BitVec.eq_of_toNat_eq (toDigits_injective htext).symm
  | number =>
      rw [unsignedBigintToJson, if_pos (hm' rfl)] at hm
      rw [unsignedBigintToJson, if_pos (hn' rfl)] at hn
      cases hm
      have hsame := congrArg BitVec.toNat (JsonNumber.posInt.inj (JsonValue.number.inj (Except.ok.inj hn)))
      rw [BitVec.toNat_setWidth, BitVec.toNat_setWidth, Nat.mod_eq_of_lt (hn' rfl),
        Nat.mod_eq_of_lt (hm' rfl)] at hsame
      exact BitVec.eq_of_toNat_eq hsame.symm

theorem timestampNanos_injective {m n : I64} {unit : TimestampUnit}
    (h : timestampNanos m unit = timestampNanos n unit) : m = n := by
  apply BitVec.eq_of_toInt_eq
  cases unit <;> simp only [timestampNanos] at h <;> omega

theorem timeNanos_injective {m n : I64} {unit : TimeUnit} (h : timeNanos m unit = timeNanos n unit) : m = n := by
  apply BitVec.eq_of_toInt_eq
  cases unit <;> simp only [timeNanos] at h <;> omega

theorem widened_injective {m n : I32} (h : JsonValue.number (.ofInt (m.signExtend 64)) =
    .number (.ofInt (n.signExtend 64))) : m = n := by
  have hint := congrArg BitVec.toInt (ofInt_injective (JsonValue.number.inj h))
  rw [BitVec.toInt_signExtend_of_le (by decide), BitVec.toInt_signExtend_of_le (by decide)] at hint
  exact BitVec.eq_of_toInt_eq hint

theorem ofF64_shown {m n : F64} (h : JsonValue.ofF64 m = JsonValue.ofF64 n) :
    (F64.isFinite m ↔ F64.isFinite n) ∧ (F64.isFinite m → m = n) := by
  rw [JsonValue.ofF64, JsonValue.ofF64] at h
  split at h <;> split at h <;> cases h <;> simp_all

theorem bytesToJson_injective (hbase64 : Function.Injective base64) {raw raw' : Bytes} {mode : BytesJsonMode}
    (h : bytesToJson base64 raw mode = bytesToJson base64 raw' mode) : raw = raw' := by
  cases mode with
  | base64 => exact hbase64 (JsonValue.string.inj h)
  | hex => exact bytesToHex_injective (String.ofList_injective (JsonValue.string.inj h))
  | array =>
      refine List.map_injective_iff.mpr (fun byte byte' heq => ?_) (JsonValue.array.inj h)
      have hnumber := congrArg BitVec.toNat (JsonNumber.posInt.inj (JsonValue.number.inj heq))
      have hbyte := byte.toNat_lt
      have hbyte' := byte'.toNat_lt
      simp only [BitVec.toNat_ofNat] at hnumber
      exact UInt8.toNat_inj.mp (by omega)

theorem decimalToJson_injective {width scale : U64} {m n : I128} {json : JsonValue}
    (hm : decimalToJson options ⟨m, width, scale⟩ = .ok json)
    (hn : decimalToJson options ⟨n, width, scale⟩ = .ok json) : m = n := by
  unfold decimalToJson at hm hn
  cases hmode : options.decimal with
  | tagged =>
      simp only [hmode] at hm hn
      cases hm
      have hvalues := ofEntries_values (Outcome.ok.inj hn) (by simp) (by simp)
      simp only [List.map_cons, List.cons.injEq, JsonValue.string.injEq] at hvalues
      exact (displayInt_injective hvalues.2.1).symm
  | default =>
      simp only [hmode] at hm hn
      obtain ⟨text, htext, hm⟩ := Outcome.bind_eq_ok hm
      obtain ⟨text', htext', hn⟩ := Outcome.bind_eq_ok hn
      cases hm
      cases hn
      exact decimalToString_value htext htext'

theorem dateToJson_injective (hcalendar : PrintsDistinct calendar) {d e : DateValue} {json : JsonValue}
    (hd : dateToJson calendar options d = .ok json) (he : dateToJson calendar options e = .ok json) : d = e := by
  obtain ⟨d⟩ := d
  obtain ⟨e⟩ := e
  unfold dateToJson at hd he
  cases hmode : options.date with
  | tagged =>
      simp only [hmode] at hd he
      cases hd
      have hvalues := ofEntries_values (Outcome.ok.inj he) (by simp) (by simp)
      simp only [List.map_cons, List.cons.injEq] at hvalues
      rw [widened_injective hvalues.2.1]
  | default =>
      simp only [hmode] at hd he
      obtain ⟨text, htext, hd⟩ := Outcome.bind_eq_ok hd
      obtain ⟨text', htext', he⟩ := Outcome.bind_eq_ok he
      cases hd
      have hsame := String.ofList_injective (JsonValue.string.inj (Outcome.ok.inj he))
      subst hsame
      obtain ⟨_, hin, htext⟩ := Outcome.bind_eq_ok htext
      obtain ⟨_, hin', htext'⟩ := Outcome.bind_eq_ok htext'
      have hdays := hcalendar.date (Outcome.check_eq_ok hin) (Outcome.check_eq_ok hin')
        ((Outcome.ok.inj htext).trans (Outcome.ok.inj htext').symm)
      rw [BitVec.eq_of_toInt_eq hdays]

theorem timeToJson_injective {unit : TimeUnit} {m n : I64}
    (h : timeToJson options ⟨unit, m⟩ = timeToJson options ⟨unit, n⟩) : m = n := by
  unfold timeToJson at h
  cases hmode : options.time with
  | tagged =>
      simp only [hmode] at h
      have hvalues := ofEntries_values h (by simp) (by simp)
      simp only [List.map_cons, List.cons.injEq, JsonValue.string.injEq] at hvalues
      exact displayInt_injective hvalues.2.2.1
  | default =>
      simp only [hmode] at h
      exact timeNanos_injective (timeToString_nanos (String.ofList_injective (JsonValue.string.inj h)))

theorem timestampToJson_injective (hcalendar : PrintsDistinct calendar) {unit : TimestampUnit}
    {timezoneUtc : Bool} {m n : I64} {json : JsonValue}
    (hm : timestampToJson calendar options ⟨unit, m, timezoneUtc⟩ = .ok json)
    (hn : timestampToJson calendar options ⟨unit, n, timezoneUtc⟩ = .ok json) : m = n := by
  unfold timestampToJson at hm hn
  cases hmode : options.timestamp with
  | tagged =>
      simp only [hmode] at hm hn
      cases hm
      have hobject := Except.ok.inj hn
      have htext : displayInt n = displayInt m := by
        cases timezoneUtc
        · simp only [Bool.false_eq_true, if_false] at hobject
          have hvalues := ofEntries_values hobject (by simp) (by simp)
          simp only [List.map_cons, List.cons.injEq, JsonValue.string.injEq] at hvalues
          exact hvalues.2.2.1
        · simp only [if_true, List.cons_append] at hobject
          have hvalues := ofEntries_values hobject (by simp) (by simp)
          simp only [List.map_cons, List.cons.injEq, JsonValue.string.injEq] at hvalues
          exact hvalues.2.2.1
      exact (displayInt_injective htext).symm
  | default =>
      simp only [hmode] at hm hn
      obtain ⟨text, htext, hm⟩ := Except.bind_eq_ok hm
      obtain ⟨text', htext', hn⟩ := Except.bind_eq_ok hn
      cases hm
      have hsame := String.ofList_injective (JsonValue.string.inj (Except.ok.inj hn))
      subst hsame
      have hday := (@timestampToIso_ok_iff calendar ⟨unit, m, timezoneUtc⟩).mp ⟨_, htext⟩
      have hday' := (@timestampToIso_ok_iff calendar ⟨unit, n, timezoneUtc⟩).mp ⟨_, htext'⟩
      exact timestampNanos_injective (timestampToIso_injective hcalendar hday hday' (htext.trans htext'.symm))

end

end QuackProtocol
