import QuackProtocol.Sql

/-! The placeholders of an SQL text and what they are replaced by. The tokens that the scanner finds are
characterised by their places: regions as the lexical rules have them, a name behind a single colon and read to
its end, and no other character that would begin a placeholder. -/

open Decoding Lexing

namespace QuackProtocol

/-! ### Tokens in their places -/

def SqlToken.lexemes : SqlToken → List Lexeme
  | region lexeme => [lexeme]
  | placeholder text => others text
  | other c => [.other c]

def tokensText (tokens : List SqlToken) : List Char := tokens.flatMap SqlToken.text

def tokensLexemes (tokens : List SqlToken) : List Lexeme := tokens.flatMap SqlToken.lexemes

/-- A colon with the whole identifier behind it, and no colon before it. -/
structure NameStands (previous : Option Char) (text : List Char) (next : Option Char) : Prop where
  single : previous ≠ some ':'
  identifier : ∃ c name, text = ':' :: c :: name ∧ isIdentifierStart c = true ∧
    ∀ d ∈ name, isIdentifierPart d = true
  whole : next.any isIdentifierPart = false

/-- The token between two characters. -/
def TokenStands (previous : Option Char) (token : SqlToken) (next : Option Char) : Prop :=
  match token with
  | .region lexeme => ∀ c, lexeme ≠ .other c
  | .placeholder text => text = ['?'] ∨ NameStands previous text next
  | .other c => c ≠ '?' ∧ ¬ (c = ':' ∧ previous ≠ some ':' ∧ next.any isIdentifierStart = true)

def Placed (previous : Option Char) : List SqlToken → Prop
  | [] => True
  | token :: tokens =>
    TokenStands previous token (tokensText tokens).head? ∧ Placed token.text.getLast? tokens

/-- The tokens of a text behind a character. -/
def Scans (previous : Option Char) (text : List Char) (tokens : List SqlToken) : Prop :=
  Lexes text (tokensLexemes tokens) ∧ Placed previous tokens

section
variable {previous : Option Char} {c : Char} {text rest : List Char} {tokens : List SqlToken}

theorem spell_tokenLexemes (token : SqlToken) : spell token.lexemes = token.text := by
  cases token with
  | region lexeme => exact List.append_nil _
  | placeholder text => exact spell_others text
  | other c => rfl

theorem spell_tokensLexemes (tokens : List SqlToken) : spell (tokensLexemes tokens) = tokensText tokens := by
  induction tokens with
  | nil => rfl
  | cons token tokens ih =>
      rw [tokensLexemes, List.flatMap_cons, spell_append, ← tokensLexemes, ih, spell_tokenLexemes]
      rfl

/-- The first token's lexemes fit before the rest. -/
theorem lexes_cons {token : SqlToken} (hrest : Lexes rest (tokensLexemes tokens))
    (hfits : Fitting token.lexemes rest.head?) :
    Lexes (token.text ++ rest) (tokensLexemes (token :: tokens)) := by
  obtain ⟨hspell, hrest⟩ := hrest
  constructor
  · rw [tokensLexemes, List.flatMap_cons, spell_append, ← tokensLexemes, hspell, spell_tokenLexemes]
  · rw [tokensLexemes, List.flatMap_cons, fitting_append, ← tokensLexemes, hspell, Option.or_none]
    exact ⟨hfits, hrest⟩

theorem inert_identifier {d : Char} (h : isIdentifierPart d = true) : Inert d := by
  refine ⟨?_, ?_, ?_, ?_⟩ <;> rintro rfl <;> cases h

theorem isIdentifierPart_of_start {d : Char} (h : isIdentifierStart d = true) : isIdentifierPart d = true := by
  rw [isIdentifierStart, Bool.or_eq_true] at h
  rw [isIdentifierPart, Char.isAlphanum, Bool.or_eq_true, Bool.or_eq_true]
  exact h.imp_left .inl

/-- What the scanner makes of a character that begins no region. -/
def scanOther (previous : Option Char) (c : Char) (rest : List Char) : SqlToken × List Char :=
  if c = '?' then
    (.placeholder ['?'], rest)
  else if c = ':' ∧ previous ≠ some ':' ∧ rest.head? ≠ some ':' ∧ rest.head?.any isIdentifierStart then
    (.placeholder (':' :: (rest.take 1 ++ rest.tail.takeWhile isIdentifierPart)),
      rest.tail.dropWhile isIdentifierPart)
  else
    (.other c, rest)

/-- The scanner first looks for a region. -/
theorem scanToken_eq (previous : Option Char) (c : Char) (rest : List Char) :
    scanToken previous c rest =
      match region (c :: rest) with
      | some (lexeme, back) => (.region lexeme, back)
      | none => scanOther previous c rest := by
  cases hregion : region (c :: rest) with
  | none =>
      obtain ⟨hquote, hline, hblock⟩ := region_eq_none_iff.mp hregion
      rw [scanToken, if_neg hquote.1, if_neg hquote.2, if_neg hline, if_neg hblock]
      rfl
  | some found =>
      unfold region at hregion
      split at hregion
      · rename_i heq
        cases heq
        cases hregion
        rfl
      · rename_i heq
        cases heq
        cases hregion
        rfl
      · rename_i heq
        cases heq
        cases hregion
        rfl
      · rename_i heq
        cases heq
        cases hregion
        rfl
      · cases hregion

theorem fitting_name {d : Char} {name : List Char} (hd : isIdentifierStart d = true)
    (hname : ∀ e ∈ name, isIdentifierPart e = true) (next : Option Char) :
    Fitting (others (':' :: d :: name)) next := by
  refine fitting_others (List.forall_mem_cons.mpr ⟨?_, List.forall_mem_cons.mpr ⟨?_, ?_⟩⟩) next
  · refine ⟨?_, ?_, ?_, ?_⟩ <;> decide
  · exact inert_identifier (isIdentifierPart_of_start hd)
  · exact fun e he => inert_identifier (hname e he)

theorem scanOther_sound (hplain : Plain c rest.head?) :
    c :: rest = (scanOther previous c rest).1.text ++ (scanOther previous c rest).2 ∧
      Fitting (scanOther previous c rest).1.lexemes (scanOther previous c rest).2.head? ∧
      TokenStands previous (scanOther previous c rest).1 (scanOther previous c rest).2.head? := by
  rw [scanOther]
  by_cases hquestion : c = '?'
  · rw [if_pos hquestion, hquestion]
    refine ⟨rfl, fitting_others (List.forall_mem_singleton.mpr ?_) _, .inl rfl⟩
    refine ⟨?_, ?_, ?_, ?_⟩ <;> decide
  · rw [if_neg hquestion]
    split
    · rename_i hname
      obtain ⟨rfl, hprevious, -, hstart⟩ := hname
      cases rest with
      | nil => cases hstart
      | cons d tail =>
          have hname : ∀ e ∈ tail.takeWhile isIdentifierPart, isIdentifierPart e = true :=
            fun e he => List.mem_takeWhile_imp he
          refine ⟨?_, fitting_name hstart hname _, .inr ⟨hprevious, ⟨d, _, rfl, hstart, hname⟩, ?_⟩⟩
          · simp only [SqlToken.text, List.tail_cons, List.take_succ_cons, List.take_zero, List.cons_append,
              List.nil_append, List.takeWhile_append_dropWhile]
          · have hhead := List.head?_dropWhile_not isIdentifierPart tail
            rw [List.tail_cons]
            cases hrest : (tail.dropWhile isIdentifierPart).head? with
            | none => rfl
            | some e =>
                rw [hrest] at hhead
                exact hhead
    · rename_i hname
      refine ⟨rfl, ⟨.other (by simpa using hplain), trivial⟩, hquestion, fun hother => hname ?_⟩
      obtain ⟨hcolon, hprevious, hstart⟩ := hother
      refine ⟨hcolon, hprevious, fun hnext => ?_, hstart⟩
      rw [hnext] at hstart
      cases hstart

theorem scanToken_sound (previous : Option Char) (c : Char) (rest : List Char) :
    c :: rest = (scanToken previous c rest).1.text ++ (scanToken previous c rest).2 ∧
      Fitting (scanToken previous c rest).1.lexemes (scanToken previous c rest).2.head? ∧
      TokenStands previous (scanToken previous c rest).1 (scanToken previous c rest).2.head? := by
  rw [scanToken_eq]
  cases hregion : region (c :: rest) with
  | none => exact scanOther_sound (region_eq_none_iff.mp hregion)
  | some found =>
      have hfound : region (c :: rest) = some (found.1, found.2) := hregion
      obtain ⟨htext, hstands, hother⟩ := region_sound hfound
      refine ⟨htext, ⟨?_, trivial⟩, hother⟩
      simpa using hstands

theorem scans_scanTokens (previous : Option Char) (text : List Char) :
    Scans previous text (scanTokens previous text) := by
  induction previous, text using scanTokens.induct with
  | case1 previous =>
      rw [scanTokens]
      exact ⟨⟨rfl, trivial⟩, trivial⟩
  | case2 previous c rest turn ih =>
      obtain ⟨hlexes, hplaced⟩ := ih
      obtain ⟨htext, hfits, hstands⟩ := scanToken_sound previous c rest
      rw [scanTokens, htext]
      refine ⟨lexes_cons hlexes hfits, ?_, hplaced⟩
      have hrest : tokensText (scanTokens turn.1.text.getLast? turn.2) = turn.2 := by
        rw [← spell_tokensLexemes]
        exact hlexes.1
      show TokenStands previous turn.1 (tokensText (scanTokens turn.1.text.getLast? turn.2)).head?
      rw [hrest]
      exact hstands

/-- A token that stands in its place is the one that is scanned there. -/
theorem scanToken_complete {token : SqlToken} (hfits : Fitting token.lexemes rest.head?)
    (hstands : TokenStands previous token rest.head?) :
    ∃ c tail, token.text ++ rest = c :: tail ∧ scanToken previous c tail = (token, rest) := by
  cases token with
  | region lexeme =>
      have hlexeme : Stands lexeme rest.head? := by simpa using hfits.1
      obtain ⟨c, tail, htext⟩ := List.exists_cons_of_ne_nil hlexeme.text_ne_nil
      have hregion := region_complete hlexeme hstands
      rw [htext, List.cons_append] at hregion
      refine ⟨c, tail ++ rest, by rw [SqlToken.text, htext]; rfl, ?_⟩
      rw [scanToken_eq, hregion]
  | placeholder text =>
      rcases hstands with rfl | ⟨hsingle, ⟨d, name, rfl, hd, hname⟩, hwhole⟩
      · have hplain : region ('?' :: rest) = none := region_eq_none_iff.mpr ⟨by decide, by simp, by simp⟩
        refine ⟨'?', rest, rfl, ?_⟩
        rw [scanToken_eq, hplain]
        rfl
      · have hplain : region (':' :: d :: (name ++ rest)) = none :=
          region_eq_none_iff.mpr ⟨by decide, by simp, by simp⟩
        have hcolon : d ≠ ':' := by
          rintro rfl
          cases hd
        have htake : (name ++ rest).takeWhile isIdentifierPart = name := by
          rw [List.takeWhile_append_of_pos hname]
          cases rest with
          | nil => simp
          | cons e rest => rw [List.takeWhile_cons, if_neg (by simpa using hwhole), List.append_nil]
        have hdrop : (name ++ rest).dropWhile isIdentifierPart = rest := by
          rw [List.dropWhile_append_of_pos hname]
          cases rest with
          | nil => rfl
          | cons e rest => rw [List.dropWhile_cons, if_neg (by simpa using hwhole)]
        refine ⟨':', d :: (name ++ rest), rfl, ?_⟩
        rw [scanToken_eq, hplain]
        simp only [scanOther]
        rw [if_neg (by decide), if_pos ⟨trivial, hsingle, by simpa using hcolon, by simpa using hd⟩]
        simp only [List.tail_cons, List.take_succ_cons, List.take_zero, htake, hdrop]
        rfl
  | other c =>
      have hplain : Plain c rest.head? := by
        cases hfits.1 with
        | other plain => simpa using plain
      refine ⟨c, rest, rfl, ?_⟩
      rw [scanToken_eq, region_eq_none_iff.mpr hplain]
      simp only [scanOther]
      rw [if_neg hstands.1, if_neg fun h => hstands.2 ⟨h.1, h.2.1, h.2.2.2⟩]

/-- A text has one list of tokens, and the scanner finds it. -/
theorem scans_iff : Scans previous text tokens ↔ tokens = scanTokens previous text := by
  constructor
  · rintro ⟨⟨htext, hfits⟩, hplaced⟩
    induction tokens generalizing previous text with
    | nil =>
        rw [← htext]
        exact (by rw [tokensLexemes, List.flatMap_nil, spell_nil, scanTokens])
    | cons token tokens ih =>
        obtain ⟨hstands, hplaced⟩ := hplaced
        rw [tokensLexemes, List.flatMap_cons, fitting_append, ← tokensLexemes, Option.or_none,
          spell_tokensLexemes] at hfits
        rw [tokensLexemes, List.flatMap_cons, spell_append, ← tokensLexemes, spell_tokenLexemes,
          spell_tokensLexemes] at htext
        obtain ⟨c, tail, hcons, hscan⟩ := scanToken_complete hfits.1 hstands
        rw [← htext, hcons, scanTokens]
        simp only [hscan]
        rw [← ih hplaced (spell_tokensLexemes tokens) hfits.2]
  · rintro rfl
    exact scans_scanTokens previous text

end

end QuackProtocol
