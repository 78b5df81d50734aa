import QuackProtocol.SqlLiterals

/-! Literals beside the text of the template. A literal does not close the quotes around it, but the scanner puts
nothing between it and its neighbours: two minus signs that come together begin a comment, and two
quotes that come together join the texts they end and begin. -/

open Decoding Lexing

namespace QuackProtocol

def Piece.lexemes : Piece → List Lexeme
  | copied token => token.lexemes
  | filled literal => Lexing.lexemes literal

def Piece.IsFilled : Piece → Prop
  | copied _ => False
  | filled _ => True

/-- A literal and its neighbour meet in two minus signs or in two quotes. -/
def Touch (p q : Piece) : Prop :=
  (p.IsFilled ∨ q.IsFilled) ∧ ∃ c, (c = '-' ∨ c = '\'') ∧ p.text.getLast? = some c ∧ q.text.head? = some c

/-- No literal of the formatted template touches its neighbours. -/
def Separated (prims : Primitives) (calendar : Calendar) (sql : String) (params : SqlParameters) : Prop :=
  ∃ tokens pieces, Scans none sql.toList tokens ∧ Fills prims calendar (some params) tokens pieces ∧
    pieces.IsChain fun p q => ¬ Touch p q

/-- The lexemes of the formatted text are those of the template, with those of a literal in the place of each
placeholder. -/
def Contained (prims : Primitives) (calendar : Calendar) (sql : String) (params : SqlParameters)
    (out : String) : Prop :=
  ∃ tokens pieces, Scans none sql.toList tokens ∧ Fills prims calendar (some params) tokens pieces ∧
    lexemes out.toList = pieces.flatMap Piece.lexemes

section
variable {prims : Primitives} {calendar : Calendar} {tokens : List SqlToken} {pieces : List Piece}

theorem spell_pieceLexemes (piece : Piece) : spell piece.lexemes = piece.text := by
  cases piece with
  | copied token => exact spell_tokenLexemes token
  | filled literal => exact spell_lexemes literal

theorem spell_piecesLexemes (pieces : List Piece) : spell (pieces.flatMap Piece.lexemes) = piecesText pieces := by
  induction pieces with
  | nil => rfl
  | cons piece pieces ih =>
      rw [List.flatMap_cons, spell_append, ih, spell_pieceLexemes]
      rfl

/-- No lexeme ends in a minus sign or a quote that comes again right after it. -/
theorem stands_not_touching {lexeme : Lexeme} {c : Char} (h : Stands lexeme (some c)) (hc : c = '-' ∨ c = '\'') :
    lexeme.text.getLast? ≠ some c := by
  cases h with
  | @quoted quote body _ isQuote inside closed =>
      rw [Lexeme.text, ← List.cons_append, List.getLast?_concat]
      exact fun heq => closed heq.symm
  | line inside closed =>
      rcases closed with closed | closed
      · cases closed
      · cases closed
        rcases hc with hc | hc <;> cases hc
  | @block body _ inside =>
      have hlast : (Lexeme.block ('/' :: '*' :: (body ++ ['*', '/']))).text.getLast? = some '/' := by
        have hsplit : '/' :: '*' :: (body ++ ['*', '/']) = ('/' :: '*' :: (body ++ ['*'])) ++ ['/'] := by simp
        rw [Lexeme.text, hsplit, List.getLast?_concat]
      rw [hlast]
      rcases hc with rfl | rfl <;> decide
  | other plain =>
      intro heq
      cases heq
      rcases hc with rfl | rfl
      · exact plain.line ⟨rfl, rfl⟩
      · exact plain.quote.1 rfl

theorem fitting_not_touching {found : List Lexeme} {c : Char} (h : Fitting found (some c))
    (hc : c = '-' ∨ c = '\'') : (spell found).getLast? ≠ some c := by
  rcases List.eq_nil_or_concat found with rfl | ⟨front, lexeme, rfl⟩
  · simp
  · rw [List.concat_eq_append] at h ⊢
    obtain ⟨-, hstands, -⟩ := fitting_append.mp h
    have hne := hstands.text_ne_nil
    rw [spell_append, spell_cons, spell_nil, List.append_nil, List.getLast?_append_of_ne_nil _ hne]
    exact stands_not_touching hstands hc

theorem separated_of_fitting (h : Fitting (pieces.flatMap Piece.lexemes) none) :
    pieces.IsChain fun p q => ¬ Touch p q := by
  induction pieces with
  | nil => exact .nil
  | cons p pieces ih =>
      rw [List.flatMap_cons, fitting_append, spell_piecesLexemes] at h
      cases pieces with
      | nil => exact .singleton _
      | cons q pieces =>
          refine .cons_cons ?_ (ih h.2)
          rintro ⟨-, c, hc, hlast, hhead⟩
          have hnext : (piecesText (q :: pieces)).head?.or none = some c := by
            rw [Option.or_none, piecesText, List.flatMap_cons, List.head?_append, hhead, Option.some_or]
          rw [hnext] at h
          apply fitting_not_touching h.1 hc
          rw [spell_pieceLexemes, hlast]

/-- A token and the part that comes of it. -/
inductive Substitutes : SqlToken → Piece → Prop where
  | copied (token : SqlToken) : Substitutes token (.copied token)
  | filled {text literal : List Char} {mark : Char} (begins : text.head? = some mark)
      (isMark : mark = '?' ∨ mark = ':') (solid : Solid literal) :
      Substitutes (.placeholder text) (.filled literal)

theorem Fills.substitutes (hnumbers : PrintsNumbers prims) (hcalendar : PrintsUnquoted calendar)
    {params : SqlParameters} (h : Fills prims calendar (some params) tokens pieces) :
    List.Forall₂ Substitutes tokens pieces := by
  cases params with
  | positional params =>
      change FillsPositional prims calendar params tokens pieces at h
      induction h with
      | nil => exact .nil
      | hole here _ ih => exact .cons (.filled rfl (.inl rfl) (solid_sqlLiteral hnumbers hcalendar here)) ih
      | copied _ _ ih => exact .cons (.copied _) ih
  | named params =>
      change FillsNamed prims calendar params tokens pieces at h
      induction h with
      | nil => exact .nil
      | hole _ here _ ih => exact .cons (.filled rfl (.inr rfl) (solid_sqlLiteral hnumbers hcalendar here)) ih
      | copied _ _ ih => exact .cons (.copied _) ih

/-- A token can stand before a literal where it stood before the literal's placeholder. -/
theorem fitting_swap {token : SqlToken} {previous : Option Char} {mark c : Char}
    (hstands : TokenStands previous token (some mark))
    (h : Fitting token.lexemes (some mark)) (hmark : mark = '?' ∨ mark = ':') (hquote : c ≠ '"') (hstar : c ≠ '*')
    (hfar : ∀ d, d = '-' ∨ d = '\'' → token.text.getLast? = some d → c ≠ d) :
    Fitting token.lexemes (some c) := by
  cases token with
  | placeholder text =>
      refine fitting_others (fun d hd => ?_) _
      rcases hstands with rfl | ⟨-, ⟨first, name, rfl, hfirst, hname⟩, -⟩
      · cases List.mem_singleton.mp hd
        simp [Inert]
      · rcases List.mem_cons.mp hd with rfl | hd
        · simp [Inert]
        · rcases List.mem_cons.mp hd with rfl | hd
          · exact inert_identifier (isIdentifierPart_of_start hfirst)
          · exact inert_identifier (hname d hd)
  | other d =>
      cases h.1 with
      | other plain =>
          refine ⟨.other ⟨plain.quote, fun hline => ?_, fun hblock => ?_⟩, trivial⟩
          · cases hline.2
            exact hfar '-' (.inl rfl) (by rw [hline.1]; rfl) rfl
          · cases hblock.2
            exact hstar rfl
  | region lexeme =>
      have hlexeme : Stands lexeme (some mark) := h.1
      refine ⟨?_, trivial⟩
      show Stands lexeme (some c)
      cases hlexeme with
      | @quoted quote body _ isQuote inside closed =>
          refine .quoted isQuote inside fun heq => ?_
          cases heq
          rcases isQuote with rfl | rfl
          · refine hfar '\'' (.inr rfl) ?_ rfl
            rw [SqlToken.text, Lexeme.text, ← List.cons_append, List.getLast?_concat]
          · exact hquote rfl
      | line inside closed =>
          rcases closed with closed | closed
          · cases closed
          · cases closed
            rcases hmark with hmark | hmark <;> cases hmark
      | block inside => exact .block inside
      | other plain => exact absurd rfl (hstands _)

theorem text_ne_nil_of_placed {token : SqlToken} {previous : Option Char}
    (hfits : Fitting (tokensLexemes (token :: tokens)) none) (hplaced : Placed previous (token :: tokens)) :
    token.text ≠ [] := by
  cases token with
  | region lexeme => exact hfits.1.text_ne_nil
  | placeholder text =>
      rcases hplaced.1 with rfl | ⟨-, ⟨c, name, rfl, -⟩, -⟩
      · exact List.cons_ne_nil _ _
      · exact List.cons_ne_nil _ _
  | other c => exact List.cons_ne_nil _ _

theorem fitting_of_separated {previous : Option Char} (hfits : Fitting (tokensLexemes tokens) none)
    (hplaced : Placed previous tokens) (h : List.Forall₂ Substitutes tokens pieces)
    (hchain : pieces.IsChain fun p q => ¬ Touch p q) : Fitting (pieces.flatMap Piece.lexemes) none := by
  induction h generalizing previous with
  | nil => trivial
  | @cons token piece tokens pieces hfirst hrest ih =>
      rw [tokensLexemes, List.flatMap_cons, fitting_append, ← tokensLexemes, spell_tokensLexemes,
        Option.or_none] at hfits
      rw [List.flatMap_cons, fitting_append, spell_piecesLexemes, Option.or_none]
      refine ⟨?_, ih hfits.2 hplaced.2 hchain.tail⟩
      cases hfirst with
      | copied =>
          cases hrest with
          | nil => exact hfits.1
          | @cons next q tokens pieces hnext _ =>
              obtain ⟨hhere, hbehind⟩ := hfits
              have hne := text_ne_nil_of_placed hbehind hplaced.2
              have hhead : (tokensText (next :: tokens)).head? = next.text.head? := by
                rw [tokensText, List.flatMap_cons, List.head?_append_of_ne_nil _ hne]
              cases hnext with
              | copied =>
                  have hsame : (piecesText (.copied next :: pieces)).head? = next.text.head? :=
                    List.head?_append_of_ne_nil _ hne
                  rw [hsame, ← hhead]
                  exact hhere
              | @filled text literal mark begins isMark solid =>
                  obtain ⟨c, hfirst, hquote, hstar⟩ := solid.first
                  have hnext : (piecesText (.filled literal :: pieces)).head? = some c := by
                    rw [piecesText, List.flatMap_cons, List.head?_append]
                    show literal.head?.or _ = some c
                    rw [hfirst, Option.some_or]
                  have hmark : (tokensText (.placeholder text :: tokens)).head? = some mark :=
                    hhead.trans begins
                  have hstands := hplaced.1
                  rw [hmark] at hhere hstands
                  rw [hnext]
                  apply fitting_swap hstands hhere isMark hquote hstar
                  intro d hd hlast heq
                  subst heq
                  exact (List.isChain_cons_cons.mp hchain).1 ⟨.inr trivial, c, hd, hlast, hfirst⟩
      | @filled text literal mark begins isMark solid =>
          obtain ⟨found, hspell, hfound⟩ := solid.lexed
          have hlexemes : lexemes literal = found := by
            rw [← hspell]
            exact lexemes_spell (hfound none (by simp))
          show Fitting (lexemes literal) _
          rw [hlexemes]
          apply hfound _
          intro hlast hhead
          cases hrest with
          | nil => cases hhead
          | @cons next q tokens pieces hnext _ =>
              have hne : q.text ≠ [] := by
                cases hnext with
                | copied => exact text_ne_nil_of_placed hfits.2 hplaced.2
                | filled _ _ solid =>
                    obtain ⟨c, hfirst, -, -⟩ := solid.first
                    rintro (rfl : _ = [])
                    cases hfirst
              rw [piecesText, List.flatMap_cons, List.head?_append_of_ne_nil _ hne] at hhead
              exact (List.isChain_cons_cons.mp hchain).1 ⟨.inl trivial, '\'', .inr rfl, hlast, hhead⟩

/-! ### Formatted templates -/

/-- The literals keep to their places exactly when none of them touches its neighbours. -/
theorem formatSql_contained_iff {sql out : String} {params : SqlParameters} (hnumbers : PrintsNumbers prims)
    (hcalendar : PrintsUnquoted calendar) (hascii : ∀ c ∈ sql.toList, IsAscii c)
    (h : formatSql prims calendar sql (some params) = .ok out) :
    Contained prims calendar sql params out ↔ Separated prims calendar sql params := by
  obtain ⟨pieces, hpieces, hout⟩ := formatSql_text (Option.some_ne_none _) hascii h
  have hscans := scans_scanTokens none sql.toList
  constructor
  · rintro ⟨tokens, pieces, hscans, hpieces, hlexemes⟩
    refine ⟨tokens, pieces, hscans, hpieces, separated_of_fitting ?_⟩
    rw [← hlexemes]
    exact fitting_lexemes _
  · rintro ⟨tokens, pieces', hscans', hpieces', hchain⟩
    obtain rfl := scans_iff.mp hscans'
    obtain rfl := hpieces.unique hpieces'
    have hfits := fitting_of_separated hscans.1.2 hscans.2 (hpieces.substitutes hnumbers hcalendar) hchain
    refine ⟨_, pieces, hscans, hpieces, ?_⟩
    rw [hout, ← spell_piecesLexemes, lexemes_spell hfits]

end

/-- Primitives that will do where every float is zero. -/
def Primitives.zeros : Primitives :=
  { Primitives.floatless with displayF32 := fun _ => "0", displayF64 := fun _ => "0" }

theorem Primitives.zeros_prints : PrintsNumbers .zeros := by
  have hzero : NumberText "0".toList :=
    ⟨[], ['0'], rfl, .inl rfl, by simp, List.forall_mem_singleton.mpr (.inl rfl)⟩
  exact ⟨fun _ _ => hzero, fun _ _ => hzero⟩

theorem Calendar.blank_prints : PrintsUnquoted .blank := ⟨by simp [blank], by simp [blank]⟩

/-- A subtraction of minus three. -/
def subtraction : List SqlToken := [.other '-', .placeholder ['?'], .other '+', .other '1']

def subtractionPieces : List Piece :=
  [.copied (.other '-'), .filled ['-', '3'], .copied (.other '+'), .copied (.other '1')]

theorem subtraction_scans : Scans none "-?+1".toList subtraction := by
  have hfits : Fitting (tokensLexemes subtraction) none :=
    ⟨.other ⟨by decide, by decide, by decide⟩, .other ⟨by decide, by decide, by decide⟩,
      .other ⟨by decide, by decide, by decide⟩, .other ⟨by decide, by decide, by decide⟩, trivial⟩
  exact ⟨⟨rfl, hfits⟩, ⟨by decide, by decide⟩, .inl rfl, ⟨by decide, by decide⟩, ⟨by decide, by decide⟩,
    trivial⟩

theorem subtraction_fills :
    FillsPositional .zeros .blank [.value (.int (-3))] subtraction subtractionPieces :=
  .copied (by decide) (.hole rfl (.copied (by decide) (.copied (by decide) .nil)))

theorem formatSql_subtraction :
    formatSql .zeros .blank "-?+1" (some (.positional [.value (.int (-3))])) = .ok "--3+1" := by
  refine (formatSql_eq_ok_iff (by simp)).mpr ⟨subtractionPieces, ?_, by decide⟩
  rw [← scans_iff.mp subtraction_scans]
  exact subtraction_fills

/-- The literal three does not touch the minus sign, and is kept to its place. -/
theorem formatSql_contained_subtraction :
    Separated .zeros .blank "-?+1" (.positional [.value (.int 3)]) ∧
      Contained .zeros .blank "-?+1" (.positional [.value (.int 3)]) "-3+1" := by
  have hfills : FillsPositional .zeros .blank [.value (.int 3)] subtraction
      [.copied (.other '-'), .filled ['3'], .copied (.other '+'), .copied (.other '1')] :=
    .copied (by decide) (.hole rfl (.copied (by decide) (.copied (by decide) .nil)))
  have hformat : formatSql .zeros .blank "-?+1" (some (.positional [.value (.int 3)])) = .ok "-3+1" := by
    refine (formatSql_eq_ok_iff (by simp)).mpr
      ⟨[.copied (.other '-'), .filled ['3'], .copied (.other '+'), .copied (.other '1')], ?_, by decide⟩
    rw [← scans_iff.mp subtraction_scans]
    exact hfills
  have hseparated : Separated .zeros .blank "-?+1" (.positional [.value (.int 3)]) := by
    refine ⟨_, _, subtraction_scans, hfills, ?_⟩
    simp [Touch, Piece.text, SqlToken.text]
  exact ⟨hseparated, (formatSql_contained_iff Primitives.zeros_prints Calendar.blank_prints
    (ascii_of_all (by decide)) hformat).mpr hseparated⟩

/-- The minus sign of the template and that of the literal begin a comment that covers the rest. -/
theorem not_contained_subtraction :
    formatSql .zeros .blank "-?+1" (some (.positional [.value (.int (-3))])) = .ok "--3+1" ∧
      ¬ Contained .zeros .blank "-?+1" (.positional [.value (.int (-3))]) "--3+1" ∧
      lexemes "--3+1".toList = [.line "--3+1".toList] := by
  refine ⟨formatSql_subtraction, ?_, ?_⟩
  · rintro ⟨tokens, pieces, hscans, hpieces, hlexemes⟩
    obtain rfl := (scans_iff.mp hscans).trans (scans_iff.mp subtraction_scans).symm
    have hpieces : FillsPositional .zeros .blank [.value (.int (-3))] subtraction pieces := hpieces
    obtain rfl := hpieces.unique subtraction_fills
    have hfits : Fitting (subtractionPieces.flatMap Piece.lexemes) none := by
      rw [← hlexemes]
      exact fitting_lexemes _
    have hchain := separated_of_fitting hfits
    exact (List.isChain_cons_cons.mp hchain).1 ⟨.inr trivial, '-', .inl rfl, rfl, rfl⟩
  · have hline : Stands (.line ['-', '-', '3', '+', '1']) none := .line (by decide) (.inl rfl)
    have hlexes : Lexes "--3+1".toList [.line "--3+1".toList] := ⟨rfl, hline, trivial⟩
    exact (lexes_iff.mp hlexes).symm

end QuackProtocol
