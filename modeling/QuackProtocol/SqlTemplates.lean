import QuackProtocol.SqlFormatting

/-! Templates. Outside the regions the scanner copies a character byte by byte, so a text outside ASCII comes
out longer than it went in; of ASCII templates the formatted text is the template with each placeholder
replaced. -/

open Decoding Lexing

namespace QuackProtocol

def IsAscii (c : Char) : Prop := c.toNat < 128

instance (c : Char) : Decidable (IsAscii c) := inferInstanceAs (Decidable (_ < _))

theorem ascii_of_all {text : List Char} (h : (text.all fun c => decide (IsAscii c)) = true) :
    ∀ c ∈ text, IsAscii c := fun c hmem => of_decide_eq_true (List.all_eq_true.mp h c hmem)

theorem isAscii_iff {c : Char} : IsAscii c ↔ c.utf8Size = 1 := by
  have hsize : c.utf8Size = 1 ↔ c.val.toNat ≤ 127 := Char.utf8Size_eq_one_iff
  have hval : c.val.toNat = c.toNat := rfl
  rw [IsAscii, hsize, hval]
  omega

theorem length_pushBytes (c : Char) : (pushBytes c).length = c.utf8Size := by
  rw [pushBytes, List.length_map, String.length_utf8EncodeChar]

theorem pushBytes_ascii {c : Char} (h : IsAscii c) : pushBytes c = [c] := by
  have hval : c.val.toNat < 256 := Nat.lt_trans h (by decide)
  rw [pushBytes, String.utf8EncodeChar_eq_singleton (isAscii_iff.mp h), List.map_singleton]
  have hbyte : c.val.toUInt8.toNat = c.toNat := by
    rw [UInt32.toNat_toUInt8]
    exact Nat.mod_eq_of_lt hval
  rw [hbyte, Char.ofNat_toNat]

section
variable {prims : Primitives} {calendar : Calendar} {tokens : List SqlToken} {pieces : List Piece}

theorem length_text_le_pushed (piece : Piece) : piece.text.length ≤ piece.pushed.length := by
  cases piece with
  | filled literal => exact Nat.le_refl _
  | copied token =>
      cases token with
      | other c =>
          have hpos := c.utf8Size_pos
          rw [Piece.pushed, length_pushBytes]
          exact hpos
      | region | placeholder => exact Nat.le_refl _

/-- The parts are pushed verbatim exactly when every character that is copied byte by byte is ASCII. -/
theorem piecesPushed_eq_iff : piecesPushed pieces = piecesText pieces ↔
    ∀ c, Piece.copied (.other c) ∈ pieces → IsAscii c := by
  constructor
  · intro h
    induction pieces with
    | nil => nofun
    | cons piece pieces ih =>
        have hlength := congrArg List.length h
        have hrest : (piecesText pieces).length ≤ (piecesPushed pieces).length := by
          clear h hlength ih
          induction pieces with
          | nil => exact Nat.le_refl _
          | cons piece pieces ih =>
              rw [piecesText, piecesPushed, List.flatMap_cons, List.flatMap_cons, List.length_append,
                List.length_append]
              exact Nat.add_le_add (length_text_le_pushed piece) ih
        rw [piecesPushed, piecesText, List.flatMap_cons, List.flatMap_cons] at h
        have hfirst := length_text_le_pushed piece
        rw [piecesPushed, piecesText, List.flatMap_cons, List.flatMap_cons, List.length_append,
          List.length_append, ← piecesPushed, ← piecesText] at hlength
        obtain ⟨hpiece, htail⟩ := List.append_inj h (by omega)
        intro c hc
        rcases List.mem_cons.mp hc with rfl | hc
        · have hone := congrArg List.length hpiece
          rw [Piece.pushed, length_pushBytes] at hone
          exact isAscii_iff.mpr hone
        · exact ih htail c hc
  · intro h
    apply List.flatMap_congr
    intro piece hmem
    cases piece with
    | filled literal => rfl
    | copied token =>
        cases token with
        | other c => exact pushBytes_ascii (h c hmem)
        | region | placeholder => rfl

theorem isAscii_of_identifier {c : Char} (h : isIdentifierPart c = true) : IsAscii c := by
  have hrange {high : Char} (hle : c.val ≤ high.val) (hhigh : high.toNat < 128) : IsAscii c :=
    Nat.lt_of_le_of_lt (UInt32.le_iff_toNat_le.mp hle) hhigh
  rw [isIdentifierPart, Char.isAlphanum, Bool.or_eq_true, Bool.or_eq_true, beq_iff_eq] at h
  obtain (hletter | hdigit) | rfl := h
  · obtain hupper | hlower := Bool.or_eq_true_iff.mp hletter
    · exact hrange (of_decide_eq_true hupper).2 (by decide)
    · exact hrange (of_decide_eq_true (Bool.and_eq_true_iff.mp hlower).2) (by decide)
  · exact hrange (of_decide_eq_true (Bool.and_eq_true_iff.mp hdigit).2) (by decide)
  · decide

/-- The characters outside the regions are those of the placeholders and those that are copied. -/
theorem other_mem_iff {previous : Option Char} (hplaced : Placed previous tokens) :
    (∀ c, Lexeme.other c ∈ tokensLexemes tokens → IsAscii c) ↔ ∀ c, SqlToken.other c ∈ tokens → IsAscii c := by
  constructor
  · intro h c hc
    exact h c (List.mem_flatMap.mpr ⟨.other c, hc, List.mem_singleton.mpr rfl⟩)
  · intro h c hc
    obtain ⟨token, htoken, hlexeme⟩ := List.mem_flatMap.mp hc
    induction tokens generalizing previous with
    | nil => cases htoken
    | cons first tokens ih =>
        rcases List.mem_cons.mp htoken with rfl | hrest
        · cases token with
          | region lexeme =>
              rw [List.mem_singleton.mp hlexeme] at hc
              exact absurd (List.mem_singleton.mp hlexeme).symm (hplaced.1 c)
          | other d =>
              cases List.mem_singleton.mp hlexeme
              exact h c (List.mem_cons_self ..)
          | placeholder text =>
              obtain ⟨d, hd, hdc⟩ := List.mem_map.mp hlexeme
              cases hdc
              rcases hplaced.1 with rfl | ⟨-, ⟨first, name, rfl, hfirst, hname⟩, -⟩
              · cases List.mem_singleton.mp hd
                decide
              · rcases List.mem_cons.mp hd with rfl | hd
                · decide
                · rcases List.mem_cons.mp hd with rfl | hd
                  · exact isAscii_of_identifier (isIdentifierPart_of_start hfirst)
                  · exact isAscii_of_identifier (hname c hd)
        · exact ih hplaced.2 (fun d hd => h d (List.mem_cons_of_mem _ hd))
            (List.mem_flatMap.mpr ⟨token, hrest, hlexeme⟩) hrest

theorem FillsPositional.copied_mem {params : List SqlParameter}
    (h : FillsPositional prims calendar params tokens pieces) (c : Char) :
    Piece.copied (.other c) ∈ pieces ↔ SqlToken.other c ∈ tokens := by
  induction h with
  | nil => simp
  | hole _ _ ih => simp [ih]
  | copied _ _ ih => simp [ih]

theorem FillsNamed.copied_mem {params : List (String × SqlParameter)}
    (h : FillsNamed prims calendar params tokens pieces) (c : Char) :
    Piece.copied (.other c) ∈ pieces ↔ SqlToken.other c ∈ tokens := by
  induction h with
  | nil => simp
  | hole _ _ _ ih => simp [ih]
  | copied _ _ ih => simp [ih]

theorem Fills.copied_mem {params : Option SqlParameters} (h : Fills prims calendar params tokens pieces)
    (c : Char) : Piece.copied (.other c) ∈ pieces ↔ SqlToken.other c ∈ tokens := by
  match params with
  | none =>
      rw [Fills] at h
      rw [h]
      simp
  | some (.positional _) => exact FillsPositional.copied_mem h c
  | some (.named _) => exact FillsNamed.copied_mem h c

theorem FillsPositional.unique {params : List SqlParameter} {pieces' : List Piece}
    (h : FillsPositional prims calendar params tokens pieces)
    (h' : FillsPositional prims calendar params tokens pieces') : pieces = pieces' := by
  induction h generalizing pieces' with
  | nil =>
      cases h'
      rfl
  | hole here _ ih =>
      cases h' with
      | hole here' rest' =>
          cases here.symm.trans here'
          rw [ih rest']
      | copied here' => exact absurd rfl here'
  | copied here _ ih =>
      cases h' with
      | hole => exact absurd rfl here
      | copied _ rest' => rw [ih rest']

theorem FillsNamed.unique {params : List (String × SqlParameter)} {pieces' : List Piece}
    (h : FillsNamed prims calendar params tokens pieces)
    (h' : FillsNamed prims calendar params tokens pieces') : pieces = pieces' := by
  induction h generalizing pieces' with
  | nil =>
      cases h'
      rfl
  | hole bound here _ ih =>
      cases h' with
      | hole bound' here' rest' =>
          cases bound.symm.trans bound'
          cases here.symm.trans here'
          rw [ih rest']
      | copied here' => exact absurd rfl (here' _)
  | copied here _ ih =>
      cases h' with
      | hole => exact absurd rfl (here _)
      | copied _ rest' => rw [ih rest']

theorem Fills.unique {params : Option SqlParameters} {pieces' : List Piece}
    (h : Fills prims calendar params tokens pieces) (h' : Fills prims calendar params tokens pieces') :
    pieces = pieces' := by
  match params with
  | none =>
      rw [Fills] at h h'
      rw [h, h']
  | some (.positional _) => exact FillsPositional.unique h h'
  | some (.named _) => exact FillsNamed.unique h h'

end

/-! ### Text that is kept -/

/-- The formatted text is the template, with a literal in the place of each placeholder. -/
def Preserves (prims : Primitives) (calendar : Calendar) (sql : String) (params : Option SqlParameters)
    (out : String) : Prop :=
  ∃ tokens pieces, Scans none sql.toList tokens ∧ Fills prims calendar params tokens pieces ∧
    out.toList = piecesText pieces

theorem piecesText_copied (tokens : List SqlToken) :
    piecesText (tokens.map .copied) = tokensText tokens := by
  rw [piecesText, List.flatMap_map]
  rfl

section
variable {prims : Primitives} {calendar : Calendar} {sql out : String}

theorem formatSql_preserves_iff {params : Option SqlParameters}
    (h : formatSql prims calendar sql params = .ok out) :
    Preserves prims calendar sql params out ↔
      params = none ∨ ∀ c, Lexeme.other c ∈ lexemes sql.toList → IsAscii c := by
  have hscans := scans_scanTokens none sql.toList
  by_cases hparams : params = none
  · subst hparams
    cases h
    refine iff_of_true ⟨_, _, hscans, rfl, ?_⟩ (.inl rfl)
    rw [piecesText_copied, ← spell_tokensLexemes]
    exact hscans.1.1.symm
  · obtain ⟨pieces, hpieces, hout⟩ := (formatSql_eq_ok_iff hparams).mp h
    rw [← lexes_iff.mp hscans.1, other_mem_iff hscans.2, or_iff_right hparams]
    simp only [← hpieces.copied_mem, ← piecesPushed_eq_iff]
    constructor
    · rintro ⟨tokens, pieces', hscans', hpieces', hout'⟩
      obtain rfl := scans_iff.mp hscans'
      obtain rfl := hpieces.unique hpieces'
      rw [← hout, ← hout']
    · intro hpushed
      exact ⟨_, pieces, hscans, hpieces, by rw [hout, hpushed]⟩

theorem formatSql_accented :
    formatSql .floatless .blank "é" (some (.positional [])) = .ok "Ã©" := by
  have hstands : Fitting [.other 'é'] none :=
    ⟨.other ⟨by decide, by decide, by decide⟩, trivial⟩
  have hplaced : Placed none [.other 'é'] := ⟨⟨by decide, by decide⟩, trivial⟩
  have hscans : Scans none "é".toList [.other 'é'] := ⟨⟨rfl, hstands⟩, hplaced⟩
  have hfills : FillsPositional .floatless .blank [] [.other 'é'] [.copied (.other 'é')] :=
    .copied (by decide) .nil
  refine (formatSql_eq_ok_iff (by simp)).mpr ⟨[.copied (.other 'é')], ?_, by decide⟩
  rw [← scans_iff.mp hscans]
  exact hfills

/-- Between quotes it is kept. -/
theorem formatSql_preserves_quoted :
    (∀ c, Lexeme.other c ∈ lexemes "'é'".toList → IsAscii c) ∧
      Preserves .floatless .blank "'é'" (some (.positional [])) "'é'" := by
  have hstands : Fitting [.quoted ['\'', 'é', '\'']] none :=
    ⟨@Stands.quoted '\'' ['é'] none (.inl rfl) (.char (by decide) .nil) (by simp), trivial⟩
  have hscans : Scans none "'é'".toList [.region (.quoted ['\'', 'é', '\''])] :=
    ⟨⟨rfl, hstands⟩, (fun _ h => by cases h), trivial⟩
  have hfills : FillsPositional .floatless .blank [] [.region (.quoted ['\'', 'é', '\''])]
      [.copied (.region (.quoted ['\'', 'é', '\'']))] := .copied (by decide) .nil
  have hformat : formatSql .floatless .blank "'é'" (some (.positional [])) = .ok "'é'" := by
    refine (formatSql_eq_ok_iff (by simp)).mpr ⟨[.copied (.region (.quoted ['\'', 'é', '\'']))], ?_, by decide⟩
    rw [← scans_iff.mp hscans]
    exact hfills
  have hascii : ∀ c, Lexeme.other c ∈ lexemes "'é'".toList → IsAscii c := by
    intro c hmem
    rw [← lexes_iff.mp hscans.1] at hmem
    simp [tokensLexemes, SqlToken.lexemes] at hmem
  exact ⟨hascii, (formatSql_preserves_iff hformat).mpr (.inr hascii)⟩

/-- With an empty list of parameters a template without placeholders is changed. -/
theorem not_formatSql_preserves_accented :
    formatSql .floatless .blank "é" (some (.positional [])) = .ok "Ã©" ∧
      ¬ Preserves .floatless .blank "é" (some (.positional [])) "Ã©" ∧
      formatSql .floatless .blank "é" none = .ok "é" := by
  refine ⟨formatSql_accented, ?_, rfl⟩
  rintro ⟨tokens, pieces, ⟨⟨htext, -⟩, -⟩, hpieces, hout⟩
  rw [spell_tokensLexemes] at htext
  have hcopied : ∀ tokens pieces, FillsPositional .floatless .blank [] tokens pieces →
      piecesText pieces = tokensText tokens := by
    intro tokens pieces h
    generalize hparams : ([] : List SqlParameter) = params at h
    induction h with
    | nil => rfl
    | hole => cases hparams
    | copied _ _ ih =>
        rw [piecesText, List.flatMap_cons, ← piecesText, ih hparams]
        rfl
  rw [hcopied tokens pieces hpieces, htext] at hout
  revert hout
  decide

end

section
variable {prims : Primitives} {calendar : Calendar} {tokens : List SqlToken}

theorem exists_fillsPositional_iff {params : List SqlParameter} :
    (∃ pieces, FillsPositional prims calendar params tokens pieces) ↔
      tokens.count (.placeholder ['?']) = params.length ∧
        ∀ param ∈ params, ∃ literal, sqlLiteral prims calendar param = .ok literal := by
  constructor
  · rintro ⟨pieces, h⟩
    induction h with
    | nil => exact ⟨rfl, nofun⟩
    | hole here _ ih =>
        exact ⟨by rw [List.count_cons_self, ih.1, List.length_cons],
          List.forall_mem_cons.mpr ⟨⟨_, here⟩, ih.2⟩⟩
    | copied here _ ih => exact ⟨by rw [List.count_cons_of_ne here, ih.1], ih.2⟩
  · rintro ⟨hcount, hliterals⟩
    induction tokens generalizing params with
    | nil =>
        obtain rfl := List.length_eq_zero_iff.mp hcount.symm
        exact ⟨[], .nil⟩
    | cons token tokens ih =>
        by_cases htoken : token = .placeholder ['?']
        · subst htoken
          rw [List.count_cons_self] at hcount
          cases params with
          | nil => cases hcount
          | cons param params =>
              obtain ⟨⟨literal, hliteral⟩, hliterals⟩ := List.forall_mem_cons.mp hliterals
              obtain ⟨pieces, hpieces⟩ := ih (Nat.succ_inj.mp hcount) hliterals
              exact ⟨_, .hole hliteral hpieces⟩
        · rw [List.count_cons_of_ne htoken] at hcount
          obtain ⟨pieces, hpieces⟩ := ih hcount hliterals
          exact ⟨_, .copied htoken hpieces⟩

theorem exists_fillsNamed_iff {params : List (String × SqlParameter)} :
    (∃ pieces, FillsNamed prims calendar params tokens pieces) ↔
      ∀ name, .placeholder (':' :: name) ∈ tokens → ∃ param literal,
        params.lookup (String.ofList name) = some param ∧
          sqlLiteral prims calendar param = .ok literal := by
  constructor
  · rintro ⟨pieces, h⟩
    induction h with
    | nil => nofun
    | hole bound here _ ih =>
        intro name hname
        rcases List.mem_cons.mp hname with heq | hname
        · cases heq
          exact ⟨_, _, bound, here⟩
        · exact ih name hname
    | copied here _ ih =>
        intro name hname
        rcases List.mem_cons.mp hname with heq | hname
        · exact absurd heq.symm (here name)
        · exact ih name hname
  · intro h
    induction tokens with
    | nil => exact ⟨[], .nil⟩
    | cons token tokens ih =>
        obtain ⟨pieces, hpieces⟩ := ih fun name hname => h name (List.mem_cons_of_mem _ hname)
        by_cases htoken : ∃ name, token = .placeholder (':' :: name)
        · obtain ⟨name, rfl⟩ := htoken
          obtain ⟨param, literal, hbound, hliteral⟩ := h name (List.mem_cons_self ..)
          exact ⟨_, .hole hbound hliteral hpieces⟩
        · exact ⟨_, .copied (fun name heq => htoken ⟨name, heq⟩) hpieces⟩

theorem count_others_name {c : Char} {name : List Char} (hc : isIdentifierStart c = true)
    (hname : ∀ d ∈ name, isIdentifierPart d = true) :
    (others (':' :: c :: name)).count (.other '?') = 0 := by
  apply List.count_eq_zero.mpr
  intro hmem
  obtain ⟨d, hd, hquestion⟩ := List.mem_map.mp hmem
  cases hquestion
  rcases List.mem_cons.mp hd with hd | hd
  · cases hd
  · rcases List.mem_cons.mp hd with rfl | hd
    · cases hc
    · cases hname _ hd

/-- The question marks outside the regions are the positional placeholders. -/
theorem count_question {previous : Option Char} (hplaced : Placed previous tokens) :
    (tokensLexemes tokens).count (.other '?') = tokens.count (.placeholder ['?']) := by
  induction tokens generalizing previous with
  | nil => rfl
  | cons token tokens ih =>
      obtain ⟨hstands, hplaced⟩ := hplaced
      rw [tokensLexemes, List.flatMap_cons, List.count_append, ← tokensLexemes, ih hplaced]
      cases token with
      | region lexeme =>
          rw [List.count_cons_of_ne (by simp), SqlToken.lexemes,
            List.count_cons_of_ne (hstands '?'), List.count_nil, Nat.zero_add]
      | other c =>
          have hc : Lexeme.other c ≠ .other '?' := fun heq => hstands.1 (Lexeme.other.inj heq)
          rw [List.count_cons_of_ne (by simp), SqlToken.lexemes, List.count_cons_of_ne hc, List.count_nil,
            Nat.zero_add]
      | placeholder text =>
          rcases hstands with rfl | ⟨-, ⟨c, name, rfl, hc, hname⟩, -⟩
          · rw [List.count_cons_self, Nat.add_comm]
            rfl
          · rw [List.count_cons_of_ne (by simp), SqlToken.lexemes, count_others_name hc hname, Nat.zero_add]

/-- When a template with the given tokens is formatted, and what it becomes. -/
structure Accounts (prims : Primitives) (calendar : Calendar) (sql : String) (tokens : List SqlToken) :
    Prop where
  positional : ∀ params, (∃ out, formatSql prims calendar sql (some (.positional params)) = .ok out) ↔
    (lexemes sql.toList).count (.other '?') = params.length ∧
      ∀ param ∈ params, ∃ literal, sqlLiteral prims calendar param = .ok literal
  positionalText : ∀ params out, formatSql prims calendar sql (some (.positional params)) = .ok out →
    ∃ pieces, FillsPositional prims calendar params tokens pieces ∧ out.toList = piecesText pieces
  named : ∀ params, (∃ out, formatSql prims calendar sql (some (.named params)) = .ok out) ↔
    ∀ name, .placeholder (':' :: name) ∈ tokens → ∃ param literal,
      params.lookup (String.ofList name) = some param ∧ sqlLiteral prims calendar param = .ok literal
  namedText : ∀ params out, formatSql prims calendar sql (some (.named params)) = .ok out →
    ∃ pieces, FillsNamed prims calendar params tokens pieces ∧ out.toList = piecesText pieces

theorem formatSql_ok_iff {sql : String} {params : Option SqlParameters} (hparams : params ≠ none) :
    (∃ out, formatSql prims calendar sql params = .ok out) ↔
      ∃ pieces, Fills prims calendar params (scanTokens none sql.toList) pieces := by
  constructor
  · rintro ⟨out, h⟩
    obtain ⟨pieces, hpieces, -⟩ := (formatSql_eq_ok_iff hparams).mp h
    exact ⟨pieces, hpieces⟩
  · rintro ⟨pieces, hpieces⟩
    exact ⟨String.ofList (piecesPushed pieces),
      (formatSql_eq_ok_iff hparams).mpr ⟨pieces, hpieces, String.toList_ofList⟩⟩

/-- Of an ASCII template the parts are pushed verbatim. -/
theorem formatSql_text {sql out : String} {params : Option SqlParameters} (hparams : params ≠ none)
    (hascii : ∀ c ∈ sql.toList, IsAscii c) (h : formatSql prims calendar sql params = .ok out) :
    ∃ pieces, Fills prims calendar params (scanTokens none sql.toList) pieces ∧
      out.toList = piecesText pieces := by
  obtain ⟨pieces, hpieces, hout⟩ := (formatSql_eq_ok_iff hparams).mp h
  refine ⟨pieces, hpieces, ?_⟩
  rw [hout]
  refine piecesPushed_eq_iff.mpr fun c hc => hascii c ?_
  have hmem := hpieces.copied_mem c |>.mp hc
  rw [← (scans_scanTokens none sql.toList).1.1, spell_tokensLexemes]
  exact List.mem_flatMap.mpr ⟨.other c, hmem, List.mem_singleton.mpr rfl⟩

theorem formatSql_accounts {sql : String} (hascii : ∀ c ∈ sql.toList, IsAscii c)
    (hscans : Scans none sql.toList tokens) : Accounts prims calendar sql tokens := by
  obtain rfl := scans_iff.mp hscans
  refine ⟨fun params => ?_, fun params out h => ?_, fun params => ?_, fun params out h => ?_⟩
  · rw [formatSql_ok_iff (Option.some_ne_none _), ← lexes_iff.mp hscans.1, count_question hscans.2]
    exact exists_fillsPositional_iff
  · exact formatSql_text (Option.some_ne_none _) hascii h
  · rw [formatSql_ok_iff (Option.some_ne_none _)]
    exact exists_fillsNamed_iff
  · exact formatSql_text (Option.some_ne_none _) hascii h

theorem formatSql_accounts_select :
    Accounts .floatless .blank "SELECT ?, ':a', :a" (scanTokens none "SELECT ?, ':a', :a".toList) :=
  formatSql_accounts (ascii_of_all (by decide)) (scans_scanTokens none _)

end

end QuackProtocol
