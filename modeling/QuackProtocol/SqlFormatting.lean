import QuackProtocol.SqlPlaceholders

/-! What `format_sql` returns: the tokens of the template one after the other, with the literal of its parameter
in the place of each placeholder. -/

open Decoding Lexing

namespace QuackProtocol

section
variable (prims : Primitives) (calendar : Calendar)

/-- A part of a formatted text: a token of the template, or the literal of a parameter. -/
inductive Piece where
  | copied (token : SqlToken)
  | filled (literal : List Char)

/-- The text of a part, the template's verbatim. -/
def Piece.text : Piece → List Char
  | copied token => token.text
  | filled literal => literal

def piecesText (pieces : List Piece) : List Char := pieces.flatMap Piece.text

/-- The i-th question mark is replaced by the literal of the i-th parameter, and there are no others. -/
inductive FillsPositional : List SqlParameter → List SqlToken → List Piece → Prop where
  | nil : FillsPositional [] [] []
  | hole {param : SqlParameter} {params : List SqlParameter} {literal : List Char}
      {tokens : List SqlToken} {pieces : List Piece}
      (here : sqlLiteral prims calendar param = .ok literal) (rest : FillsPositional params tokens pieces) :
      FillsPositional (param :: params) (.placeholder ['?'] :: tokens) (.filled literal :: pieces)
  | copied {params : List SqlParameter} {token : SqlToken} {tokens : List SqlToken} {pieces : List Piece}
      (here : token ≠ .placeholder ['?']) (rest : FillsPositional params tokens pieces) :
      FillsPositional params (token :: tokens) (.copied token :: pieces)

/-- Each name is replaced by the literal of its parameter. -/
inductive FillsNamed (params : List (String × SqlParameter)) : List SqlToken → List Piece → Prop where
  | nil : FillsNamed params [] []
  | hole {name : List Char} {param : SqlParameter} {literal : List Char} {tokens : List SqlToken}
      {pieces : List Piece} (bound : params.lookup (String.ofList name) = some param)
      (here : sqlLiteral prims calendar param = .ok literal) (rest : FillsNamed params tokens pieces) :
      FillsNamed params (.placeholder (':' :: name) :: tokens) (.filled literal :: pieces)
  | copied {token : SqlToken} {tokens : List SqlToken} {pieces : List Piece}
      (here : ∀ name, token ≠ .placeholder (':' :: name)) (rest : FillsNamed params tokens pieces) :
      FillsNamed params (token :: tokens) (.copied token :: pieces)

def Fills (params : Option SqlParameters) (tokens : List SqlToken) (pieces : List Piece) : Prop :=
  match params with
  | none => pieces = tokens.map .copied
  | some (.positional params) => FillsPositional prims calendar params tokens pieces
  | some (.named params) => FillsNamed prims calendar params tokens pieces

/-! ### What the scanner pushes -/

/-- The text of a part as it is pushed to the output. -/
def Piece.pushed : Piece → List Char
  | copied (.other c) => pushBytes c
  | copied token => token.text
  | filled literal => literal

def piecesPushed (pieces : List Piece) : List Char := pieces.flatMap Piece.pushed

variable {prims calendar} {tokens : List SqlToken} {output : List Char}

/-- What one token adds to the output. -/
def pushToken {σ : Type} (replaceToken : σ → List Char → Outcome QuackError (List Char × σ)) (state : σ) :
    SqlToken → Outcome QuackError (List Char × σ)
  | .region lexeme => pure (lexeme.text, state)
  | .placeholder text => replaceToken state text
  | .other c => pure (pushBytes c, state)

theorem scanSql_token {σ : Type} (replaceToken : σ → List Char → Outcome QuackError (List Char × σ))
    (state : σ) (token : SqlToken) (tokens : List SqlToken) :
    scanSql replaceToken state (token :: tokens) = (do
      let (piece, state) ← pushToken replaceToken state token
      let (output, state) ← scanSql replaceToken state tokens
      pure (piece ++ output, state)) := by
  cases token <;> rfl

theorem scanSql_cons {σ : Type} {replaceToken : σ → List Char → Outcome QuackError (List Char × σ)}
    {state : σ} {token : SqlToken} {result : List Char × σ} :
    scanSql replaceToken state (token :: tokens) = .ok result ↔ ∃ piece next rest,
      pushToken replaceToken state token = .ok (piece, next) ∧
      scanSql replaceToken next tokens = .ok rest ∧ result = (piece ++ rest.1, rest.2) := by
  rw [scanSql_token]
  constructor
  · intro h
    obtain ⟨⟨piece, next⟩, hpiece, h⟩ := Outcome.bind_eq_ok h
    obtain ⟨rest, hrest, h⟩ := Outcome.bind_eq_ok h
    cases h
    exact ⟨piece, next, rest, hpiece, hrest, rfl⟩
  · rintro ⟨piece, next, rest, hpiece, hrest, rfl⟩
    rw [hpiece, Outcome.ok_bind]
    simp only [hrest]
    rfl

section
variable {σ : Type} {replaceToken : σ → List Char → Outcome QuackError (List Char × σ)} {state next : σ}
  {token : SqlToken} {result : List Char × σ}

/-- A token that is copied leaves the state as it is. -/
theorem scanSql_copied (hpush : pushToken replaceToken state token = .ok ((Piece.copied token).pushed, state)) :
    scanSql replaceToken state (token :: tokens) = .ok result ↔ ∃ rest,
      scanSql replaceToken state tokens = .ok rest ∧
      result = ((Piece.copied token).pushed ++ rest.1, rest.2) := by
  rw [scanSql_cons, hpush]
  constructor
  · rintro ⟨piece, next, rest, hpiece, hrest, rfl⟩
    cases hpiece
    exact ⟨rest, hrest, rfl⟩
  · rintro ⟨rest, hrest, rfl⟩
    exact ⟨_, state, rest, rfl, hrest, rfl⟩

/-- A placeholder is replaced by the literal of its parameter. -/
theorem scanSql_filled {literal : Outcome QuackError (List Char)}
    (hpush : pushToken replaceToken state token = (do
      let text ← literal
      pure (text, next))) :
    scanSql replaceToken state (token :: tokens) = .ok result ↔ ∃ text rest, literal = .ok text ∧
      scanSql replaceToken next tokens = .ok rest ∧ result = (text ++ rest.1, rest.2) := by
  rw [scanSql_cons, hpush]
  constructor
  · rintro ⟨piece, state, rest, hpiece, hrest, rfl⟩
    obtain ⟨text, htext, hpiece⟩ := Outcome.bind_eq_ok hpiece
    cases hpiece
    exact ⟨piece, rest, htext, hrest, rfl⟩
  · rintro ⟨text, rest, htext, hrest, rfl⟩
    exact ⟨text, next, rest, by rw [htext]; rfl, hrest, rfl⟩

theorem pushToken_copied (h : ∀ text, token = .placeholder text → replaceToken state text = .ok (text, state)) :
    pushToken replaceToken state token = .ok ((Piece.copied token).pushed, state) := by
  cases token with
  | placeholder text => exact h text rfl
  | _ => rfl

end

theorem fillsPositional_copied {params : List SqlParameter} {token : SqlToken} {pieces : List Piece}
    (h : token ≠ .placeholder ['?']) : FillsPositional prims calendar params (token :: tokens) pieces ↔
      ∃ rest, FillsPositional prims calendar params tokens rest ∧ pieces = .copied token :: rest := by
  constructor
  · intro hpieces
    cases hpieces with
    | hole => exact absurd rfl h
    | copied _ hrest => exact ⟨_, hrest, rfl⟩
  · rintro ⟨rest, hrest, rfl⟩
    exact .copied h hrest

theorem fillsNamed_copied {params : List (String × SqlParameter)} {token : SqlToken} {pieces : List Piece}
    (h : ∀ name, token ≠ .placeholder (':' :: name)) :
    FillsNamed prims calendar params (token :: tokens) pieces ↔
      ∃ rest, FillsNamed prims calendar params tokens rest ∧ pieces = .copied token :: rest := by
  constructor
  · intro hpieces
    cases hpieces with
    | hole => exact absurd rfl (h _)
    | copied _ hrest => exact ⟨_, hrest, rfl⟩
  · rintro ⟨rest, hrest, rfl⟩
    exact .copied h hrest

theorem scanSql_positional {front back : List SqlParameter} :
    scanSql (replacePositional prims calendar (front ++ back)) front.length tokens =
        .ok (output, (front ++ back).length) ↔
      ∃ pieces, FillsPositional prims calendar back tokens pieces ∧ output = piecesPushed pieces := by
  induction tokens generalizing front back output with
  | nil =>
      show Outcome.ok ([], front.length) = .ok (output, (front ++ back).length) ↔ _
      rw [Outcome.ok.injEq, Prod.mk.injEq, List.length_append]
      constructor
      · rintro ⟨rfl, hlength⟩
        obtain rfl : back = [] := List.length_eq_zero_iff.mp (by omega)
        exact ⟨[], .nil, rfl⟩
      · rintro ⟨pieces, hpieces, rfl⟩
        cases hpieces
        exact ⟨rfl, rfl⟩
  | cons token tokens ih =>
      by_cases htoken : token = .placeholder ['?']
      · subst htoken
        cases back with
        | nil =>
            -- There is a question mark more than there are parameters.
            refine iff_of_false (fun h => ?_) ?_
            · obtain ⟨piece, next, rest, hpiece, -, -⟩ := scanSql_cons.mp h
              rw [List.append_nil, pushToken, replacePositional, if_neg (by simp),
                List.getElem?_eq_none (Nat.le_refl _)] at hpiece
              cases hpiece
            · rintro ⟨pieces, hpieces, -⟩
              cases hpieces with
              | copied here => exact absurd rfl here
        | cons param back =>
            have hpush : pushToken (replacePositional prims calendar (front ++ param :: back))
                front.length (.placeholder ['?']) = (do
                  let literal ← sqlLiteral prims calendar param
                  pure (literal, front.length + 1)) := by
              rw [pushToken, replacePositional, if_neg (by simp), List.getElem?_append_right (Nat.le_refl _),
                Nat.sub_self]
              rfl
            have hrest : ∀ output, scanSql (replacePositional prims calendar (front ++ param :: back))
                (front.length + 1) tokens = .ok (output, (front ++ param :: back).length) ↔
                ∃ pieces, FillsPositional prims calendar back tokens pieces ∧
                  output = piecesPushed pieces := by
              intro output
              have := @ih output (front ++ [param]) back
              rwa [List.append_assoc, List.length_append] at this
            rw [scanSql_filled hpush]
            constructor
            · rintro ⟨literal, ⟨rest, state⟩, hliteral, hscan, heq⟩
              cases heq
              obtain ⟨pieces, hpieces, rfl⟩ := (hrest _).mp hscan
              exact ⟨_, .hole hliteral hpieces, rfl⟩
            · rintro ⟨pieces, hpieces, rfl⟩
              cases hpieces with
              | hole here rest => exact ⟨_, (piecesPushed _, _), here, (hrest _).mpr ⟨_, rest, rfl⟩, rfl⟩
              | copied here => exact absurd rfl here
      · have hpush := @pushToken_copied _ (replacePositional prims calendar (front ++ back)) front.length token
          fun text heq => by
            have htext : text ≠ ['?'] := fun h => htoken (heq.trans (congrArg _ h))
            rw [replacePositional, if_pos htext]
            rfl
        rw [scanSql_copied hpush]
        constructor
        · rintro ⟨⟨rest, state⟩, hscan, heq⟩
          cases heq
          obtain ⟨pieces, hpieces, rfl⟩ := ih.mp hscan
          exact ⟨_, (fillsPositional_copied htoken).mpr ⟨pieces, hpieces, rfl⟩, rfl⟩
        · rintro ⟨pieces, hpieces, rfl⟩
          obtain ⟨rest, hrest, rfl⟩ := (fillsPositional_copied htoken).mp hpieces
          exact ⟨(piecesPushed rest, _), ih.mpr ⟨rest, hrest, rfl⟩, rfl⟩

theorem scanSql_named {params : List (String × SqlParameter)} :
    (∃ state, scanSql (replaceNamed prims calendar params) () tokens = .ok (output, state)) ↔
      ∃ pieces, FillsNamed prims calendar params tokens pieces ∧ output = piecesPushed pieces := by
  induction tokens generalizing output with
  | nil =>
      show (∃ state, Outcome.ok ([], ()) = .ok (output, state)) ↔ _
      constructor
      · rintro ⟨state, h⟩
        cases h
        exact ⟨[], .nil, rfl⟩
      · rintro ⟨pieces, hpieces, rfl⟩
        cases hpieces
        exact ⟨(), rfl⟩
  | cons token tokens ih =>
      by_cases htoken : ∃ name, token = .placeholder (':' :: name)
      · obtain ⟨name, rfl⟩ := htoken
        cases hbound : params.lookup (String.ofList name) with
        | none =>
            -- The name is not bound.
            refine iff_of_false ?_ ?_
            · rintro ⟨state, h⟩
              obtain ⟨piece, next, rest, hpiece, -, -⟩ := scanSql_cons.mp h
              rw [pushToken, replaceNamed] at hpiece
              simp only [hbound] at hpiece
              cases hpiece
            · rintro ⟨pieces, hpieces, -⟩
              cases hpieces with
              | hole bound => cases hbound.symm.trans bound
              | copied here => exact absurd rfl (here name)
        | some param =>
            have hpush : pushToken (replaceNamed prims calendar params) () (.placeholder (':' :: name)) = (do
                let literal ← sqlLiteral prims calendar param
                pure (literal, ())) := by
              rw [pushToken, replaceNamed]
              simp only [hbound]
            simp only [scanSql_filled hpush]
            constructor
            · rintro ⟨state, literal, ⟨rest, state'⟩, hliteral, hscan, heq⟩
              cases heq
              obtain ⟨pieces, hpieces, rfl⟩ := ih.mp ⟨_, hscan⟩
              exact ⟨_, .hole hbound hliteral hpieces, rfl⟩
            · rintro ⟨pieces, hpieces, rfl⟩
              cases hpieces with
              | hole bound here rest =>
                  cases hbound.symm.trans bound
                  obtain ⟨state, hscan⟩ := ih.mpr ⟨_, rest, rfl⟩
                  exact ⟨state, _, (_, state), here, hscan, rfl⟩
              | copied here => exact absurd rfl (here name)
      · have htext (name : List Char) : token ≠ .placeholder (':' :: name) := fun heq => htoken ⟨name, heq⟩
        have hpush := @pushToken_copied _ (replaceNamed prims calendar params) () token fun text heq => by
          rw [replaceNamed]
          · rfl
          · exact fun name hname => htext name (heq.trans (congrArg _ hname))
        simp only [scanSql_copied hpush]
        constructor
        · rintro ⟨state, ⟨rest, state'⟩, hscan, heq⟩
          cases heq
          obtain ⟨pieces, hpieces, rfl⟩ := ih.mp ⟨_, hscan⟩
          exact ⟨_, (fillsNamed_copied htext).mpr ⟨pieces, hpieces, rfl⟩, rfl⟩
        · rintro ⟨pieces, hpieces, rfl⟩
          obtain ⟨rest, hrest, rfl⟩ := (fillsNamed_copied htext).mp hpieces
          obtain ⟨state, hscan⟩ := ih.mpr ⟨_, hrest, rfl⟩
          exact ⟨state, (_, state), hscan, rfl⟩

/-- What the formatted text is, whatever the parameters are. -/
theorem formatSql_eq_ok_iff {sql out : String} {params : Option SqlParameters} (hparams : params ≠ none) :
    formatSql prims calendar sql params = .ok out ↔ ∃ pieces,
      Fills prims calendar params (scanTokens none sql.toList) pieces ∧
      out.toList = piecesPushed pieces := by
  match params with
  | none => exact absurd rfl hparams
  | some (.positional params) =>
      have hscan := fun output => @scanSql_positional prims calendar (scanTokens none sql.toList) output [] params
      simp only [List.nil_append, List.length_nil] at hscan
      constructor
      · intro h
        obtain ⟨⟨formatted, index⟩, hformatted, h⟩ := Outcome.bind_eq_ok h
        by_cases hindex : index = params.length
        · subst hindex
          have hresult : (.ok (String.ofList formatted) : Outcome QuackError String) = .ok out :=
            (if_neg (not_not.mpr rfl)).symm.trans h
          obtain ⟨pieces, hpieces, rfl⟩ := (hscan formatted).mp hformatted
          cases hresult
          exact ⟨pieces, hpieces, String.toList_ofList⟩
        · have hresult : Outcome.err _ = .ok out := (if_pos hindex).symm.trans h
          cases hresult
      · rintro ⟨pieces, hpieces, hpushed⟩
        have hformatted := (hscan (piecesPushed pieces)).mpr ⟨pieces, hpieces, rfl⟩
        rw [formatSql, formatPositionalSql, hformatted, Outcome.ok_bind]
        simp only [ne_eq, not_true, if_false]
        rw [← hpushed, String.ofList_toList]
        rfl
  | some (.named params) =>
      constructor
      · intro h
        obtain ⟨⟨formatted, state⟩, hformatted, h⟩ := Outcome.bind_eq_ok h
        obtain ⟨pieces, hpieces, rfl⟩ := scanSql_named.mp ⟨state, hformatted⟩
        cases h
        exact ⟨pieces, hpieces, String.toList_ofList⟩
      · rintro ⟨pieces, hpieces, hpushed⟩
        obtain ⟨state, hformatted⟩ := scanSql_named.mpr ⟨pieces, hpieces, rfl⟩
        rw [formatSql, formatNamedSql, hformatted, Outcome.ok_bind, ← hpushed]
        exact congrArg Outcome.ok String.ofList_toList

end

end QuackProtocol
