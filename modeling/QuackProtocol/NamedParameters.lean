import QuackProtocol.SqlJunctions
import QuackProtocol.SqlTemplates

/-! Named parameters as positional ones. A name that is replaced by a question mark changes what stands beside
it, but never what is a token and what is not; so the rewritten template is filled as the one with names. -/

open Decoding Lexing

namespace QuackProtocol

/-- The name of a named placeholder. -/
def SqlToken.name? : SqlToken → Option (List Char)
  | placeholder (':' :: name) => some name
  | _ => none

/-- The token with a question mark in the place of a name. -/
def SqlToken.positional (token : SqlToken) : SqlToken :=
  if token.name?.isSome then .placeholder ['?'] else token

/-- The names of a template, in order. -/
def placeholderNames (sql : String) : List (List Char) := (scanTokens none sql.toList).filterMap SqlToken.name?

/-- The template with a question mark in the place of each name. -/
def positionalTemplate (sql : String) : String :=
  String.ofList (tokensText ((scanTokens none sql.toList).map SqlToken.positional))

/-- A name and the parameter that it is looked up as. -/
def Bound (params : List (String × SqlParameter)) (name : List Char) (param : SqlParameter) : Prop :=
  params.lookup (String.ofList name) = some param

section
variable {token : SqlToken} {tokens : List SqlToken} {name : List Char} {previous before next : Option Char}

theorem name?_eq_some (h : token.name? = some name) : token = .placeholder (':' :: name) := by
  unfold SqlToken.name? at h
  split at h
  · cases h
    rfl
  · cases h

theorem name?_eq_none (h : token.name? = none) (name : List Char) : token ≠ .placeholder (':' :: name) := by
  rintro rfl
  cases h

theorem positional_name (name : List Char) :
    (SqlToken.placeholder (':' :: name)).positional = .placeholder ['?'] := rfl

theorem positional_other (h : token.name? = none) : token.positional = token := by
  rw [SqlToken.positional, h]
  rfl

/-- A name that stands in its place does not end in a colon. -/
theorem getLast?_name (h : NameStands previous (':' :: name) next) :
    (':' :: name).getLast? ≠ some ':' := by
  obtain ⟨-, ⟨c, tail, heq, hstart, hname⟩, -⟩ := h
  obtain ⟨-, rfl⟩ := List.cons.inj heq
  have hpart : ∀ d ∈ c :: tail, isIdentifierPart d = true :=
    List.forall_mem_cons.mpr ⟨isIdentifierPart_of_start hstart, hname⟩
  rw [List.getLast?_cons_cons]
  exact fun hlast => absurd (hpart ':' (List.mem_of_getLast? hlast)) (by decide)

/-- The rewritten tokens begin with the same character, or with a question mark for a colon. -/
theorem head?_positional (tokens : List SqlToken) :
    (tokensText (tokens.map SqlToken.positional)).head? = (tokensText tokens).head? ∨
      (tokensText (tokens.map SqlToken.positional)).head? = some '?' ∧ (tokensText tokens).head? = some ':' := by
  induction tokens with
  | nil => exact .inl rfl
  | cons token tokens ih =>
      rw [List.map_cons, tokensText, tokensText, List.flatMap_cons, List.flatMap_cons, ← tokensText,
        ← tokensText]
      cases hname : token.name? with
      | some name =>
          rw [name?_eq_some hname]
          exact .inr ⟨rfl, rfl⟩
      | none =>
          rw [positional_other hname, List.head?_append, List.head?_append]
          cases token.text.head? with
          | some c => exact .inl rfl
          | none => exact ih

/-- Where the character behind a token becomes a question mark, the token stays where it is. -/
theorem fitting_question (hstands : TokenStands previous token (some ':'))
    (h : Fitting token.lexemes (some ':')) : Fitting token.lexemes (some '?') := by
  apply fitting_swap hstands h (.inr rfl) (by decide) (by decide)
  rintro d (rfl | rfl) - <;> decide

theorem tokenStands_question (h : TokenStands previous token (some ':')) (hname : token.name? = none) :
    TokenStands before token (some '?') := by
  cases token with
  | region lexeme => exact h
  | placeholder text =>
      rcases h with htext | ⟨-, ⟨c, name, rfl, -⟩, -⟩
      · exact .inl htext
      · cases hname
  | other c => exact ⟨h.1, fun hother => by cases hother.2.2⟩

theorem tokenStands_before (h : TokenStands previous token next)
    (hbefore : before = some ':' ↔ previous = some ':') : TokenStands before token next := by
  cases token with
  | region lexeme => exact h
  | placeholder text =>
      rcases h with htext | ⟨hsingle, hidentifier, hwhole⟩
      · exact .inl htext
      · exact .inr ⟨fun heq => hsingle (hbefore.mp heq), hidentifier, hwhole⟩
  | other c =>
      exact ⟨h.1, fun hother => h.2 ⟨hother.1, fun heq => hother.2.1 (hbefore.mpr heq), hother.2.2⟩⟩

/-- The rewritten tokens are in their places. -/
theorem positional_placed (hfits : Fitting (tokensLexemes tokens) none) (hplaced : Placed previous tokens)
    (hbefore : before = some ':' ↔ previous = some ':') :
    Fitting (tokensLexemes (tokens.map SqlToken.positional)) none ∧
      Placed before (tokens.map SqlToken.positional) := by
  induction tokens generalizing previous before with
  | nil => exact ⟨trivial, trivial⟩
  | cons token tokens ih =>
      obtain ⟨hstands, hplaced⟩ := hplaced
      rw [tokensLexemes, List.flatMap_cons, fitting_append, ← tokensLexemes, Option.or_none,
        spell_tokensLexemes] at hfits
      rw [List.map_cons, tokensLexemes, List.flatMap_cons, fitting_append, ← tokensLexemes, Option.or_none,
        spell_tokensLexemes]
      cases hname : token.name? with
      | some name =>
          obtain rfl := name?_eq_some hname
          have hlast : (['?'] : List Char).getLast? = some ':' ↔ (':' :: name).getLast? = some ':' := by
            rcases hstands with htext | hstands
            · cases htext
            · exact iff_of_false (by decide) (getLast?_name hstands)
          obtain ⟨hrest, hplaced⟩ := ih hfits.2 hplaced hlast
          rw [positional_name]
          refine ⟨⟨fitting_others (List.forall_mem_singleton.mpr ?_) _, hrest⟩, .inl rfl, hplaced⟩
          simp [Inert]
      | none =>
          obtain ⟨hrest, hplaced⟩ := ih hfits.2 hplaced Iff.rfl
          rw [positional_other hname]
          rcases head?_positional tokens with hhead | ⟨hhead, hcolon⟩
          · rw [hhead]
            refine ⟨⟨hfits.1, hrest⟩, ?_, hplaced⟩
            rw [hhead]
            exact tokenStands_before hstands hbefore
          · rw [hcolon] at hstands hfits
            refine ⟨⟨?_, hrest⟩, ?_, hplaced⟩
            · rw [hhead]
              exact fitting_question hstands hfits.1
            · rw [hhead]
              exact tokenStands_question hstands hname

/-- The scanner finds the rewritten tokens in the rewritten template. -/
theorem scanTokens_positional (sql : String) :
    scanTokens none (positionalTemplate sql).toList =
      (scanTokens none sql.toList).map SqlToken.positional := by
  obtain ⟨⟨-, hfits⟩, hplaced⟩ := scans_scanTokens none sql.toList
  obtain ⟨hfits, hplaced⟩ := positional_placed hfits hplaced Iff.rfl
  refine (scans_iff.mp ⟨⟨?_, hfits⟩, hplaced⟩).symm
  rw [spell_tokensLexemes, positionalTemplate, String.toList_ofList]

end

/-! ### The filled template -/

section
variable {prims : Primitives} {calendar : Calendar} {params : List (String × SqlParameter)}
  {tokens : List SqlToken} {sql : String}

theorem scanSql_pushed {σ : Type} {replaceToken : σ → List Char → Outcome QuackError (List Char × σ)}
    {state after : σ} {token : SqlToken} {piece : List Char}
    (h : pushToken replaceToken state token = .ok (piece, after)) :
    scanSql replaceToken state (token :: tokens) = (do
      let (output, last) ← scanSql replaceToken after tokens
      pure (piece ++ output, last)) := by
  rw [scanSql_token, h, Outcome.ok_bind]

theorem pushToken_question {front back : List SqlParameter} {param : SqlParameter} :
    pushToken (replacePositional prims calendar (front ++ param :: back)) front.length (.placeholder ['?']) =
      (do
        let literal ← sqlLiteral prims calendar param
        pure (literal, front.length + 1)) := by
  rw [pushToken, replacePositional, if_neg (by simp), List.getElem?_append_right (Nat.le_refl _), Nat.sub_self]
  rfl

theorem pushToken_name {name : List Char} {param : SqlParameter} (h : Bound params name param) :
    pushToken (replaceNamed prims calendar params) () (.placeholder (':' :: name)) = (do
      let literal ← sqlLiteral prims calendar param
      pure (literal, ())) := by
  rw [Bound] at h
  rw [pushToken, replaceNamed]
  simp only [h]

/-- Both loops push the same, or fail on the same literal. -/
theorem scanSql_eq_named {front back : List SqlParameter} (hnone : .placeholder ['?'] ∉ tokens)
    (hbound : List.Forall₂ (Bound params) (tokens.filterMap SqlToken.name?) back) :
    scanSql (replacePositional prims calendar (front ++ back)) front.length
        (tokens.map SqlToken.positional) = (do
      let (output, _) ← scanSql (replaceNamed prims calendar params) () tokens
      pure (output, (front ++ back).length)) := by
  induction tokens generalizing front back with
  | nil =>
      cases hbound
      rw [List.append_nil]
      rfl
  | cons token tokens ih =>
      have hrest := fun h => hnone (List.mem_cons_of_mem _ h)
      rw [List.map_cons]
      cases hname : token.name? with
      | some name =>
          obtain rfl := name?_eq_some hname
          rw [List.filterMap_cons_some hname] at hbound
          cases hbound with
          | @cons _ param _ back hhere hbound =>
              have hscan := @ih (front ++ [param]) back hrest hbound
              rw [List.append_assoc, List.singleton_append, List.length_append, List.length_singleton] at hscan
              have hpositional := @pushToken_question prims calendar front back param
              have hnamed := @pushToken_name prims calendar params name param hhere
              rw [positional_name]
              cases hliteral : sqlLiteral prims calendar param with
              | ok literal =>
                  rw [hliteral] at hpositional hnamed
                  rw [scanSql_pushed hpositional, scanSql_pushed hnamed, hscan]
                  cases scanSql (replaceNamed prims calendar params) () tokens <;> rfl
              | err _ | panic _ =>
                  rw [hliteral] at hpositional hnamed
                  rw [scanSql_token, scanSql_token, hpositional, hnamed]
                  rfl
      | none =>
          rw [List.filterMap_cons_none hname] at hbound
          have hscan := @ih front back hrest hbound
          have hpositional := @pushToken_copied _ (replacePositional prims calendar (front ++ back)) front.length
            token fun text heq => by
              have htext : text ≠ ['?'] := fun h => hnone (by rw [heq, h]; exact List.mem_cons_self ..)
              rw [replacePositional, if_pos htext]
              rfl
          have hnamed := @pushToken_copied _ (replaceNamed prims calendar params) () token fun text heq => by
            rw [replaceNamed]
            · rfl
            · exact fun name hname' => name?_eq_none hname name (heq.trans (congrArg _ hname'))
          rw [positional_other hname, scanSql_pushed hpositional, scanSql_pushed hnamed, hscan]
          cases scanSql (replaceNamed prims calendar params) () tokens <;> rfl

/-- Where no question mark stands outside the regions, named parameters come to the same as positional ones, to
the error of the first literal that fails. -/
theorem formatSql_named {args : List SqlParameter} (hnone : Lexeme.other '?' ∉ lexemes sql.toList)
    (hbound : List.Forall₂ (Bound params) (placeholderNames sql) args) :
    formatSql prims calendar sql (some (.named params)) =
      formatSql prims calendar (positionalTemplate sql) (some (.positional args)) := by
  have hscans := scans_scanTokens none sql.toList
  have htokens : SqlToken.placeholder ['?'] ∉ scanTokens none sql.toList := by
    rw [← List.count_eq_zero] at hnone ⊢
    rw [← count_question hscans.2, lexes_iff.mp hscans.1]
    exact hnone
  have hscan := @scanSql_eq_named prims calendar params _ [] args htokens hbound
  rw [List.nil_append, List.length_nil, ← scanTokens_positional] at hscan
  rw [formatSql, formatSql, formatNamedSql, formatPositionalSql, hscan]
  cases scanSql (replaceNamed prims calendar params) () (scanTokens none sql.toList) with
  | err e => rfl
  | panic cause => rfl
  | ok result =>
      show _ = ite (args.length ≠ args.length) _ _
      rw [if_neg (not_not.mpr rfl)]
      rfl

theorem formatSql_named_twice : Lexeme.other '?' ∉ lexemes ":a,:a".toList ∧
    positionalTemplate ":a,:a" = "?,?" ∧
    formatSql .floatless .blank ":a,:a" (some (.named [("a", .value (.int 7))])) =
      formatSql .floatless .blank (positionalTemplate ":a,:a")
        (some (.positional [.value (.int 7), .value (.int 7)])) := by
  have htokens : scanTokens none ":a,:a".toList =
      [.placeholder [':', 'a'], .other ',', .placeholder [':', 'a']] := by
    simp [scanTokens, scanToken, isIdentifierStart, isIdentifierPart, SqlToken.text]
  have hnone : Lexeme.other '?' ∉ lexemes ":a,:a".toList := by decide +kernel
  refine ⟨hnone, ?_, formatSql_named hnone ?_⟩
  · rw [positionalTemplate, htokens]
    rfl
  · rw [placeholderNames, htokens]
    exact .cons rfl (.cons rfl .nil)

end

end QuackProtocol
