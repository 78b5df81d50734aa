import QuackProtocol.Lexemes
import QuackProtocol.TemporalTexts

/-! Parameters in SQL texts (`sql.rs`). The scanner of the source goes over the bytes of a text; the model goes
over its characters. Only ASCII characters mean something to the scanner, and no byte of another
character is one of them. -/

open Decoding Lexing

namespace QuackProtocol

inductive SqlParameter where
  | value (value : Value)
  | list (values : List SqlParameter)

inductive SqlParameters where
  | positional (params : List SqlParameter)
  | named (params : List (String × SqlParameter))

/-- `is_finite`: the exponent is not all ones. -/
def F32.isFinite (bits : F32) : Bool := (bits >>> 23) &&& 0xff ≠ 0xff

def F64.isFinite (bits : F64) : Bool := (bits >>> 52) &&& 0x7ff ≠ 0x7ff

def bytesToHex (bytes : Bytes) : List Char :=
  bytes.flatMap fun byte => [Nat.digitChar (byte.toNat / 16), Nat.digitChar (byte.toNat % 16)]

/-- A text between single quotes, with its own single quotes doubled. -/
def quotedLiteral (text : List Char) : List Char :=
  '\'' :: (text.flatMap fun c => if c = '\'' then ['\'', '\''] else [c]) ++ ['\'']

section
variable (prims : Primitives) (calendar : Calendar)

def valueLiteral : Value → Outcome QuackError (List Char)
  | .null => pure "NULL".toList
  | .bool value => pure (if value then "TRUE" else "FALSE").toList
  | .int value => pure (displayInt value).toList
  | .uint value => pure (toString value.toNat).toList
  | .hugeInt value => pure (displayInt value).toList
  | .uhugeInt value => pure (toString value.toNat).toList
  | .float value =>
    if F32.isFinite value then pure (prims.displayF32 value).toList
    else .err (.protocol s!"cannot encode non-finite SQL number {prims.displayF32 value}")
  | .double value =>
    if F64.isFinite value then pure (prims.displayF64 value).toList
    else .err (.protocol s!"cannot encode non-finite SQL number {prims.displayF64 value}")
  | .string value => pure (quotedLiteral value.toList)
  | .bytes value => pure ("from_hex('".toList ++ bytesToHex value ++ "')".toList)
  | .decimal value => String.toList <$> decimalToString value
  | .date value => do
    let text ← dateFromDays calendar value.days
    pure ("DATE '".toList ++ text ++ ['\''])
  | .time value => pure ("TIME '".toList ++ formatTime value.value value.unit ++ ['\''])
  | .timeTz _ =>
    .err (.protocol "TIME WITH TIME ZONE parameters are not supported as SQL literals")
  | .timestamp value => do
    let keyword := if value.timezoneUtc then "TIMESTAMPTZ" else "TIMESTAMP"
    let text ← formatTimestamp calendar value.value value.unit value.timezoneUtc
    pure (keyword.toList ++ " '".toList ++ text ++ ['\''])
  | .interval value => pure
    s!"INTERVAL '{displayInt value.months} months {displayInt value.days} days {displayInt value.micros} microseconds'".toList
  | .list _ | .struct _ => .err (.protocol
    "object SQL parameters are not supported; pass scalar values or SqlParameter::List")

/-- The texts of a list, with a comma and a blank between two of them. -/
def joined (texts : List (List Char)) : List Char := [',', ' '].intercalate texts

mutual

def sqlLiteral : SqlParameter → Outcome QuackError (List Char)
  | .list values => do
    let texts ← sqlLiterals values
    pure ('[' :: joined texts ++ [']'])
  | .value value => valueLiteral prims calendar value

def sqlLiterals : List SqlParameter → Outcome QuackError (List (List Char))
  | [] => pure []
  | value :: values => do
    let text ← sqlLiteral value
    let texts ← sqlLiterals values
    pure (text :: texts)

end

end

/-! ### The scanner -/

def isIdentifierStart (c : Char) : Bool := c.isAlpha || c == '_'

def isIdentifierPart (c : Char) : Bool := c.isAlphanum || c == '_'

def readSingleQuoted : List Char → List Char × List Char := spanQuoted '\''

def readDoubleQuoted : List Char → List Char × List Char := spanQuoted '"'

/-- What one turn of the scanner's loop takes from the text: a region that is copied, a placeholder that is
replaced, or a character that is copied byte by byte. -/
inductive SqlToken where
  | region (lexeme : Lexeme)
  | placeholder (text : List Char)
  | other (c : Char)
  deriving DecidableEq

def SqlToken.text : SqlToken → List Char
  | region lexeme => lexeme.text
  | placeholder text => text
  | other c => [c]

/-- One turn, behind the given character. -/
def scanToken (previous : Option Char) (c : Char) (rest : List Char) : SqlToken × List Char :=
  let next := rest.head?
  if c = '\'' then
    (.region (.quoted (c :: (readSingleQuoted rest).1)), (readSingleQuoted rest).2)
  else if c = '"' then
    (.region (.quoted (c :: (readDoubleQuoted rest).1)), (readDoubleQuoted rest).2)
  else if c = '-' ∧ next = some '-' then
    (.region (.line ('-' :: '-' :: (spanLine rest.tail).1)), (spanLine rest.tail).2)
  else if c = '/' ∧ next = some '*' then
    (.region (.block ('/' :: '*' :: (spanBlock rest.tail).1)), (spanBlock rest.tail).2)
  else if c = '?' then
    (.placeholder ['?'], rest)
  else if c = ':' ∧ previous ≠ some ':' ∧ next ≠ some ':' ∧ next.any isIdentifierStart then
    let name := rest.take 1 ++ rest.tail.takeWhile isIdentifierPart
    (.placeholder (':' :: name), rest.tail.dropWhile isIdentifierPart)
  else
    (.other c, rest)

/-- Each turn goes forward. -/
theorem length_scanToken (previous : Option Char) (c : Char) (rest : List Char) :
    (scanToken previous c rest).2.length < (c :: rest).length := by
  have hspan : ∀ quote, (spanQuoted quote rest).2.length ≤ rest.length := fun quote => by
    have hlength := congrArg List.length (spanQuoted_append quote rest)
    rw [List.length_append] at hlength
    omega
  have htail : rest.tail.length ≤ rest.length := by simp
  have hline := congrArg List.length (spanLine_append rest.tail)
  have hblock := congrArg List.length (spanBlock_append rest.tail)
  have hname := (List.dropWhile_sublist isIdentifierPart (l := rest.tail)).length_le
  rw [List.length_append] at hline hblock
  rw [List.length_cons]
  simp only [scanToken, readSingleQuoted, readDoubleQuoted]
  split
  · exact Nat.lt_succ_of_le (hspan _)
  · split
    · exact Nat.lt_succ_of_le (hspan _)
    · split
      · simp only
        omega
      · split
        · simp only
          omega
        · split
          · simp only
            omega
          · split <;> simp only <;> omega

/-- The turns of the loop over a text, behind the given character. -/
def scanTokens (previous : Option Char) : List Char → List SqlToken
  | [] => []
  | c :: rest =>
    let turn := scanToken previous c rest
    turn.1 :: scanTokens turn.1.text.getLast? turn.2
termination_by text => text.length
decreasing_by exact length_scanToken previous c rest

/-- The bytes of a character, each taken for a character. -/
def pushBytes (c : Char) : List Char := (String.utf8EncodeChar c).map fun byte => Char.ofNat byte.toNat

/-- The loop, with the state that `replaceToken` captures. -/
def scanSql {σ : Type} (replaceToken : σ → List Char → Outcome QuackError (List Char × σ)) :
    σ → List SqlToken → Outcome QuackError (List Char × σ)
  | state, [] => pure ([], state)
  | state, token :: tokens => do
    let (piece, state) ← match token with
      | .region lexeme => pure (lexeme.text, state)
      | .placeholder text => replaceToken state text
      | .other c => pure (pushBytes c, state)
    let (output, state) ← scanSql replaceToken state tokens
    pure (piece ++ output, state)

section
variable (prims : Primitives) (calendar : Calendar)

/-- `params.get(index)` for each question mark; the state is the index. -/
def replacePositional (params : List SqlParameter) (index : Nat) (token : List Char) :
    Outcome QuackError (List Char × Nat) :=
  if token ≠ ['?'] then pure (token, index)
  else
    match params[index]? with
    | none => .err (.protocol "SQL has more positional placeholders than parameters")
    | some param => do
      let literal ← sqlLiteral prims calendar param
      pure (literal, index + 1)

def formatPositionalSql (sql : String) (params : List SqlParameter) : Outcome QuackError String := do
  let (formatted, index) ← scanSql (replacePositional prims calendar params) 0
    (scanTokens none sql.toList)
  if index ≠ params.length then
    .err (.protocol
      s!"SQL has {index} positional placeholders but {params.length} parameters were provided")
  else
    pure (String.ofList formatted)

def replaceNamed (params : List (String × SqlParameter)) (state : Unit) (token : List Char) :
    Outcome QuackError (List Char × Unit) :=
  match token with
  | ':' :: name =>
    match params.lookup (String.ofList name) with
    | none => .err (.protocol s!"missing SQL parameter :{String.ofList name}")
    | some param => do
      let literal ← sqlLiteral prims calendar param
      pure (literal, state)
  | token => pure (token, state)

def formatNamedSql (sql : String) (params : List (String × SqlParameter)) :
    Outcome QuackError String := do
  let (formatted, _) ← scanSql (replaceNamed prims calendar params) () (scanTokens none sql.toList)
  pure (String.ofList formatted)

def formatSql (sql : String) (params : Option SqlParameters) : Outcome QuackError String :=
  match params with
  | none => pure sql
  | some (.positional params) => formatPositionalSql prims calendar sql params
  | some (.named params) => formatNamedSql prims calendar sql params

end

end QuackProtocol
