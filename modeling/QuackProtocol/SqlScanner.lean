import QuackProtocol.SqlLiterals
import QuackProtocol.Utf8

/-! The scanner over bytes, as the source has it: an index into the UTF-8 bytes of the text, and slices of the
text between two indices, which panic unless both lie between characters. An index never passes the
length of the text by more than two, so that the additions are those of the natural numbers. The
scanner over characters does the same on every text. -/

open Decoding Decode Lexing Utf8

namespace QuackProtocol.SqlBytes

/-- A slice `&text[start..stop]`. -/
structure Slice where
  text : List Char
  start : Nat
  stop : Nat

/-- The condition under which a slice does not panic. -/
structure Slice.Sound (slice : Slice) : Prop where
  ordered : slice.start ≤ slice.stop
  inside : slice.stop ≤ (encode slice.text).length
  start : IsBoundary slice.text slice.start
  stop : IsBoundary slice.text slice.stop

instance (slice : Slice) : Decidable slice.Sound :=
  decidable_of_iff (slice.start ≤ slice.stop ∧ slice.stop ≤ (encode slice.text).length ∧
      IsBoundary slice.text slice.start ∧ IsBoundary slice.text slice.stop)
    ⟨fun h => ⟨h.1, h.2.1, h.2.2.1, h.2.2.2⟩, fun h => ⟨h.ordered, h.inside, h.start, h.stop⟩⟩

/-- A run at an index, with the slices it takes as its trace. -/
abbrev Scanner (α : Type) := Decode Unit Slice QuackError α

def slice (text : List Char) (start stop : Nat) : Scanner (List Char) := do
  record ⟨text, start, stop⟩
  check (Slice.Sound ⟨text, start, stop⟩) .bounds
  pure ((between text start stop).getD [])

/-- The loop of `read_single_quoted` and `read_double_quoted`. -/
def readQuoted (quote : UInt8) (bytes : Bytes) (index : Nat) : Nat :=
  if h : index < bytes.length then
    if bytes[index] = quote ∧ bytes[index + 1]? = some quote then readQuoted quote bytes (index + 2)
    else if bytes[index] = quote then index + 1
    else readQuoted quote bytes (index + 1)
  else
    index
termination_by bytes.length - index

def readSingleQuoted (sql : List Char) (start : Nat) : Nat :=
  readQuoted '\''.toUInt8 (encode sql) (start + 1)

def readDoubleQuoted (sql : List Char) (start : Nat) : Nat :=
  readQuoted '"'.toUInt8 (encode sql) (start + 1)

/-- The end of the identifier whose part before `stop` has been read. -/
def identifierEnd (bytes : Bytes) (stop : Nat) : Nat :=
  if h : stop < bytes.length then
    if isIdentifierPart (charOfByte bytes[stop]) then identifierEnd bytes (stop + 1) else stop
  else
    stop
termination_by bytes.length - stop

/-! ### The scanner -/

/-- What one turn of the loop pushes: a slice, what replaces a placeholder, or a byte. -/
inductive Token where
  | copied (text : List Char)
  | placeholder (text : List Char)
  | byte (ch : Char)

/-- The byte before the index, by `checked_sub`. -/
def previousByte (bytes : Bytes) (index : Nat) : Option UInt8 :=
  if index = 0 then none else bytes[index - 1]?

def nextToken (sql : List Char) : Scanner Token := do
  let reader ← cursor
  let index := reader.offset
  let ch := charOfByte (← Decode.index reader.bytes index)
  let next := reader.bytes[index + 1]?.map charOfByte
  if ch = '\'' then do
    let stop := readSingleQuoted sql index
    let text ← slice sql index stop
    setOffset stop
    pure (.copied text)
  else if ch = '"' then do
    let stop := readDoubleQuoted sql index
    let text ← slice sql index stop
    setOffset stop
    pure (.copied text)
  else if ch = '-' ∧ next = some '-' then do
    let tail ← slice sql (index + 2) reader.bytes.length
    let stop := ((find ['\n'] tail).map fun relative => index + 2 + relative).getD reader.bytes.length
    let text ← slice sql index stop
    setOffset stop
    pure (.copied text)
  else if ch = '/' ∧ next = some '*' then do
    let tail ← slice sql (index + 2) reader.bytes.length
    let stop := ((find ['*', '/'] tail).map fun relative => index + 2 + relative + 2).getD reader.bytes.length
    let text ← slice sql index stop
    setOffset stop
    pure (.copied text)
  else if ch = '?' then do
    setOffset (index + 1)
    pure (.placeholder ['?'])
  else if ch = ':' ∧ previousByte reader.bytes index ≠ some ':'.toUInt8 ∧ next ≠ some ':' ∧
      next.any isIdentifierStart then do
    let stop := identifierEnd reader.bytes (index + 2)
    let text ← slice sql index stop
    setOffset stop
    pure (.placeholder text)
  else do
    setOffset (index + 1)
    pure (.byte ch)

section
variable {σ : Type} (replaceToken : σ → List Char → Outcome QuackError (List Char × σ))

def pushToken (state : σ) : Token → Outcome QuackError (List Char × σ)
  | .copied text => pure (text, state)
  | .placeholder text => replaceToken state text
  | .byte ch => pure ([ch], state)

/-- The loop, with the turns left. -/
def scanLoop (sql : List Char) : Nat → σ → Scanner (List Char × σ)
  | 0, _ => panic .recursion
  | turns + 1, state => do
    let reader ← cursor
    if reader.offset < reader.bytes.length then do
      let token ← nextToken sql
      let (piece, state) ← ofOutcome (pushToken replaceToken state token)
      let (output, state) ← scanLoop sql turns state
      pure (piece ++ output, state)
    else
      pure ([], state)

/-- The scan, with no more turns than there are bytes and one to see the end. -/
def scan (sql : List Char) (state : σ) : Scanner (List Char × σ) :=
  withBudget fun turns => scanLoop replaceToken sql turns state

def scanSql (state : σ) (sql : String) : Outcome QuackError (List Char × σ) := do
  let (result, _) ← (scan replaceToken sql.toList state).run () ⟨encode sql.toList, 0⟩
  pure result

/-- The slices that the scan takes. -/
def scanSlices (state : σ) (sql : String) : List Slice :=
  (scan replaceToken sql.toList state).trace () ⟨encode sql.toList, 0⟩

end

section
variable {quote : UInt8} {bytes tail : Bytes} {index : Nat}

theorem lt_of_drop {byte : UInt8} (h : bytes.drop index = byte :: tail) :
    ∃ hlt : index < bytes.length, bytes[index] = byte ∧ bytes[index + 1]? = tail.head? ∧
      bytes.drop (index + 1) = tail := by
  have hlt : index < bytes.length := by
    have hlength := congrArg List.length h
    rw [List.length_drop, List.length_cons] at hlength
    omega
  have htail : bytes.drop (index + 1) = tail := by
    rw [← List.drop_drop, h]
    rfl
  refine ⟨hlt, ?_, ?_, htail⟩
  · have hhead := List.drop_eq_getElem_cons hlt
    rw [h] at hhead
    exact (List.cons.inj hhead).1.symm
  · rw [← htail, List.head?_drop]

theorem readQuoted_end (h : bytes.drop index = []) : readQuoted quote bytes index = index := by
  have hle : bytes.length ≤ index := List.drop_eq_nil_iff.mp h
  rw [readQuoted, dif_neg (by omega)]

theorem readQuoted_pair (h : bytes.drop index = quote :: quote :: tail) :
    readQuoted quote bytes index = readQuoted quote bytes (index + 2) := by
  obtain ⟨hlt, hhere, hnext, -⟩ := lt_of_drop h
  rw [readQuoted, dif_pos hlt, if_pos ⟨hhere, hnext⟩]

theorem readQuoted_close (h : bytes.drop index = quote :: tail) (hnext : tail.head? ≠ some quote) :
    readQuoted quote bytes index = index + 1 := by
  obtain ⟨hlt, hhere, htail, -⟩ := lt_of_drop h
  rw [readQuoted, dif_pos hlt, if_neg (fun hpair => hnext (htail ▸ hpair.2)), if_pos hhere]

/-- Bytes that are no quotes are passed one by one. -/
theorem readQuoted_others {front : Bytes} (h : bytes.drop index = front ++ tail)
    (hfront : ∀ byte ∈ front, byte ≠ quote) :
    readQuoted quote bytes index = readQuoted quote bytes (index + front.length) := by
  induction front generalizing index with
  | nil => rfl
  | cons byte front ih =>
      obtain ⟨hbyte, hfront⟩ := List.forall_mem_cons.mp hfront
      obtain ⟨hlt, hhere, -, htail⟩ := lt_of_drop h
      rw [readQuoted, dif_pos hlt, if_neg (fun hpair => hbyte (hhere ▸ hpair.1)), if_neg (hhere ▸ hbyte),
        ih htail hfront, List.length_cons, Nat.add_assoc, Nat.add_comm 1]

/-- The loop over the bytes reads what is read of the characters. -/
theorem readQuoted_encode {quote : Char} (hquote : quote.toNat < 128) {text : List Char}
    (h : bytes.drop index = encode text) :
    readQuoted quote.toUInt8 bytes index = index + (encode (spanQuoted quote text).1).length := by
  induction text using spanQuoted.induct quote generalizing index with
  | case1 =>
      rw [readQuoted_end h]
      rfl
  | case2 =>
      rw [encode_ascii_cons hquote] at h
      rw [readQuoted_close h (by simp), spanQuoted_close (by simp), encode_ascii_cons hquote]
      rfl
  | case3 rest ih =>
      rw [encode_ascii_cons hquote, encode_ascii_cons hquote] at h
      have hrest : bytes.drop (index + 2) = encode rest := by
        rw [← List.drop_drop, h]
        rfl
      rw [readQuoted_pair h, ih hrest, spanQuoted_pair, encode_ascii_cons hquote, encode_ascii_cons hquote,
        List.length_cons, List.length_cons]
      omega
  | case4 d rest hd =>
      rw [encode_ascii_cons hquote] at h
      have hnext : (encode (d :: rest)).head? ≠ some quote.toUInt8 := by
        obtain ⟨byte, front, hfront⟩ := List.exists_cons_of_ne_nil (String.utf8EncodeChar_ne_nil (c := d))
        have hbyte := encodeChar_ne hquote hd byte (by simp [hfront])
        rw [encode_cons, hfront]
        exact fun heq => hbyte (Option.some.inj heq)
      rw [readQuoted_close h hnext, spanQuoted_close (by simpa using hd), encode_ascii_cons hquote]
      rfl
  | case5 c rest hc ih =>
      have hrest : bytes.drop (index + (String.utf8EncodeChar c).length) = encode rest := by
        rw [← List.drop_drop, h, encode_cons, List.drop_left]
      rw [readQuoted_others h (encodeChar_ne hquote hc), ih hrest, spanQuoted_char hc, encode_cons,
        List.length_append]
      omega

end

/-- Each doubled quote replaced by one. -/
def undoubled : List Char → List Char
  | '\'' :: '\'' :: text => '\'' :: undoubled text
  | c :: text => c :: undoubled text
  | [] => []

theorem undoubled_doubled (text : List Char) :
    undoubled (text.flatMap fun c => if c = '\'' then ['\'', '\''] else [c]) = text := by
  induction text with
  | nil => rfl
  | cons c text ih =>
      rw [List.flatMap_cons]
      by_cases hc : c = '\''
      · rw [if_pos hc, hc]
        exact congrArg ('\'' :: ·) ih
      · rw [if_neg hc, List.singleton_append, undoubled, ih]
        rintro text rfl
        exact absurd rfl hc

/-- A string literal is read to its end, and the text between its quotes is the string with doubled quotes. -/
theorem stringLiteral_delimited (prims : Primitives) (calendar : Calendar) (s r : String)
    (hr : r.toList.head? ≠ some '\'') :
    ∃ interior, sqlLiteral prims calendar (.value (.string s)) = .ok ('\'' :: interior ++ ['\'']) ∧
      readSingleQuoted ('\'' :: interior ++ ['\''] ++ r.toList) 0 =
        (encode ('\'' :: interior ++ ['\''])).length ∧
      undoubled interior = s.toList := by
  refine ⟨_, rfl, ?_, undoubled_doubled s.toList⟩
  have hquote : '\''.toNat < 128 := by decide
  have hspan := spanQuoted_closed (quoted_doubled s.toList) hr
  have hdrop (text : List Char) : (encode ('\'' :: text)).drop (0 + 1) = encode text := by
    rw [encode_ascii_cons hquote]
    rfl
  rw [List.cons_append, List.cons_append, List.append_assoc, List.singleton_append, readSingleQuoted,
    readQuoted_encode hquote (hdrop _), hspan, encode_ascii_cons hquote, List.length_cons]
  exact Nat.add_comm _ _

theorem stringLiteral_delimited_apostrophe : " OR".toList.head? ≠ some '\'' ∧
    ∃ interior, sqlLiteral .floatless .blank (.value (.string "'it''s'")) = .ok ('\'' :: interior ++ ['\'']) ∧
      readSingleQuoted ('\'' :: interior ++ ['\''] ++ " OR".toList) 0 =
        (encode ('\'' :: interior ++ ['\''])).length ∧
      undoubled interior = "'it''s'".toList :=
  ⟨by decide, stringLiteral_delimited .floatless .blank "'it''s'" " OR" (by decide)⟩

end QuackProtocol.SqlBytes
