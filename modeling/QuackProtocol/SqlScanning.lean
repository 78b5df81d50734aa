import QuackProtocol.SqlScanner

/-! The scan of any text. At every index below the length the next token is read without a panic and ends
further on: an ASCII byte is a character between two positions, from which the scanner over characters reads
the same token, and any other byte is pushed alone. -/

open Decoding Decode Lexing Utf8

namespace QuackProtocol.SqlBytes

variable {α β : Type} {sql front text back : List Char} {bytes : Bytes}

/-- The slice is taken of the given text, and does not panic. -/
def SoundIn (sql : List Char) (slice : Slice) : Prop := slice.text = sql ∧ slice.Sound

/-- From the one cursor to the other the run has a value, and it takes sound slices of the text only. -/
structure Takes (sql : List Char) (m : Scanner α) (c : Cursor) (a : α) (c' : Cursor) : Prop where
  run : m.run () c = .ok (a, c')
  slices : EmitsAt (SoundIn sql) () c m

namespace Takes

variable {m : Scanner α} {f : α → Scanner β} {c c' c'' : Cursor} {a : α} {b : β}

theorem pure (a : α) (c : Cursor) : Takes sql (pure a : Scanner α) c a c := ⟨rfl, nofun⟩

theorem bind (hm : Takes sql m c a c') (hf : Takes sql (f a) c' b c'') : Takes sql (m >>= f) c b c'' := by
  refine ⟨(run_bind_ok hm.run).trans hf.run, hm.slices.bind fun x cx hrun => ?_⟩
  rw [hm.run] at hrun
  cases hrun
  exact hf.slices

theorem cursor (c : Cursor) : Takes sql (Decode.cursor : Scanner Cursor) c c c := ⟨rfl, nofun⟩

theorem setOffset (c : Cursor) (offset : Nat) :
    Takes sql (Decode.setOffset offset : Scanner Unit) c () { c with offset } := ⟨rfl, nofun⟩

theorem index {byte : UInt8} (h : c.bytes[c.offset]? = some byte) :
    Takes sql (Decode.index c.bytes c.offset : Scanner UInt8) c byte c := by
  rw [Decode.index, h]
  exact pure byte c

/-- A slice between two parts of the text. -/
theorem slice (c : Cursor) (h : sql = front ++ (text ++ back)) :
    Takes sql (slice sql (encode front).length (encode (front ++ text)).length) c text c := by
  subst h
  have hsound : Slice.Sound
      ⟨front ++ (text ++ back), (encode front).length, (encode (front ++ text)).length⟩ := by
    refine ⟨?_, ?_, isBoundary_iff.mpr ⟨front, _, rfl, rfl⟩,
      isBoundary_iff.mpr ⟨front ++ text, back, ?_, rfl⟩⟩
    · simp
    · simp
    · exact (List.append_assoc _ _ _).symm
  rw [SqlBytes.slice, between_append, Decode.check, if_pos hsound]
  exact ⟨rfl, fun slice h => by rw [List.mem_singleton.mp h]; exact ⟨rfl, hsound⟩⟩

/-- A slice from the cursor on, behind which the scan goes on. -/
theorem token (wrap : List Char → Token) (h : sql = front ++ (text ++ back))
    {stop : Nat} (hstop : stop = (encode (front ++ text)).length) (offset : Nat) :
    Takes sql (do
      let text ← SqlBytes.slice sql (encode front).length stop
      Decode.setOffset stop
      Pure.pure (wrap text)) ⟨bytes, offset⟩ (wrap text) ⟨bytes, (encode (front ++ text)).length⟩ := by
  subst hstop
  exact (slice _ h).bind ((setOffset _ _).bind (pure _ _))

/-- A token that is read without a slice. -/
theorem step (token : Token) {offset stop : Nat} (hstop : stop = offset + 1) :
    Takes sql (do
      Decode.setOffset (offset + 1)
      Pure.pure token) ⟨bytes, offset⟩ token ⟨bytes, stop⟩ := by
  subst hstop
  exact (setOffset _ _).bind (pure _ _)

end Takes

section
variable {index : Nat}

theorem find_block (text : List Char) :
    ((find ['*', '/'] text).map (· + 2)).getD (encode text).length = (encode (spanBlock text).1).length := by
  induction text using spanBlock.induct with
  | case1 rest => rfl
  | case2 c rest hnot ih =>
      have hprefix : ['*', '/'].isPrefixOf (c :: rest) = false := by
        refine Bool.eq_false_iff.mpr fun h => ?_
        obtain ⟨back, hback⟩ := List.isPrefixOf_iff_prefix.mp h
        obtain ⟨rfl, rfl⟩ := List.cons.inj hback
        exact hnot back rfl rfl
      have hspan : spanBlock (c :: rest) = (c :: (spanBlock rest).1, (spanBlock rest).2) := by
        rw [spanBlock]
        exact hnot
      rw [hspan, length_encode_cons, length_encode_cons, ← ih,
        ← Option.getD_map (f := fun n => n + c.utf8Size), find, hprefix, if_neg Bool.false_ne_true,
        Option.map_map, Option.map_map]
      congr 2
      funext n
      simp only [Function.comp_apply]
      omega
  | case3 => rfl

/-- The loop over the bytes of an identifier. -/
theorem identifierEnd_encode (h : bytes.drop index = encode text) :
    identifierEnd bytes index = index + (encode (text.takeWhile isIdentifierPart)).length := by
  induction text generalizing index with
  | nil =>
      have hle : bytes.length ≤ index := List.drop_eq_nil_iff.mp h
      rw [identifierEnd, dif_neg (by omega)]
      rfl
  | cons c text ih =>
      obtain ⟨byte, tail, hbytes⟩ := List.exists_cons_of_ne_nil (l := encode (c :: text)) (by
        rw [encode_cons]
        exact List.append_ne_nil_of_left_ne_nil String.utf8EncodeChar_ne_nil _)
      have hpart : isIdentifierPart (charOfByte byte) = isIdentifierPart c := by
        have hany := any_head_encode (fun c hc => isAscii_of_identifier hc) (c :: text)
        rw [hbytes] at hany
        simpa using hany
      obtain ⟨hlt, hhere, -, htail⟩ := lt_of_drop (h.trans hbytes)
      rw [identifierEnd, dif_pos hlt, hhere, hpart]
      by_cases hc : isIdentifierPart c = true
      · have hascii : c.toNat < 128 := isAscii_of_identifier hc
        rw [encode_ascii_cons hascii] at hbytes
        rw [← (List.cons.inj hbytes).2] at htail
        rw [if_pos hc, ih htail, List.takeWhile_cons_of_pos hc, encode_ascii_cons hascii, List.length_cons]
        omega
      · rw [if_neg hc, List.takeWhile_cons_of_neg hc]
        rfl

end

def tokenOf : SqlToken → Token
  | .region lexeme => .copied lexeme.text
  | .placeholder text => .placeholder text
  | .other c => .byte c

theorem previousByte_iff (front text : List Char) :
    previousByte (encode (front ++ text)) (encode front).length = some ':'.toUInt8 ↔
      front.getLast? = some ':' := by
  rw [← getLast_encode_iff (by decide), previousByte, encode_append]
  cases hfront : encode front with
  | nil => simp
  | cons byte bytes =>
      rw [if_neg (by simp), List.getElem?_append_left (by simp), List.getLast?_eq_getElem?]

/-- The position behind a character and the text after it. -/
theorem length_encode_behind {c : Char} (hc : c.toNat < 128) (front text : List Char) :
    (encode (front ++ c :: text)).length = (encode front).length + 1 + (encode text).length := by
  rw [encode_append, List.length_append, encode_ascii_cons hc, List.length_cons]
  omega

theorem drop_behind {c : Char} (hc : c.toNat < 128) (front text : List Char) :
    (encode (front ++ c :: text)).drop ((encode front).length + 1) = encode text := by
  rw [← List.drop_drop, encode_append, List.drop_left, encode_ascii_cons hc]
  rfl

theorem length_encode_mark {c d : Char} (hc : c.toNat < 128) (hd : d.toNat < 128) (front text : List Char) :
    (encode (front ++ c :: d :: text)).length = (encode front).length + 2 + (encode text).length := by
  rw [length_encode_behind hc, encode_ascii_cons hd, List.length_cons]
  omega

/-- The slice behind the mark that begins a comment. -/
theorem takes_behind_mark {c d : Char} (hc : c.toNat < 128) (hd : d.toNat < 128) (front text : List Char)
    (reader : Cursor) :
    Takes (front ++ c :: d :: text) (slice (front ++ c :: d :: text) ((encode front).length + 2)
      (encode (front ++ c :: d :: text)).length) reader text reader := by
  have hsplit : front ++ c :: d :: text = (front ++ [c, d]) ++ (text ++ []) := by simp
  have hslice := Takes.slice reader hsplit
  rw [List.append_assoc, length_encode_mark hc hd] at hslice
  exact hslice

/-! The regions and the named placeholders, each with its slices. -/

section
variable (front rest : List Char) (offset : Nat)

theorem takes_quoted {quote : Char} (hquote : quote.toNat < 128) :
    Takes (front ++ quote :: rest) (do
      let stop := readQuoted quote.toUInt8 (encode (front ++ quote :: rest)) ((encode front).length + 1)
      let text ← slice (front ++ quote :: rest) (encode front).length stop
      setOffset stop
      pure (Token.copied text)) ⟨bytes, offset⟩ (.copied (quote :: (spanQuoted quote rest).1))
      ⟨bytes, (encode (front ++ quote :: (spanQuoted quote rest).1)).length⟩ := by
  have hsplit : front ++ quote :: rest =
      front ++ (quote :: (spanQuoted quote rest).1 ++ (spanQuoted quote rest).2) := by
    rw [List.cons_append, spanQuoted_append]
  refine Takes.token .copied hsplit ?_ _
  rw [readQuoted_encode hquote (drop_behind hquote front rest)]
  exact (length_encode_behind hquote front _).symm

theorem takes_line {dash : Char} (hdash : dash.toNat < 128) :
    Takes (front ++ dash :: dash :: rest) (do
      let tail ← slice (front ++ dash :: dash :: rest) ((encode front).length + 2)
        (encode (front ++ dash :: dash :: rest)).length
      let stop := ((find ['\n'] tail).map fun relative => (encode front).length + 2 + relative).getD
        (encode (front ++ dash :: dash :: rest)).length
      let text ← slice (front ++ dash :: dash :: rest) (encode front).length stop
      setOffset stop
      pure (Token.copied text)) ⟨bytes, offset⟩ (.copied (dash :: dash :: (spanLine rest).1))
      ⟨bytes, (encode (front ++ dash :: dash :: (spanLine rest).1)).length⟩ := by
  have hsplit : front ++ dash :: dash :: rest =
      front ++ (dash :: dash :: (spanLine rest).1 ++ (spanLine rest).2) := by
    rw [List.cons_append, List.cons_append, spanLine_append]
  refine (takes_behind_mark hdash hdash front rest _).bind (Takes.token .copied hsplit ?_ _)
  rw [length_encode_mark hdash hdash, Option.getD_map, find_char]
  exact (length_encode_mark hdash hdash front _).symm

theorem takes_block {slash star : Char} (hslash : slash.toNat < 128) (hstar : star.toNat < 128) :
    Takes (front ++ slash :: star :: rest) (do
      let tail ← slice (front ++ slash :: star :: rest) ((encode front).length + 2)
        (encode (front ++ slash :: star :: rest)).length
      let stop := ((find ['*', '/'] tail).map fun relative => (encode front).length + 2 + relative + 2).getD
        (encode (front ++ slash :: star :: rest)).length
      let text ← slice (front ++ slash :: star :: rest) (encode front).length stop
      setOffset stop
      pure (Token.copied text)) ⟨bytes, offset⟩ (.copied (slash :: star :: (spanBlock rest).1))
      ⟨bytes, (encode (front ++ slash :: star :: (spanBlock rest).1)).length⟩ := by
  have hsplit : front ++ slash :: star :: rest =
      front ++ (slash :: star :: (spanBlock rest).1 ++ (spanBlock rest).2) := by
    rw [List.cons_append, List.cons_append, spanBlock_append]
  refine (takes_behind_mark hslash hstar front rest _).bind (Takes.token .copied hsplit ?_ _)
  have hmap : (fun relative => (encode front).length + 2 + relative + 2) =
      (fun n => (encode front).length + 2 + n) ∘ (· + 2) := rfl
  rw [length_encode_mark hslash hstar, hmap, ← Option.map_map, Option.getD_map, find_block]
  exact (length_encode_mark hslash hstar front _).symm

theorem takes_name {colon start : Char} (hcolon : colon.toNat < 128) (hstart : start.toNat < 128) :
    Takes (front ++ colon :: start :: rest) (do
      let stop := identifierEnd (encode (front ++ colon :: start :: rest)) ((encode front).length + 2)
      let text ← slice (front ++ colon :: start :: rest) (encode front).length stop
      setOffset stop
      pure (Token.placeholder text)) ⟨bytes, offset⟩
      (.placeholder (colon :: start :: rest.takeWhile isIdentifierPart))
      ⟨bytes, (encode (front ++ colon :: start :: rest.takeWhile isIdentifierPart)).length⟩ := by
  have hsplit : front ++ colon :: start :: rest = front ++
      (colon :: start :: rest.takeWhile isIdentifierPart ++ rest.dropWhile isIdentifierPart) := by
    rw [List.cons_append, List.cons_append, List.takeWhile_append_dropWhile]
  refine Takes.token .placeholder hsplit ?_ _
  have hbehind := drop_behind hcolon front (start :: rest)
  rw [encode_ascii_cons hstart] at hbehind
  obtain ⟨-, -, -, hbehind⟩ := lt_of_drop hbehind
  rw [identifierEnd_encode hbehind]
  exact (length_encode_mark hcolon hstart front _).symm

end

/-- At an ASCII character the scanner over the bytes reads the token of the scanner over the characters. -/
theorem nextToken_ascii (front : List Char) {c : Char} (hc : c.toNat < 128) (rest : List Char) :
    Takes (front ++ c :: rest) (nextToken (front ++ c :: rest))
      ⟨encode (front ++ c :: rest), (encode front).length⟩ (tokenOf (scanToken front.getLast? c rest).1)
      ⟨encode (front ++ c :: rest), (encode (front ++ (scanToken front.getLast? c rest).1.text)).length⟩ := by
  have hdrop : (encode (front ++ c :: rest)).drop (encode front).length = c.toUInt8 :: encode rest := by
    rw [encode_append, List.drop_left, encode_ascii_cons hc]
  obtain ⟨hlt, hhere, hnext, -⟩ := lt_of_drop hdrop
  have hread : (encode (front ++ c :: rest))[(encode front).length]? = some c.toUInt8 := by
    rw [List.getElem?_eq_getElem hlt, hhere]
  have hstart := any_head_encode (fun c h => isAscii_of_identifier (isIdentifierPart_of_start h)) rest
  rw [nextToken]
  refine (Takes.cursor _).bind ((Takes.index hread).bind ?_)
  simp only [charOfByte_ascii hc, hnext, head_encode_iff (d := '-') (by decide),
    head_encode_iff (d := '*') (by decide), head_encode_iff (d := ':') (by decide), ne_eq,
    previousByte_iff front (c :: rest), hstart]
  by_cases hsingle : c = '\''
  · subst hsingle
    rw [if_pos rfl]
    exact takes_quoted front rest _ hc
  by_cases hdouble : c = '"'
  · subst hdouble
    rw [if_neg hsingle, if_pos rfl]
    exact takes_quoted front rest _ hc
  rw [scanToken, if_neg hsingle, if_neg hdouble, if_neg hsingle, if_neg hdouble]
  by_cases hline : c = '-' ∧ rest.head? = some '-'
  · rw [if_pos hline, if_pos hline]
    obtain ⟨rfl, hhead⟩ := hline
    obtain ⟨tail, rfl⟩ := List.head?_eq_some_iff.mp hhead
    exact takes_line front tail _ hc
  rw [if_neg hline, if_neg hline]
  by_cases hblock : c = '/' ∧ rest.head? = some '*'
  · rw [if_pos hblock, if_pos hblock]
    obtain ⟨rfl, hhead⟩ := hblock
    obtain ⟨tail, rfl⟩ := List.head?_eq_some_iff.mp hhead
    exact takes_block front tail _ hc (by decide)
  rw [if_neg hblock, if_neg hblock]
  by_cases hquestion : c = '?'
  · rw [if_pos hquestion, if_pos hquestion, hquestion]
    exact Takes.step _ (length_encode_behind (by decide) front [])
  rw [if_neg hquestion, if_neg hquestion]
  by_cases hname : c = ':' ∧ ¬front.getLast? = some ':' ∧ ¬rest.head? = some ':' ∧
      rest.head?.any isIdentifierStart = true
  · rw [if_pos hname, if_pos hname]
    obtain ⟨rfl, -, -, hfirst⟩ := hname
    obtain ⟨d, hhead, hd⟩ := Option.any_eq_true _ _ |>.mp hfirst
    obtain ⟨tail, rfl⟩ := List.head?_eq_some_iff.mp hhead
    exact takes_name front tail _ hc (isAscii_of_identifier (isIdentifierPart_of_start hd))
  · rw [if_neg hname, if_neg hname]
    exact Takes.step _ (length_encode_behind hc front [])

/-- A byte of another character is pushed alone. -/
theorem nextToken_high {byte : UInt8} {index : Nat} (h : (encode sql)[index]? = some byte)
    (hbyte : 128 ≤ byte.toNat) :
    Takes sql (nextToken sql) ⟨encode sql, index⟩ (.byte (charOfByte byte)) ⟨encode sql, index + 1⟩ := by
  have hne {c : Char} (hc : c.toNat < 128) : charOfByte byte ≠ c := by
    rintro rfl
    rw [toNat_charOfByte] at hc
    omega
  rw [nextToken]
  refine (Takes.cursor _).bind ((Takes.index h).bind ?_)
  rw [if_neg (hne (by decide)), if_neg (hne (by decide)), if_neg fun h => hne (by decide) h.1,
    if_neg fun h => hne (by decide) h.1, if_neg (hne (by decide)), if_neg fun h => hne (by decide) h.1]
  exact Takes.step _ rfl

theorem scanToken_text_ne_nil (previous : Option Char) (c : Char) (rest : List Char) :
    (scanToken previous c rest).1.text ≠ [] := by
  intro hempty
  have hsound := congrArg List.length (scanToken_sound previous c rest).1
  have hlength := length_scanToken previous c rest
  rw [hempty, List.nil_append] at hsound
  omega

/-- Every turn goes on, wherever it begins. -/
theorem nextToken_takes {index : Nat} (h : index < (encode sql).length) :
    ∃ token stop, Takes sql (nextToken sql) ⟨encode sql, index⟩ token ⟨encode sql, stop⟩ ∧
      index < stop ∧ stop ≤ (encode sql).length := by
  have hread := List.getElem?_eq_getElem h
  by_cases hbyte : (encode sql)[index].toNat < 128
  · obtain ⟨front, c, rest, rfl, rfl, hc, -⟩ := exists_of_ascii hread hbyte
    have hsound := (scanToken_sound front.getLast? c rest).1
    refine ⟨_, _, nextToken_ascii front hc rest, ?_, ?_⟩
    · rw [encode_append, List.length_append]
      exact Nat.lt_add_of_pos_right (length_encode_pos (scanToken_text_ne_nil _ c rest))
    · rw [hsound, ← List.append_assoc, encode_append _ (scanToken front.getLast? c rest).2, List.length_append]
      exact Nat.le_add_right _ _
  · exact ⟨_, _, nextToken_high hread (Nat.le_of_not_lt hbyte), Nat.lt_succ_self _, h⟩

/-! ### The scan -/

section
variable {σ : Type} {replaceToken : σ → List Char → Outcome QuackError (List Char × σ)}

/-- One turn of the loop: the token, what it is replaced by, and the other turns. -/
theorem run_scanLoop_succ {turns : Nat} {state : σ} {c c' : Cursor} {token : Token}
    (hlt : c.offset < c.bytes.length) (h : Takes sql (nextToken sql) c token c') :
    (scanLoop replaceToken sql (turns + 1) state).run () c = (do
      let (piece, state) ← pushToken replaceToken state token
      let ((output, state), c'') ← (scanLoop replaceToken sql turns state).run () c'
      pure ((piece ++ output, state), c'')) := by
  rw [scanLoop, run_bind_ok (c := c) rfl, if_pos hlt, run_bind_ok h.run]
  cases hpush : pushToken replaceToken state token with
  | ok result =>
      have hrun : (ofOutcome (.ok result) : Scanner (List Char × σ)).run () c' = .ok (result, c') := rfl
      rw [run_bind_ok hrun, run_bind]
      simp only [Outcome.ok_bind]
      cases (scanLoop replaceToken sql turns result.2).run () c' with
      | ok out | err e | panic p => rfl
  | err e | panic p => rfl

theorem emits_scanLoop {turns : Nat} {state : σ} {index : Nat} :
    EmitsAt (SoundIn sql) () ⟨encode sql, index⟩ (scanLoop replaceToken sql turns state) := by
  induction turns generalizing index state with
  | zero => exact nofun
  | succ turns ih =>
      rw [scanLoop]
      refine EmitsAt.bind nofun fun reader c hcursor => ?_
      cases hcursor
      split
      · rename_i hlt
        obtain ⟨token, stop, htakes, -, -⟩ := nextToken_takes hlt
        refine htakes.slices.bind fun found c hfound => ?_
        rw [htakes.run] at hfound
        cases hfound
        refine EmitsAt.bind nofun fun pushed c hpushed => ?_
        cases hpush : pushToken replaceToken state token with
        | ok result =>
            rw [hpush] at hpushed
            cases hpushed
            exact ih.bind fun _ _ _ => nofun
        | err e | panic p =>
            rw [hpush] at hpushed
            cases hpushed
      · exact nofun

theorem scanLoop_panic {turns : Nat} {state : σ} {index : Nat} {p : Panic}
    (hle : index ≤ (encode sql).length) (hturns : (encode sql).length - index < turns)
    (h : (scanLoop replaceToken sql turns state).run () ⟨encode sql, index⟩ = .panic p) :
    ∃ state token, replaceToken state token = .panic p := by
  induction turns generalizing index state with
  | zero => omega
  | succ turns ih =>
      rcases Nat.lt_or_ge index (encode sql).length with hlt | hge
      · obtain ⟨token, stop, htakes, hforward, hstop⟩ := nextToken_takes hlt
        rw [run_scanLoop_succ hlt htakes] at h
        cases hpush : pushToken replaceToken state token with
        | ok result =>
            rw [hpush, Outcome.ok_bind] at h
            suffices hrest : (scanLoop replaceToken sql turns result.2).run () ⟨encode sql, stop⟩ = .panic p from
              ih hstop (by omega) hrest
            cases hrun : (scanLoop replaceToken sql turns result.2).run () ⟨encode sql, stop⟩ with
            | ok out | err e =>
                simp only [hrun] at h
                cases h
            | panic q =>
                simp only [hrun] at h
                cases h
                rfl
        | err e =>
            rw [hpush] at h
            cases h
        | panic q =>
            rw [hpush] at h
            cases h
            cases token with
            | placeholder text => exact ⟨state, text, hpush⟩
            | copied | byte => cases hpush
      · rw [scanLoop, run_bind_ok (c := ⟨encode sql, index⟩) rfl, if_neg (Nat.not_lt.mpr hge)] at h
        cases h

theorem run_scan (sql : List Char) (state : σ) :
    (scan replaceToken sql state).run () ⟨encode sql, 0⟩ =
      (scanLoop replaceToken sql ((encode sql).length + 1) state).run () ⟨encode sql, 0⟩ := rfl

/-- No slice of the scan panics, each turn of the loop goes forward within the text, and a panic of the scan is
one of the replacement. -/
structure ScansSafely (replaceToken : σ → List Char → Outcome QuackError (List Char × σ)) (sql : String) :
    Prop where
  slices : ∀ state, ∀ slice ∈ scanSlices replaceToken state sql, slice.text = sql.toList ∧ slice.Sound
  advances : ∀ index, index < (encode sql.toList).length → ∃ token stop,
    (nextToken sql.toList).run () ⟨encode sql.toList, index⟩ = .ok (token, ⟨encode sql.toList, stop⟩) ∧
      index < stop ∧ stop ≤ (encode sql.toList).length
  ends : ∀ state p, scanSql replaceToken state sql = .panic p → ∃ state token,
    replaceToken state token = .panic p

theorem scanSql_safe (replaceToken : σ → List Char → Outcome QuackError (List Char × σ)) (sql : String) :
    ScansSafely replaceToken sql := by
  refine ⟨fun state => EmitsAt.withBudget emits_scanLoop, fun index hlt => ?_, fun state p h => ?_⟩
  · obtain ⟨token, stop, htakes, hforward, hstop⟩ := nextToken_takes hlt
    exact ⟨token, stop, htakes.run, hforward, hstop⟩
  · rw [scanSql] at h
    cases hrun : (scan replaceToken sql.toList state).run () ⟨encode sql.toList, 0⟩ with
    | ok out | err e =>
        rw [hrun] at h
        cases h
    | panic q =>
        rw [hrun] at h
        cases h
        rw [run_scan] at hrun
        exact scanLoop_panic (Nat.zero_le _) (Nat.lt_succ_self _) hrun

theorem scanToken_high {c : Char} (hc : ¬ c.toNat < 128) (previous : Option Char) (rest : List Char) :
    scanToken previous c rest = (.other c, rest) := by
  have hne {d : Char} (hd : d.toNat < 128) : c ≠ d := by
    rintro rfl
    exact hc hd
  rw [scanToken, if_neg (hne (by decide)), if_neg (hne (by decide)), if_neg fun h => hne (by decide) h.1,
    if_neg fun h => hne (by decide) h.1, if_neg (hne (by decide)), if_neg fun h => hne (by decide) h.1]

/-- The bytes of a character outside ASCII are pushed one by one. -/
theorem run_scanLoop_high {high tail : Bytes} (hhigh : ∀ byte ∈ high, 128 ≤ byte.toNat) {index turns : Nat}
    {state : σ} (h : (encode sql).drop index = high ++ tail) :
    (scanLoop replaceToken sql (turns + high.length) state).run () ⟨encode sql, index⟩ = (do
      let ((output, state), c) ←
        (scanLoop replaceToken sql turns state).run () ⟨encode sql, index + high.length⟩
      pure ((high.map charOfByte ++ output, state), c)) := by
  induction high generalizing index with
  | nil =>
      show (scanLoop replaceToken sql turns state).run () ⟨encode sql, index⟩ = _
      cases (scanLoop replaceToken sql turns state).run () ⟨encode sql, index⟩ with
      | ok out | err e | panic p => rfl
  | cons byte high ih =>
      obtain ⟨hbyte, hhigh⟩ := List.forall_mem_cons.mp hhigh
      obtain ⟨hlt, hhere, -, htail⟩ := lt_of_drop h
      have hread : (encode sql)[index]? = some byte := by rw [List.getElem?_eq_getElem hlt, hhere]
      have hindex : index + (byte :: high).length = index + 1 + high.length := by
        rw [List.length_cons]
        omega
      rw [hindex]
      have hturn := @run_scanLoop_succ sql σ replaceToken (turns + high.length) state
        ⟨encode sql, index⟩ _ _ hlt (nextToken_high hread hbyte)
      rw [List.length_cons, ← Nat.add_assoc, hturn]
      show (do
        let ((output, state), c) ←
          (scanLoop replaceToken sql (turns + high.length) state).run () ⟨encode sql, index + 1⟩
        pure (([charOfByte byte] ++ output, state), c)) = _
      rw [ih hhigh htail]
      cases (scanLoop replaceToken sql turns state).run () ⟨encode sql, index + 1 + high.length⟩ with
      | ok out | err e | panic p => rfl

/-- What is pushed for a token at an ASCII character. -/
theorem pushToken_tokenOf {state : σ} {token : SqlToken} (h : ∀ c, token = .other c → IsAscii c) :
    pushToken replaceToken state (tokenOf token) = QuackProtocol.pushToken replaceToken state token := by
  cases token with
  | region | placeholder => rfl
  | other c =>
      rw [QuackProtocol.pushToken, pushBytes_ascii (h c rfl)]
      rfl

theorem run_scanLoop_ascii {c : Char} (hc : c.toNat < 128) (front rest : List Char) {turns : Nat}
    {state : σ} :
    (scanLoop replaceToken (front ++ c :: rest) (turns + 1) state).run ()
        ⟨encode (front ++ c :: rest), (encode front).length⟩ = (do
      let (piece, state) ← QuackProtocol.pushToken replaceToken state (scanToken front.getLast? c rest).1
      let ((output, state), c') ← (scanLoop replaceToken (front ++ c :: rest) turns state).run ()
        ⟨encode (front ++ c :: rest), (encode (front ++ (scanToken front.getLast? c rest).1.text)).length⟩
      pure ((piece ++ output, state), c')) := by
  have hlt : (encode front).length < (encode (front ++ c :: rest)).length := by
    rw [length_encode_behind hc]
    omega
  have hother : ∀ d, (scanToken front.getLast? c rest).1 = .other d → IsAscii d := by
    intro d hd
    have hsound := (scanToken_sound front.getLast? c rest).1
    rw [hd] at hsound
    rw [← (List.cons.inj hsound).1]
    exact hc
  rw [← pushToken_tokenOf hother]
  exact run_scanLoop_succ hlt (nextToken_ascii front hc rest)

theorem run_scanLoop_other {c : Char} (hc : ¬ c.toNat < 128) (front rest : List Char) {turns : Nat}
    {state : σ} :
    (scanLoop replaceToken (front ++ c :: rest) (turns + (String.utf8EncodeChar c).length) state).run ()
        ⟨encode (front ++ c :: rest), (encode front).length⟩ = (do
      let ((output, state), c') ← (scanLoop replaceToken (front ++ c :: rest) turns state).run ()
        ⟨encode (front ++ c :: rest), (encode (front ++ [c])).length⟩
      pure ((pushBytes c ++ output, state), c')) := by
  have hdrop : (encode (front ++ c :: rest)).drop (encode front).length =
      String.utf8EncodeChar c ++ encode rest := by
    rw [encode_append, List.drop_left, encode_cons]
  have hindex : (encode front).length + (String.utf8EncodeChar c).length = (encode (front ++ [c])).length := by
    rw [encode_append, List.length_append, encode_cons, encode_nil, List.append_nil]
  rw [run_scanLoop_high (encodeChar_high hc) hdrop, hindex]
  rfl

/-- From a position between two characters the loop does what the scanner over characters does. -/
theorem run_scanLoop (front text : List Char) {turns : Nat} {state : σ}
    (hturns : (encode text).length < turns) :
    (scanLoop replaceToken (front ++ text) turns state).run ()
        ⟨encode (front ++ text), (encode front).length⟩ = (do
      let result ← QuackProtocol.scanSql replaceToken state (scanTokens front.getLast? text)
      pure (result, ⟨encode (front ++ text), (encode (front ++ text)).length⟩)) := by
  generalize hprevious : front.getLast? = previous
  induction previous, text using scanTokens.induct generalizing front turns state with
  | case1 previous =>
      obtain ⟨turns, rfl⟩ := Nat.exists_eq_add_one.mpr (Nat.zero_lt_of_lt hturns)
      have hend : ¬ (encode front).length < (encode (front ++ [])).length := by simp
      rw [scanTokens, scanLoop, run_bind_ok (c := ⟨encode (front ++ []), (encode front).length⟩) rfl, if_neg hend,
        List.append_nil]
      rfl
  | case2 previous c rest turn ih =>
      have hsound : c :: rest = turn.1.text ++ turn.2 := (scanToken_sound previous c rest).1
      have hne : turn.1.text ≠ [] := scanToken_text_ne_nil previous c rest
      have hnext {turns : Nat} (state : σ) (h : (encode turn.2).length < turns) := by
        have hrun := @ih (front ++ turn.1.text) turns state h (List.getLast?_append_of_ne_nil _ hne)
        rwa [List.append_assoc, ← hsound] at hrun
      rw [scanTokens, scanSql_token]
      by_cases hc : c.toNat < 128
      · obtain ⟨turns, rfl⟩ := Nat.exists_eq_add_one.mpr (Nat.zero_lt_of_lt hturns)
        have hfewer : (encode turn.2).length < turns := by
          have hpos := length_encode_pos hne
          rw [hsound, encode_append, List.length_append] at hturns
          omega
        rw [run_scanLoop_ascii hc, hprevious]
        cases QuackProtocol.pushToken replaceToken state turn.1 with
        | ok result =>
            simp only [Outcome.ok_bind]
            rw [hnext result.2 hfewer]
            cases QuackProtocol.scanSql replaceToken result.2 (scanTokens turn.1.text.getLast? turn.2) with
            | ok out | err e | panic p => rfl
        | err e | panic p => rfl
      · have hturn : turn = (.other c, rest) := scanToken_high hc previous rest
        rw [encode_cons, List.length_append] at hturns
        obtain ⟨turns, rfl⟩ : ∃ fewer, turns = fewer + (String.utf8EncodeChar c).length :=
          ⟨turns - (String.utf8EncodeChar c).length, by omega⟩
        simp only [hturn, SqlToken.text] at hnext
        rw [scanToken_high hc, run_scanLoop_other hc, hnext state (by omega)]
        show _ = (do
          let result ← (do
            let (output, state) ← QuackProtocol.scanSql replaceToken state (scanTokens [c].getLast? rest)
            pure (pushBytes c ++ output, state))
          pure (result, _))
        cases QuackProtocol.scanSql replaceToken state (scanTokens [c].getLast? rest) with
        | ok out | err e | panic p => rfl

/-- The scan over the bytes of a text is the scan over its characters. -/
theorem scanSql_eq (replaceToken : σ → List Char → Outcome QuackError (List Char × σ)) (state : σ)
    (sql : String) :
    scanSql replaceToken state sql =
      QuackProtocol.scanSql replaceToken state (scanTokens none sql.toList) := by
  have hloop := @run_scanLoop σ replaceToken [] sql.toList _ state (Nat.lt_succ_self _)
  rw [List.nil_append, encode_nil, List.length_nil] at hloop
  rw [scanSql, run_scan, hloop]
  cases hscan : QuackProtocol.scanSql replaceToken state (scanTokens none sql.toList) with
  | ok out | err e | panic p =>
      rw [List.getLast?_nil, hscan]
      rfl

end

end QuackProtocol.SqlBytes
