import Mathlib.Data.List.Chain
import Mathlib.Data.List.TakeWhile
import Mathlib.Tactic.Common

/-! The lexical structure of SQL texts: quoted regions in which a quote is doubled, comments to the end of the
line, comments between marks, and other characters. A lexeme can stand before some characters and not
before others, and a text is its lexemes if each can stand before what follows; regions may be left
open at the end of the text. -/

namespace Lexing

inductive Lexeme where
  | quoted (text : List Char)
  | line (text : List Char)
  | block (text : List Char)
  | other (c : Char)
  deriving DecidableEq

def Lexeme.text : Lexeme → List Char
  | quoted text => text
  | line text => text
  | block text => text
  | other c => [c]

def spell (lexemes : List Lexeme) : List Char := lexemes.flatMap Lexeme.text

@[simp] theorem spell_nil : spell [] = [] := rfl

@[simp] theorem spell_cons (lexeme : Lexeme) (lexemes : List Lexeme) :
    spell (lexeme :: lexemes) = lexeme.text ++ spell lexemes := rfl

theorem spell_append (front back : List Lexeme) : spell (front ++ back) = spell front ++ spell back :=
  List.flatMap_append

/-- The characters of a word, one by one. -/
def others (word : List Char) : List Lexeme := word.map .other

theorem spell_others (word : List Char) : spell (others word) = word := by
  induction word with
  | nil => rfl
  | cons c word ih =>
      rw [others, List.map_cons, spell_cons, ← others, ih]
      rfl

/-- Text between quotes, each quote in it doubled. -/
inductive Quoted (quote : Char) : List Char → Prop where
  | nil : Quoted quote []
  | char {c : Char} {text : List Char} (different : c ≠ quote) (rest : Quoted quote text) :
      Quoted quote (c :: text)
  | pair {text : List Char} (rest : Quoted quote text) : Quoted quote (quote :: quote :: text)

/-- No end mark of a comment in the text. -/
def Unended (text : List Char) : Prop := text.IsChain fun c d => ¬ (c = '*' ∧ d = '/')

/-- The character begins no region before the next one. -/
structure Plain (c : Char) (next : Option Char) : Prop where
  quote : c ≠ '\'' ∧ c ≠ '"'
  line : ¬ (c = '-' ∧ next = some '-')
  block : ¬ (c = '/' ∧ next = some '*')

/-- A lexeme and the character after it, if there is one. -/
inductive Stands : Lexeme → Option Char → Prop where
  | quoted {quote : Char} {body : List Char} {next : Option Char} (isQuote : quote = '\'' ∨ quote = '"')
      (inside : Quoted quote body) (closed : next ≠ some quote) :
      Stands (.quoted (quote :: (body ++ [quote]))) next
  | openQuoted {quote : Char} {body : List Char} (isQuote : quote = '\'' ∨ quote = '"')
      (inside : Quoted quote body) : Stands (.quoted (quote :: body)) none
  | line {body : List Char} {next : Option Char} (inside : '\n' ∉ body)
      (closed : next = none ∨ next = some '\n') : Stands (.line ('-' :: '-' :: body)) next
  | block {body : List Char} {next : Option Char} (inside : Unended (body ++ ['*'])) :
      Stands (.block ('/' :: '*' :: (body ++ ['*', '/']))) next
  | openBlock {body : List Char} (inside : Unended body) : Stands (.block ('/' :: '*' :: body)) none
  | other {c : Char} {next : Option Char} (plain : Plain c next) : Stands (.other c) next

/-- Each lexeme can stand where it is, before the given character. -/
def Fitting : List Lexeme → Option Char → Prop
  | [], _ => True
  | lexeme :: lexemes, next =>
    Stands lexeme ((spell lexemes).head?.or next) ∧ Fitting lexemes next

/-- The lexemes of a text. -/
def Lexes (text : List Char) (lexemes : List Lexeme) : Prop :=
  spell lexemes = text ∧ Fitting lexemes none

theorem fitting_append {front back : List Lexeme} {next : Option Char} :
    Fitting (front ++ back) next ↔ Fitting front ((spell back).head?.or next) ∧ Fitting back next := by
  induction front with
  | nil => simp [Fitting]
  | cons lexeme front ih =>
      have hhead : (spell (front ++ back)).head?.or next =
          (spell front).head?.or ((spell back).head?.or next) := by
        rw [spell_append, List.head?_append, Option.or_assoc]
      rw [List.cons_append, Fitting, Fitting, ih, hhead, and_assoc]

theorem Stands.text_ne_nil {lexeme : Lexeme} {next : Option Char} (h : Stands lexeme next) :
    lexeme.text ≠ [] := by
  cases h <;> exact List.cons_ne_nil _ _

/-- A character that begins no region, whatever comes after it. -/
def Inert (c : Char) : Prop := c ≠ '\'' ∧ c ≠ '"' ∧ c ≠ '-' ∧ c ≠ '/'

theorem Inert.plain {c : Char} (h : Inert c) (next : Option Char) : Plain c next :=
  ⟨⟨h.1, h.2.1⟩, fun hline => h.2.2.1 hline.1, fun hblock => h.2.2.2 hblock.1⟩

theorem fitting_others {word : List Char} (h : ∀ c ∈ word, Inert c) (next : Option Char) :
    Fitting (others word) next := by
  induction word with
  | nil => trivial
  | cons c word ih =>
      obtain ⟨hc, hword⟩ := List.forall_mem_cons.mp h
      exact ⟨.other (hc.plain _), ih hword⟩

/-! ### Finding the lexemes -/

/-- What is read behind an opening quote, and the rest. -/
def spanQuoted (quote : Char) : List Char → List Char × List Char
  | [] => ([], [])
  | c :: rest =>
    if c = quote then
      match rest with
      | [] => ([c], [])
      | d :: rest =>
        if d = quote then (c :: d :: (spanQuoted quote rest).1, (spanQuoted quote rest).2)
        else ([c], d :: rest)
    else (c :: (spanQuoted quote rest).1, (spanQuoted quote rest).2)

/-- What is read behind the mark that begins a comment, and the rest. -/
def spanBlock : List Char → List Char × List Char
  | '*' :: '/' :: rest => (['*', '/'], rest)
  | c :: rest => (c :: (spanBlock rest).1, (spanBlock rest).2)
  | [] => ([], [])

def spanLine (text : List Char) : List Char × List Char :=
  (text.takeWhile fun c => c ≠ '\n', text.dropWhile fun c => c ≠ '\n')

/-- The region that begins a text, and the rest. -/
def region : List Char → Option (Lexeme × List Char)
  | '\'' :: rest => some (.quoted ('\'' :: (spanQuoted '\'' rest).1), (spanQuoted '\'' rest).2)
  | '"' :: rest => some (.quoted ('"' :: (spanQuoted '"' rest).1), (spanQuoted '"' rest).2)
  | '-' :: '-' :: rest => some (.line ('-' :: '-' :: (spanLine rest).1), (spanLine rest).2)
  | '/' :: '*' :: rest => some (.block ('/' :: '*' :: (spanBlock rest).1), (spanBlock rest).2)
  | _ => none

section
variable {text rest body : List Char} {quote : Char}

theorem spanQuoted_char {c : Char} (h : c ≠ quote) (rest : List Char) :
    spanQuoted quote (c :: rest) = (c :: (spanQuoted quote rest).1, (spanQuoted quote rest).2) := by
  cases rest <;> simp [spanQuoted, h]

theorem spanQuoted_pair (quote : Char) (rest : List Char) :
    spanQuoted quote (quote :: quote :: rest) =
      (quote :: quote :: (spanQuoted quote rest).1, (spanQuoted quote rest).2) := by
  rw [spanQuoted, if_pos rfl]
  exact if_pos rfl

theorem spanQuoted_close (h : rest.head? ≠ some quote) :
    spanQuoted quote (quote :: rest) = ([quote], rest) := by
  cases rest with
  | nil =>
      rw [spanQuoted, if_pos rfl]
  | cons d rest =>
      rw [spanQuoted, if_pos rfl]
      exact if_neg fun heq => h (congrArg some heq)

theorem spanQuoted_append (quote : Char) (text : List Char) :
    (spanQuoted quote text).1 ++ (spanQuoted quote text).2 = text := by
  induction text using spanQuoted.induct quote with
  | case1 => rfl
  | case2 => rw [spanQuoted_close (by simp), List.append_nil]
  | case3 rest ih => rw [spanQuoted_pair, List.cons_append, List.cons_append, ih]
  | case4 d rest hd =>
      rw [spanQuoted_close (by simpa using hd)]
      rfl
  | case5 c rest hc ih => rw [spanQuoted_char hc, List.cons_append, ih]

theorem spanBlock_append (text : List Char) : (spanBlock text).1 ++ (spanBlock text).2 = text := by
  induction text using spanBlock.induct with
  | case1 => rfl
  | case2 c rest hnot ih => simp [spanBlock, ih]
  | case3 => rfl

theorem spanLine_append (text : List Char) : (spanLine text).1 ++ (spanLine text).2 = text :=
  List.takeWhile_append_dropWhile

/-- A quoted text is read to its end, with the closing quote where there is one. -/
theorem spanQuoted_closed (h : Quoted quote body) (hrest : rest.head? ≠ some quote) :
    spanQuoted quote (body ++ quote :: rest) = (body ++ [quote], rest) := by
  induction h with
  | nil => exact spanQuoted_close hrest
  | char different _ ih =>
      rw [List.cons_append, spanQuoted_char different, ih]
      rfl
  | pair _ ih =>
      rw [List.cons_append, List.cons_append, spanQuoted_pair, ih]
      rfl

theorem spanQuoted_open (h : Quoted quote body) : spanQuoted quote body = (body, []) := by
  induction h with
  | nil => rfl
  | char different _ ih => rw [spanQuoted_char different, ih]
  | pair _ ih => rw [spanQuoted_pair, ih]

/-- The converse: what is read is closed before the rest, or it is all of the text. -/
theorem quoted_spanQuoted (quote : Char) (text : List Char) :
    (∃ body, Quoted quote body ∧ (spanQuoted quote text).1 = body ++ [quote] ∧
      (spanQuoted quote text).2.head? ≠ some quote) ∨
    (Quoted quote (spanQuoted quote text).1 ∧ (spanQuoted quote text).2 = []) := by
  induction text using spanQuoted.induct quote with
  | case1 => exact .inr ⟨.nil, rfl⟩
  | case2 =>
      rw [spanQuoted_close (by simp)]
      exact .inl ⟨[], .nil, rfl, by simp⟩
  | case3 rest ih =>
      rw [spanQuoted_pair]
      rcases ih with ⟨body, hbody, htext, hrest⟩ | ⟨hbody, hrest⟩
      · exact .inl ⟨quote :: quote :: body, .pair hbody, by rw [htext]; rfl, hrest⟩
      · exact .inr ⟨.pair hbody, hrest⟩
  | case4 d rest hd =>
      have hclosed : (d :: rest).head? ≠ some quote := by simpa using hd
      rw [spanQuoted_close hclosed]
      exact .inl ⟨[], .nil, rfl, hclosed⟩
  | case5 c rest hc ih =>
      rw [spanQuoted_char hc]
      rcases ih with ⟨body, hbody, htext, hrest⟩ | ⟨hbody, hrest⟩
      · exact .inl ⟨c :: body, .char hc hbody, by rw [htext]; rfl, hrest⟩
      · exact .inr ⟨.char hc hbody, hrest⟩

/-- A comment is read to its first end mark. -/
theorem spanBlock_closed (h : Unended (body ++ ['*'])) :
    spanBlock (body ++ '*' :: '/' :: rest) = (body ++ ['*', '/'], rest) := by
  induction body with
  | nil => rfl
  | cons c body ih =>
      have htail : Unended (body ++ ['*']) := List.IsChain.tail h
      have hstep : spanBlock (c :: (body ++ '*' :: '/' :: rest)) =
          (c :: (spanBlock (body ++ '*' :: '/' :: rest)).1, (spanBlock (body ++ '*' :: '/' :: rest)).2) := by
        cases body with
        | nil => simp [spanBlock]
        | cons d body =>
            have hmark := (List.isChain_cons_cons.mp h).1
            rw [List.cons_append, spanBlock]
            rintro rest rfl heq
            cases heq
            exact hmark ⟨rfl, rfl⟩
      rw [List.cons_append, hstep, ih htail]
      rfl

theorem spanBlock_open (h : Unended body) : spanBlock body = (body, []) := by
  induction body with
  | nil => rfl
  | cons c body ih =>
      have hstep : spanBlock (c :: body) = (c :: (spanBlock body).1, (spanBlock body).2) := by
        cases body with
        | nil => simp [spanBlock]
        | cons d body =>
            have hmark := (List.isChain_cons_cons.mp h).1
            rw [spanBlock]
            rintro rest rfl heq
            cases heq
            exact hmark ⟨rfl, rfl⟩
      rw [hstep, ih (List.IsChain.tail h)]

theorem unended_spanBlock (text : List Char) :
    (∃ body, Unended (body ++ ['*']) ∧ (spanBlock text).1 = body ++ ['*', '/']) ∨
    (Unended (spanBlock text).1 ∧ (spanBlock text).2 = []) := by
  induction text using spanBlock.induct with
  | case1 rest => exact .inl ⟨[], List.isChain_singleton _, rfl⟩
  | case2 c rest hnot ih =>
      have hstep : spanBlock (c :: rest) = (c :: (spanBlock rest).1, (spanBlock rest).2) := by
        rw [spanBlock]
        exact hnot
      rw [hstep]
      have hfirst : ∀ d tail, (spanBlock rest).1 = d :: tail → ¬ (c = '*' ∧ d = '/') := by
        rintro d tail htext ⟨rfl, rfl⟩
        have hrest := spanBlock_append rest
        rw [htext, List.cons_append] at hrest
        exact hnot _ rfl hrest.symm
      rcases ih with ⟨body, hbody, htext⟩ | ⟨hbody, hrest⟩
      · refine .inl ⟨c :: body, ?_, by rw [htext]; rfl⟩
        cases body with
        | nil => exact List.isChain_cons_cons.mpr ⟨by simp, hbody⟩
        | cons d body => exact List.isChain_cons_cons.mpr ⟨hfirst d _ htext, hbody⟩
      · refine .inr ⟨?_, hrest⟩
        cases htext : (spanBlock rest).1 with
        | nil => exact List.isChain_singleton _
        | cons d tail =>
            rw [htext] at hbody
            exact List.isChain_cons_cons.mpr ⟨hfirst d tail htext, hbody⟩
  | case3 => exact .inr ⟨.nil, rfl⟩

theorem spanLine_closed (h : '\n' ∉ body) (hrest : rest.head? = none ∨ rest.head? = some '\n') :
    spanLine (body ++ rest) = (body, rest) := by
  have hbody : ∀ c ∈ body, decide (c ≠ '\n') = true := fun c hc =>
    decide_eq_true fun heq => h (heq ▸ hc)
  rw [spanLine, List.takeWhile_append_of_pos hbody, List.dropWhile_append_of_pos hbody]
  cases rest with
  | nil => simp
  | cons c rest =>
      rcases hrest with hrest | hrest
      · cases hrest
      · cases hrest
        simp

theorem spanLine_ends (text : List Char) : '\n' ∉ (spanLine text).1 ∧
    ((spanLine text).2.head? = none ∨ (spanLine text).2.head? = some '\n') := by
  constructor
  · intro hmem
    have := List.mem_takeWhile_imp hmem
    simp at this
  · cases hrest : (spanLine text).2 with
    | nil => exact .inl rfl
    | cons c rest =>
        right
        have hhead := List.head?_dropWhile_not (fun c : Char => decide (c ≠ '\n')) text
        have hdrop : text.dropWhile (fun c => decide (c ≠ '\n')) = c :: rest := hrest
        rw [hdrop] at hhead
        simpa using hhead

end

section
variable {text rest : List Char} {lexeme : Lexeme} {c : Char}

theorem quoted_region {quote : Char} (isQuote : quote = '\'' ∨ quote = '"') (text : List Char) :
    quote :: text = quote :: (spanQuoted quote text).1 ++ (spanQuoted quote text).2 ∧
      Stands (.quoted (quote :: (spanQuoted quote text).1)) (spanQuoted quote text).2.head? := by
  refine ⟨by rw [List.cons_append, spanQuoted_append], ?_⟩
  rcases quoted_spanQuoted quote text with ⟨body, hbody, htext, hrest⟩ | ⟨hbody, hrest⟩
  · rw [htext]
    exact .quoted isQuote hbody hrest
  · rw [hrest]
    exact .openQuoted isQuote hbody

/-- A region that is found can stand where it is found. -/
theorem region_sound (h : region text = some (lexeme, rest)) :
    text = lexeme.text ++ rest ∧ Stands lexeme rest.head? ∧ ∀ c, lexeme ≠ .other c := by
  unfold region at h
  split at h
  · cases h
    exact ⟨(quoted_region (.inl rfl) _).1, (quoted_region (.inl rfl) _).2, nofun⟩
  · cases h
    exact ⟨(quoted_region (.inr rfl) _).1, (quoted_region (.inr rfl) _).2, nofun⟩
  · rename_i text
    cases h
    obtain ⟨hinside, hrest⟩ := spanLine_ends text
    refine ⟨?_, .line hinside hrest, nofun⟩
    rw [Lexeme.text, List.cons_append, List.cons_append, spanLine_append]
  · rename_i text
    cases h
    refine ⟨by rw [Lexeme.text, List.cons_append, List.cons_append, spanBlock_append], ?_, nofun⟩
    rcases unended_spanBlock text with ⟨body, hbody, htext⟩ | ⟨hbody, hrest⟩
    · rw [htext]
      exact .block hbody
    · rw [hrest]
      exact .openBlock hbody
  · cases h

theorem region_complete (h : Stands lexeme rest.head?) (hregion : ∀ c, lexeme ≠ .other c) :
    region (lexeme.text ++ rest) = some (lexeme, rest) := by
  have hempty : rest.head? = none → rest = [] := List.head?_eq_none_iff.mp
  generalize hnext : rest.head? = next at h
  cases h with
  | @quoted quote body _ isQuote inside closed =>
      have hspan := @spanQuoted_closed rest body quote inside (by rwa [hnext])
      have htext : (Lexeme.quoted (quote :: (body ++ [quote]))).text ++ rest =
          quote :: (body ++ quote :: rest) := by simp [Lexeme.text]
      rw [htext]
      rcases isQuote with rfl | rfl <;> rw [region, hspan]
  | @openQuoted quote body isQuote inside =>
      obtain rfl := hempty hnext
      have hspan := spanQuoted_open inside
      rw [List.append_nil, Lexeme.text]
      rcases isQuote with rfl | rfl <;> rw [region, hspan]
  | @line body _ inside closed =>
      rw [Lexeme.text, List.cons_append, List.cons_append, region,
        spanLine_closed inside (by rwa [hnext])]
  | @block body _ inside =>
      have htext : (Lexeme.block ('/' :: '*' :: (body ++ ['*', '/']))).text ++ rest =
          '/' :: '*' :: (body ++ '*' :: '/' :: rest) := by simp [Lexeme.text]
      rw [htext, region, spanBlock_closed inside]
  | @openBlock body inside =>
      obtain rfl := hempty hnext
      rw [List.append_nil, Lexeme.text, region, spanBlock_open inside]
  | other => exact absurd rfl (hregion _)

theorem region_eq_none_iff : region (c :: rest) = none ↔ Plain c rest.head? := by
  constructor
  · intro h
    refine ⟨⟨?_, ?_⟩, ?_, ?_⟩
    · rintro rfl
      cases h
    · rintro rfl
      cases h
    · rintro ⟨rfl, hnext⟩
      obtain ⟨tail, rfl⟩ := List.head?_eq_some_iff.mp hnext
      cases h
    · rintro ⟨rfl, hnext⟩
      obtain ⟨tail, rfl⟩ := List.head?_eq_some_iff.mp hnext
      cases h
  · rintro ⟨hquote, hline, hblock⟩
    unfold region
    split
    · rename_i heq
      cases heq
      exact absurd rfl hquote.1
    · rename_i heq
      cases heq
      exact absurd rfl hquote.2
    · rename_i heq
      cases heq
      exact absurd ⟨rfl, rfl⟩ hline
    · rename_i heq
      cases heq
      exact absurd ⟨rfl, rfl⟩ hblock
    · rfl

end

/-- The lexeme that begins with the given character, and the rest. -/
def firstLexeme (c : Char) (rest : List Char) : Lexeme × List Char :=
  (region (c :: rest)).getD (.other c, rest)

theorem firstLexeme_sound (c : Char) (rest : List Char) :
    c :: rest = (firstLexeme c rest).1.text ++ (firstLexeme c rest).2 ∧
      Stands (firstLexeme c rest).1 (firstLexeme c rest).2.head? := by
  rw [firstLexeme]
  cases hregion : region (c :: rest) with
  | none => exact ⟨rfl, .other (region_eq_none_iff.mp hregion)⟩
  | some found =>
      have hfound : region (c :: rest) = some (found.1, found.2) := hregion
      obtain ⟨htext, hstands, -⟩ := region_sound hfound
      exact ⟨htext, hstands⟩

theorem length_firstLexeme (c : Char) (rest : List Char) :
    (firstLexeme c rest).2.length < (c :: rest).length := by
  obtain ⟨htext, hstands⟩ := firstLexeme_sound c rest
  have hpos := List.length_pos_iff.mpr hstands.text_ne_nil
  have hlength := congrArg List.length htext
  rw [List.length_append] at hlength
  omega

/-- The lexemes of a text, found one after the other. -/
def lexemes : List Char → List Lexeme
  | [] => []
  | c :: rest => (firstLexeme c rest).1 :: lexemes (firstLexeme c rest).2
termination_by text => text.length
decreasing_by exact length_firstLexeme c rest

theorem firstLexeme_complete {lexeme : Lexeme} {rest : List Char} (h : Stands lexeme rest.head?) :
    ∃ c tail, lexeme.text ++ rest = c :: tail ∧ firstLexeme c tail = (lexeme, rest) := by
  cases hlexeme : lexeme with
  | other c =>
      rw [hlexeme] at h
      cases h with
      | other plain =>
          refine ⟨c, rest, rfl, ?_⟩
          rw [firstLexeme, region_eq_none_iff.mpr plain, Option.getD_none]
  | quoted | line | block =>
      rw [← hlexeme]
      obtain ⟨c, tail, htext⟩ := List.exists_cons_of_ne_nil h.text_ne_nil
      refine ⟨c, tail ++ rest, by rw [htext]; rfl, ?_⟩
      rw [firstLexeme, ← List.cons_append, ← htext,
        region_complete h (by rw [hlexeme]; exact nofun), Option.getD_some]

/-- A text has one list of lexemes. -/
theorem lexes_iff {text : List Char} {found : List Lexeme} : Lexes text found ↔ found = lexemes text := by
  constructor
  · rintro ⟨rfl, hfits⟩
    induction found with
    | nil => rw [spell_nil, lexemes]
    | cons lexeme found ih =>
        obtain ⟨hstands, hfits⟩ := hfits
        rw [Option.or_none] at hstands
        obtain ⟨c, tail, htext, hfirst⟩ := firstLexeme_complete hstands
        rw [spell_cons, htext, lexemes, hfirst, ← ih hfits]
  · rintro rfl
    induction text using lexemes.induct with
    | case1 =>
        rw [lexemes]
        exact ⟨rfl, trivial⟩
    | case2 c rest ih =>
        obtain ⟨htext, hstands⟩ := firstLexeme_sound c rest
        rw [lexemes]
        refine ⟨by rw [spell_cons, ih.1, ← htext], ?_, ih.2⟩
        rw [ih.1, Option.or_none]
        exact hstands

theorem spell_lexemes (text : List Char) : spell (lexemes text) = text := (lexes_iff.mpr rfl).1

theorem fitting_lexemes (text : List Char) : Fitting (lexemes text) none := (lexes_iff.mpr rfl).2

theorem lexemes_spell {found : List Lexeme} (h : Fitting found none) : lexemes (spell found) = found :=
  (lexes_iff.mp ⟨rfl, h⟩).symm

end Lexing
