import QuackProtocol.DecimalTexts

/-! The address of a server (`client.rs`). `HostPort` is the grammar of the part behind the scheme, a host with
an optional port; `Lenient` lists the texts outside of it that the parser takes all the same. -/

open Decoding DecimalDigits

namespace QuackProtocol

def defaultQuackPort : U16 := 9494

/-- `str::split_once`, at the first separator. -/
def splitOnce (separator : Char) : List Char → Option (List Char × List Char)
  | [] => none
  | c :: text =>
    if c = separator then some ([], text)
    else (splitOnce separator text).map fun parts => (c :: parts.1, parts.2)

/-- `str::parse::<u16>`. -/
def parseU16 (text : List Char) : Option U16 := do
  let digits := match text with
    | '+' :: digits => digits
    | digits => digits
  let value ← parseDigits digits
  if value < 2 ^ 16 then some (BitVec.ofNat 16 value) else none

def parsePort (value : List Char) : Result U16 :=
  match parseU16 value with
  | none => .error (.protocol s!"invalid Quack URI port {String.ofList value}")
  | some port =>
    if port = 0 then .error (.protocol s!"invalid Quack URI port {String.ofList value}") else .ok port

/-- The port behind the closing bracket. -/
def parseSuffix : List Char → Result U16
  | ':' :: port => parsePort port
  | _ => .ok defaultQuackPort

def parseHostPort (value : List Char) : Result (List Char × U16) :=
  match value with
  | '[' :: rest =>
    match splitOnce ']' rest with
    | none => .error (.protocol s!"invalid IPv6 Quack URI host {String.ofList value}")
    | some (host, suffix) => (parseSuffix suffix).map fun port => (host, port)
  | value =>
    match value.count ':' with
    | 0 => .ok (value, defaultQuackPort)
    | 1 =>
      match splitOnce ':' value with
      | none => .error (.protocol s!"invalid Quack URI {String.ofList value}")
      | some (host, port) =>
        if host = [] then .error (.protocol s!"invalid Quack URI host {String.ofList value}")
        else (parsePort port).map fun port => (host, port)
    | _ => .error (.protocol s!"IPv6 Quack URI hosts must be enclosed in []: {String.ofList value}")

/-- A decimal number in 1..=65535. -/
structure PortText (text : List Char) (port : U16) : Prop where
  nonempty : text ≠ []
  digits : IsDigits text
  positive : 1 ≤ value text
  value_eq : value text = port.toNat

/-- A host without brackets. -/
structure BareHost (host : List Char) : Prop where
  nonempty : host ≠ []
  noColon : ':' ∉ host
  noBracket : host.head? ≠ some '['

/-- `host`, `host:port`, `[host]` or `[host]:port`. -/
inductive HostPort : List Char → List Char → U16 → Prop where
  | host {host} : BareHost host → HostPort host host defaultQuackPort
  | hostPort {host text port} : BareHost host → PortText text port → HostPort (host ++ ':' :: text) host port
  | bracketed {host} : host ≠ [] → ']' ∉ host → HostPort ('[' :: host ++ [']']) host defaultQuackPort
  | bracketedPort {host text port} : host ≠ [] → ']' ∉ host → PortText text port →
      HostPort ('[' :: host ++ ']' :: ':' :: text) host port

/-- The parser takes a text for a host and a port exactly where the grammar does. -/
def AcceptsHostPort (text : List Char) : Prop :=
  ∀ host port, parseHostPort text = .ok (host, port) ↔ HostPort text host port

/-- Texts that are taken though they are no host and port: nothing at all, a port with a sign, brackets around
nothing, and anything that follows the brackets without a colon. -/
inductive Lenient : List Char → Prop where
  | empty : Lenient []
  | signedPort {host text port} : BareHost host → PortText text port → Lenient (host ++ ':' :: '+' :: text)
  | signedBracketedPort {host text port} : ']' ∉ host → PortText text port →
      Lenient ('[' :: host ++ ']' :: ':' :: '+' :: text)
  | emptyBrackets : Lenient ['[', ']']
  | emptyBracketsPort {text port} : PortText text port → Lenient ('[' :: ']' :: ':' :: text)
  | leftover {host rest} : ']' ∉ host → rest ≠ [] → rest.head? ≠ some ':' →
      Lenient ('[' :: host ++ ']' :: rest)

theorem splitOnce_separator {separator : Char} {front : List Char} (h : separator ∉ front) (back : List Char) :
    splitOnce separator (front ++ separator :: back) = some (front, back) := by
  induction front with
  | nil => exact if_pos rfl
  | cons c front ih =>
      obtain ⟨hc, hfront⟩ := not_or.mp (List.mem_cons.not.mp h)
      show (if c = separator then _ else (splitOnce separator (front ++ separator :: back)).map _) = _
      rw [if_neg (Ne.symm hc), ih hfront]
      rfl

theorem splitOnce_eq_some {separator : Char} {text front back : List Char}
    (h : splitOnce separator text = some (front, back)) :
    text = front ++ separator :: back ∧ separator ∉ front := by
  induction text generalizing front with
  | nil => cases h
  | cons c text ih =>
      by_cases hc : c = separator
      · rw [splitOnce, if_pos hc, Option.some.injEq, Prod.mk.injEq] at h
        obtain ⟨rfl, rfl⟩ := h
        exact ⟨congrArg (· :: text) hc, List.not_mem_nil⟩
      · rw [splitOnce, if_neg hc, Option.map_eq_some_iff] at h
        obtain ⟨⟨before, after⟩, hsplit, hparts⟩ := h
        obtain ⟨rfl, rfl⟩ := Prod.mk.inj hparts
        obtain ⟨rfl, hbefore⟩ := ih hsplit
        exact ⟨rfl, List.not_mem_cons_of_ne_of_not_mem (Ne.symm hc) hbefore⟩

/-- A text is cut at the first separator in one way. -/
theorem separator_unique {separator : Char} {front front' back back' : List Char} (hfront : separator ∉ front)
    (hfront' : separator ∉ front') (h : front ++ separator :: back = front' ++ separator :: back') :
    front = front' ∧ back = back' := by
  have hsplit := splitOnce_separator hfront back
  rw [h, splitOnce_separator hfront' back', Option.some.injEq, Prod.mk.injEq] at hsplit
  exact ⟨hsplit.1.symm, hsplit.2.symm⟩

theorem PortText.toNat_lt {text : List Char} {port : U16} (h : PortText text port) : value text < 2 ^ 16 := by
  rw [h.value_eq]
  exact port.isLt

theorem PortText.noSign {text : List Char} {port : U16} (h : PortText text port) (back : List Char) :
    text ≠ '+' :: back := by
  intro heq
  have hsign := h.digits '+' (heq ▸ List.mem_cons_self ..)
  exact (digit_ne hsign).2.2 rfl

theorem PortText.noColon {text : List Char} {port : U16} (h : PortText text port) : ':' ∉ text := by
  intro hmem
  exact absurd (h.digits ':' hmem) (by decide)

/-- A port of digits, for a number that is read from them. -/
theorem portText_iff {text : List Char} {port : U16} :
    PortText text port ↔ text ≠ [] ∧ IsDigits text ∧ value text < 2 ^ 16 ∧
      BitVec.ofNat 16 (value text) = port ∧ port ≠ 0 := by
  refine ⟨fun h => ⟨h.nonempty, h.digits, h.toNat_lt, ?_, ?_⟩, fun ⟨hne, hdigits, hlt, hport, hzero⟩ => ?_⟩
  · rw [h.value_eq, BitVec.ofNat_toNat, BitVec.setWidth_eq]
  · intro hzero
    have hpositive := h.positive
    rw [h.value_eq, hzero] at hpositive
    cases hpositive
  · have hvalue : value text = port.toNat := by
      rw [← hport, BitVec.toNat_ofNat, Nat.mod_eq_of_lt hlt]
    refine ⟨hne, hdigits, ?_, hvalue⟩
    rw [hvalue, Nat.one_le_iff_ne_zero]
    exact fun h => hzero (BitVec.eq_of_toNat_eq h)

theorem parseDigits_eq_some_iff {text : List Char} {n : Nat} :
    parseDigits text = some n ↔ text ≠ [] ∧ IsDigits text ∧ value text = n := by
  have hall : text.all Char.isDigit = true ↔ IsDigits text := List.all_eq_true
  unfold parseDigits
  by_cases hdigits : text ≠ [] ∧ text.all Char.isDigit
  · rw [if_pos hdigits, Option.some_inj]
    exact ⟨fun h => ⟨hdigits.1, hall.mp hdigits.2, h⟩, fun h => h.2.2⟩
  · rw [if_neg hdigits]
    exact ⟨nofun, fun h => absurd ⟨h.1, hall.mpr h.2.1⟩ hdigits⟩

/-- The digits of a port, behind the sign where it has one. -/
def unsigned : List Char → List Char
  | '+' :: digits => digits
  | digits => digits

theorem unsigned_of_ne {text : List Char} (h : ∀ digits, text ≠ '+' :: digits) : unsigned text = text := by
  unfold unsigned
  split
  next digits => exact absurd rfl (h digits)
  next => rfl

theorem parseU16_eq_some_iff {text : List Char} {port : U16} :
    parseU16 text = some port ↔ unsigned text ≠ [] ∧ IsDigits (unsigned text) ∧
      value (unsigned text) < 2 ^ 16 ∧ BitVec.ofNat 16 (value (unsigned text)) = port := by
  show ((parseDigits (unsigned text)).bind fun n =>
    if n < 2 ^ 16 then some (BitVec.ofNat 16 n) else none) = some port ↔ _
  rw [Option.bind_eq_some_iff]
  refine ⟨fun ⟨n, hn, hport⟩ => ?_, fun ⟨hne, hdigits, hlt, hport⟩ => ?_⟩
  · obtain ⟨hne, hdigits, rfl⟩ := parseDigits_eq_some_iff.mp hn
    by_cases hlt : value (unsigned text) < 2 ^ 16
    · rw [if_pos hlt, Option.some_inj] at hport
      exact ⟨hne, hdigits, hlt, hport⟩
    · rw [if_neg hlt] at hport
      cases hport
  · exact ⟨_, parseDigits_eq_some_iff.mpr ⟨hne, hdigits, rfl⟩, by rw [if_pos hlt, hport]⟩

theorem parsePort_eq_ok_iff {text : List Char} {port : U16} :
    parsePort text = .ok port ↔ PortText (unsigned text) port := by
  have hparsed : parsePort text = .ok port ↔ parseU16 text = some port ∧ port ≠ 0 := by
    unfold parsePort
    cases parseU16 text with
    | none => exact ⟨nofun, nofun⟩
    | some number =>
        rw [Option.some_inj]
        by_cases hzero : number = 0
        · simp only [if_pos hzero]
          exact ⟨nofun, fun ⟨heq, hne⟩ => absurd (heq ▸ hzero) hne⟩
        · simp only [if_neg hzero, Except.ok.injEq]
          exact ⟨fun heq => ⟨heq, heq ▸ hzero⟩, fun h => h.1⟩
  rw [hparsed, parseU16_eq_some_iff, portText_iff]
  simp only [and_assoc]

theorem parsePort_digits {text : List Char} {port : U16} (h : PortText text port) :
    parsePort text = .ok port := by
  rw [parsePort_eq_ok_iff, unsigned_of_ne h.noSign]
  exact h

theorem parsePort_signed {text : List Char} {port : U16} (h : PortText text port) :
    parsePort ('+' :: text) = .ok port :=
  parsePort_eq_ok_iff.mpr h

/-- What is read as a port is one, or has a sign before it. -/
theorem parsePort_cases {text : List Char} {port : U16} (h : parsePort text = .ok port) :
    PortText text port ∨ ∃ digits, text = '+' :: digits ∧ PortText digits port := by
  have hport := parsePort_eq_ok_iff.mp h
  by_cases hsign : ∃ digits, text = '+' :: digits
  · obtain ⟨digits, rfl⟩ := hsign
    exact .inr ⟨digits, rfl, hport⟩
  · rw [unsigned_of_ne fun digits heq => hsign ⟨digits, heq⟩] at hport
    exact .inl hport

/-! ### What the parser takes -/

theorem parseHostPort_brackets {host : List Char} (h : ']' ∉ host) (suffix : List Char) :
    parseHostPort ('[' :: host ++ ']' :: suffix) = (parseSuffix suffix).map fun port => (host, port) := by
  show (match splitOnce ']' (host ++ ']' :: suffix) with
    | none => _
    | some (host, suffix) => (parseSuffix suffix).map fun port => (host, port)) = _
  rw [splitOnce_separator h]

theorem parseSuffix_leftover {rest : List Char} (h : rest.head? ≠ some ':') :
    parseSuffix rest = .ok defaultQuackPort := by
  unfold parseSuffix
  split
  next => exact absurd rfl h
  next => rfl

theorem parseHostPort_bare {text : List Char} (h : text.head? ≠ some '[') :
    parseHostPort text =
      match text.count ':' with
      | 0 => .ok (text, defaultQuackPort)
      | 1 =>
        match splitOnce ':' text with
        | none => .error (.protocol s!"invalid Quack URI {String.ofList text}")
        | some (host, port) =>
          if host = [] then .error (.protocol s!"invalid Quack URI host {String.ofList text}")
          else (parsePort port).map fun port => (host, port)
      | _ => .error (.protocol s!"IPv6 Quack URI hosts must be enclosed in []: {String.ofList text}") := by
  unfold parseHostPort
  split
  next => exact absurd rfl h
  next => rfl

theorem parseHostPort_host {text : List Char} (hbracket : text.head? ≠ some '[') (hcolon : ':' ∉ text) :
    parseHostPort text = .ok (text, defaultQuackPort) := by
  rw [parseHostPort_bare hbracket, List.count_eq_zero.mpr hcolon]
  rfl

theorem BareHost.head?_append {host : List Char} (h : BareHost host) (rest : List Char) :
    (host ++ rest).head? ≠ some '[' := by
  rw [List.head?_append_of_ne_nil _ h.nonempty]
  exact h.noBracket

theorem parseHostPort_hostPort {host port : List Char} (h : BareHost host) (hport : ':' ∉ port) :
    parseHostPort (host ++ ':' :: port) = (parsePort port).map fun port => (host, port) := by
  have hcount : (host ++ ':' :: port).count ':' = 1 := by
    rw [List.count_append, List.count_cons_self, List.count_eq_zero.mpr h.noColon, List.count_eq_zero.mpr hport]
  rw [parseHostPort_bare (h.head?_append _), hcount]
  simp only [splitOnce_separator h.noColon, if_neg h.nonempty]

/-- The parser takes the whole grammar. -/
theorem HostPort.parsed {text host : List Char} {port : U16} (h : HostPort text host port) :
    parseHostPort text = .ok (host, port) := by
  cases h with
  | host hhost => exact parseHostPort_host hhost.noBracket hhost.noColon
  | hostPort hhost hport =>
      rw [parseHostPort_hostPort hhost hport.noColon, parsePort_digits hport]
      rfl
  | bracketed hne hhost =>
      rw [parseHostPort_brackets hhost]
      rfl
  | bracketedPort hne hhost hport =>
      rw [parseHostPort_brackets hhost]
      show (parsePort _).map _ = _
      rw [parsePort_digits hport]
      rfl

theorem parseHostPort_bracket_cases {rest host : List Char} {port : U16}
    (h : parseHostPort ('[' :: rest) = .ok (host, port)) :
    ∃ suffix, rest = host ++ ']' :: suffix ∧ ']' ∉ host ∧ parseSuffix suffix = .ok port := by
  cases hsplit : splitOnce ']' rest with
  | none =>
      rw [parseHostPort] at h
      simp only [hsplit] at h
      cases h
  | some parts =>
      obtain ⟨front, suffix⟩ := parts
      obtain ⟨rfl, hfront⟩ := splitOnce_eq_some hsplit
      rw [← List.cons_append, parseHostPort_brackets hfront] at h
      obtain ⟨number, hport, hpair⟩ := Except.map_eq_ok h
      obtain ⟨rfl, rfl⟩ := Prod.mk.inj hpair
      exact ⟨suffix, rfl, hfront, hport⟩

theorem parseHostPort_bare_cases {text host : List Char} {port : U16} (hbracket : text.head? ≠ some '[')
    (h : parseHostPort text = .ok (host, port)) :
    (':' ∉ text ∧ host = text ∧ port = defaultQuackPort) ∨
      ∃ back, text = host ++ ':' :: back ∧ BareHost host ∧ parsePort back = .ok port := by
  rw [parseHostPort_bare hbracket] at h
  split at h
  next hcount =>
    cases h
    exact .inl ⟨List.count_eq_zero.mp hcount, rfl, rfl⟩
  next hcount =>
    cases hsplit : splitOnce ':' text with
    | none =>
        rw [hsplit] at h
        cases h
    | some parts =>
        obtain ⟨front, back⟩ := parts
        obtain ⟨rfl, hfront⟩ := splitOnce_eq_some hsplit
        simp only [hsplit] at h
        by_cases hempty : front = []
        · rw [if_pos hempty] at h
          cases h
        · rw [if_neg hempty] at h
          obtain ⟨number, hport, hpair⟩ := Except.map_eq_ok h
          obtain ⟨rfl, rfl⟩ := Prod.mk.inj hpair
          rw [List.head?_append_of_ne_nil _ hempty] at hbracket
          exact .inr ⟨back, rfl, ⟨hempty, hfront, hbracket⟩, hport⟩
  next => cases h

/-- The suffix behind the brackets is a port with its colon, or is not read at all. -/
theorem parseSuffix_cases {suffix : List Char} {port : U16} (h : parseSuffix suffix = .ok port) :
    (suffix.head? ≠ some ':' ∧ port = defaultQuackPort) ∨
      ∃ text, suffix = ':' :: text ∧ parsePort text = .ok port := by
  unfold parseSuffix at h
  split at h
  next text => exact .inr ⟨text, rfl, h⟩
  next hcolon =>
    cases h
    refine .inl ⟨fun hhead => ?_, rfl⟩
    obtain ⟨text, rfl⟩ := List.head?_eq_some_iff.mp hhead
    exact hcolon text rfl

/-- What the parser takes is in the grammar, or is one of the texts listed beside it. -/
theorem hostPort_or_lenient {text host : List Char} {port : U16} (h : parseHostPort text = .ok (host, port)) :
    HostPort text host port ∨ Lenient text := by
  by_cases hbracket : text.head? = some '['
  · obtain ⟨rest, rfl⟩ := List.head?_eq_some_iff.mp hbracket
    obtain ⟨suffix, rfl, hhost, hsuffix⟩ := parseHostPort_bracket_cases h
    obtain ⟨hhead, rfl⟩ | ⟨text, rfl, hport⟩ := parseSuffix_cases hsuffix
    · by_cases hrest : suffix = []
      · subst hrest
        by_cases hempty : host = []
        · subst hempty
          exact .inr .emptyBrackets
        · exact .inl (.bracketed hempty hhost)
      · exact .inr (.leftover hhost hrest hhead)
    · obtain hdigits | ⟨digits, rfl, hdigits⟩ := parsePort_cases hport
      · by_cases hempty : host = []
        · subst hempty
          exact .inr (.emptyBracketsPort hdigits)
        · exact .inl (.bracketedPort hempty hhost hdigits)
      · exact .inr (.signedBracketedPort hhost hdigits)
  · obtain ⟨hcolon, rfl, rfl⟩ | ⟨back, rfl, hhost, hport⟩ := parseHostPort_bare_cases hbracket h
    · by_cases hempty : host = []
      · subst hempty
        exact .inr .empty
      · exact .inl (.host ⟨hempty, hcolon, hbracket⟩)
    · obtain hdigits | ⟨digits, rfl, hdigits⟩ := parsePort_cases hport
      · exact .inl (.hostPort hhost hdigits)
      · exact .inr (.signedPort hhost hdigits)

theorem not_hostPort_nil (host : List Char) (port : U16) : ¬ HostPort [] host port := by
  intro h
  generalize htext : ([] : List Char) = text at h
  cases h with
  | host hhost => exact hhost.nonempty htext.symm
  | hostPort hhost hport => exact List.append_ne_nil_of_right_ne_nil _ (List.cons_ne_nil _ _) htext.symm
  | bracketed hne hhost => cases htext
  | bracketedPort hne hhost hport => cases htext

/-- Behind a host without brackets stands its port. -/
theorem HostPort.port_of_bare {front back host : List Char} {port : U16} (hfront : BareHost front)
    (h : HostPort (front ++ ':' :: back) host port) : PortText back port := by
  have hhead := hfront.head?_append (':' :: back)
  generalize htext : front ++ ':' :: back = text at h hhead
  cases h with
  | host hhost =>
      refine absurd ?_ hhost.noColon
      rw [← htext]
      exact List.mem_append_right _ (List.mem_cons_self ..)
  | hostPort hhost hport =>
      obtain ⟨-, rfl⟩ := separator_unique hfront.noColon hhost.noColon htext
      exact hport
  | bracketed hne hhost => exact absurd rfl hhead
  | bracketedPort hne hhost hport => exact absurd rfl hhead

/-- Brackets hold something, and behind them stands nothing or a colon with the port. -/
theorem HostPort.brackets {front rest host : List Char} {port : U16} (hfront : ']' ∉ front)
    (h : HostPort ('[' :: front ++ ']' :: rest) host port) :
    front ≠ [] ∧ (rest = [] ∨ ∃ text, rest = ':' :: text ∧ PortText text port) := by
  have hhead : ('[' :: front ++ ']' :: rest).head? = some '[' := rfl
  generalize htext : '[' :: front ++ ']' :: rest = text at h hhead
  cases h with
  | host hhost => exact absurd hhead hhost.noBracket
  | hostPort hhost hport => exact absurd hhead (hhost.head?_append _)
  | bracketed hne hhost =>
      obtain ⟨rfl, rfl⟩ := separator_unique hfront hhost (List.cons.inj htext).2
      exact ⟨hne, .inl rfl⟩
  | bracketedPort hne hhost hport =>
      obtain ⟨rfl, rfl⟩ := separator_unique hfront hhost (List.cons.inj htext).2
      exact ⟨hne, .inr ⟨_, rfl, hport⟩⟩

theorem not_portText_signed (text : List Char) (port : U16) : ¬ PortText ('+' :: text) port := fun h =>
  h.noSign text rfl

/-- A listed text is read as a host and a port that the grammar does not give it. -/
theorem Lenient.misread {text : List Char} (h : Lenient text) :
    ∃ host port, parseHostPort text = .ok (host, port) ∧ ¬ HostPort text host port := by
  cases h with
  | empty => exact ⟨[], defaultQuackPort, rfl, not_hostPort_nil _ _⟩
  | @signedPort host text port hhost hport =>
      refine ⟨host, port, ?_, fun h => not_portText_signed _ _ (h.port_of_bare hhost)⟩
      have hcolon : ':' ∉ '+' :: text := List.not_mem_cons_of_ne_of_not_mem (by decide) hport.noColon
      rw [parseHostPort_hostPort hhost hcolon, parsePort_signed hport]
      rfl
  | @signedBracketedPort host text port hhost hport =>
      refine ⟨host, port, ?_, fun h => ?_⟩
      · rw [parseHostPort_brackets hhost]
        show (parsePort _).map _ = _
        rw [parsePort_signed hport]
        rfl
      · obtain ⟨-, hnil | ⟨text, hsuffix, hdigits⟩⟩ := h.brackets hhost
        · cases hnil
        · obtain ⟨-, rfl⟩ := List.cons.inj hsuffix
          exact not_portText_signed _ _ hdigits
  | emptyBrackets =>
      exact ⟨[], defaultQuackPort, rfl, fun h => (@HostPort.brackets [] _ _ _ List.not_mem_nil h).1 rfl⟩
  | @emptyBracketsPort text port hport =>
      refine ⟨[], port, ?_, fun h => (@HostPort.brackets [] _ _ _ List.not_mem_nil h).1 rfl⟩
      show (parsePort text).map _ = _
      rw [parsePort_digits hport]
      rfl
  | @leftover host rest hhost hrest hhead =>
      refine ⟨host, defaultQuackPort, ?_, fun h => ?_⟩
      · rw [parseHostPort_brackets hhost, parseSuffix_leftover hhead]
        rfl
      · obtain ⟨-, hnil | ⟨text, hsuffix, -⟩⟩ := h.brackets hhost
        · exact hrest hnil
        · exact hhead (hsuffix ▸ rfl)

/-- The parser keeps to the grammar except on the listed texts. -/
theorem acceptsHostPort_iff (text : List Char) : AcceptsHostPort text ↔ ¬ Lenient text := by
  refine ⟨fun h hlenient => ?_, fun h host port => ⟨fun hparsed => ?_, HostPort.parsed⟩⟩
  · obtain ⟨host, port, hparsed, hnot⟩ := hlenient.misread
    exact hnot ((h host port).mp hparsed)
  · exact (hostPort_or_lenient hparsed).resolve_right h

/-- The port of this address has lost its colon, and the default is taken for it. -/
theorem not_acceptsHostPort : ¬ AcceptsHostPort ['[', ':', ':', '1', ']', '4', '4', '3'] := by
  intro h
  have hport := (h [':', ':', '1'] defaultQuackPort).mp rfl
  obtain ⟨-, hnil | ⟨text, hsuffix, -⟩⟩ :=
    @HostPort.brackets [':', ':', '1'] ['4', '4', '3'] _ _ (by decide) hport
  · cases hnil
  · cases hsuffix

end QuackProtocol
