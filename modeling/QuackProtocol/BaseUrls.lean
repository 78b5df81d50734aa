import QuackProtocol.DecimalParsers
import QuackProtocol.Uris

/-! The base URL of a server (`client.rs`): what is made of an address, and what is read back from it. The
URL parser belongs to another crate and is a parameter, of which `UrlLibrary.Documented` states what its
documentation promises. -/

open Decoding DecimalDigits

namespace QuackProtocol

/-- What is read of a parsed URL. -/
structure Url where
  scheme : List Char
  hostStr : Option (List Char)
  portOrKnownDefault : Option U16

structure UrlLibrary where
  parse : List Char → Option Url
  domainToAscii : List Char → Option (List Char)

structure ParsedQuackUri where
  baseUrl : List Char
  host : List Char
  port : U16
  ssl : Bool

def scheme : Bool → List Char
  | false => ['h', 't', 't', 'p']
  | true => ['h', 't', 't', 'p', 's']

def schemePrefix (ssl : Bool) : List Char := scheme ssl ++ [':', '/', '/']

/-- `scheme://host:port`. -/
def formatUrl (scheme host : List Char) (port : U16) : List Char :=
  scheme ++ [':', '/', '/'] ++ host ++ ':' :: Nat.toDigits 10 port.toNat

def inBrackets (host : List Char) : List Char := '[' :: host ++ [']']

/-- An address with the scheme of a URL. -/
def IsUrl (uri : List Char) : Prop := schemePrefix false <+: uri ∨ schemePrefix true <+: uri

instance : DecidablePred IsUrl := fun uri => inferInstanceAs (Decidable (_ <+: uri ∨ _ <+: uri))

/-- What stands behind `quack://` or `quack:`. -/
def stripQuack (uri : List Char) : List Char :=
  let short := ['q', 'u', 'a', 'c', 'k', ':']
  ((uri.dropPrefix? (short ++ ['/', '/'])).or (uri.dropPrefix? short)).getD uri

def parseUrl (library : UrlLibrary) (input uri : List Char) : Result ParsedQuackUri :=
  match library.parse uri with
  | none => .error .url
  | some url =>
    let ssl : Bool := url.scheme = scheme true
    let port := url.portOrKnownDefault.getD (if ssl then 443 else 80)
    match url.hostStr with
    | none => .error (.protocol s!"invalid Quack URI host {String.ofList input}")
    | some host =>
      let hostForBase := if ':' ∈ host then inBrackets host else host
      .ok ⟨formatUrl url.scheme hostForBase port, host, port, ssl⟩

def parseQuack (input uri : List Char) (sslOverride : Option Bool) : Result ParsedQuackUri :=
  let rest := stripQuack uri
  if rest = [] then .error (.protocol s!"invalid Quack URI {String.ofList input}")
  else do
    let (host, port) ← parseHostPort rest
    let ssl := sslOverride.getD false
    let hostForBase := if ':' ∈ host ∧ host.head? ≠ some '[' then inBrackets host else host
    pure ⟨formatUrl (scheme ssl) hostForBase port, host, port, ssl⟩

def parseQuackUri (library : UrlLibrary) (input : List Char) (sslOverride : Option Bool) :
    Result ParsedQuackUri :=
  let uri := trim input
  if uri = [] then .error (.protocol "Quack URI is empty")
  else if IsUrl uri then parseUrl library input uri
  else parseQuack input uri sslOverride

/-- A label of a name in lower case. -/
structure IsLabel (label : List Char) : Prop where
  nonempty : label ≠ []
  chars : ∀ c ∈ label, c.isLower = true ∨ c.isDigit = true ∨ c = '-'
  first : label.head? ≠ some '-'
  last : label.getLast? ≠ some '-'

/-- A label that is read as a number, in decimal or in hexadecimal. -/
def IsNumber (label : List Char) : Prop :=
  IsDigits label ∨ ∃ digits, label = '0' :: 'x' :: digits ∧ ∀ c ∈ digits, (hexValue c).isSome

def dotted : List (List Char) → List Char
  | [] => []
  | [label] => label
  | label :: labels => label ++ '.' :: dotted labels

/-- A DNS name in lower case, with or without the dot of the root. A host whose last label is a number is an
IPv4 address instead; a label in Punycode stands where IDNA leaves the name as it is. -/
structure DnsName (library : UrlLibrary) (host : List Char) : Prop where
  spelled : ∃ front last root, host = dotted (front ++ [last]) ++ root ∧ (root = [] ∨ root = ['.']) ∧
    (∀ label ∈ front ++ [last], IsLabel label) ∧ ¬ IsNumber last ∧
    ((∃ label ∈ front ++ [last], ['x', 'n', '-', '-'] <+: label) → library.domainToAscii host = some host)

/-- Four octets in decimal. -/
def Ipv4Text (host : List Char) : Prop :=
  ∃ octets : List (Fin 256), octets.length = 4 ∧ host = dotted (octets.map fun octet => Nat.toDigits 10 octet)

/-- Every text of an IPv6 address in lower case, its canonical form among them. -/
structure Ipv6Text (address : List Char) : Prop where
  chars : ∀ c ∈ address, c.isLower = true ∨ c.isDigit = true ∨ c = ':' ∨ c = '.'
  colon : ':' ∈ address

inductive CanonicalHost (library : UrlLibrary) : List Char → Prop where
  | name {host} : DnsName library host → CanonicalHost library host
  | ipv4 {host} : Ipv4Text host → CanonicalHost library host
  | ipv6 {address} : Ipv6Text address → CanonicalHost library address
  | bracketed {address} : Ipv6Text address → CanonicalHost library (inBrackets address)

/-- What the documentation of the URL parser promises: an `http` or `https` URL of a name or an IPv4 address is
read with its parts, the scheme is the one written, and an IPv6 host comes with its brackets. -/
structure UrlLibrary.Documented (library : UrlLibrary) : Prop where
  parsed : ∀ {ssl host} {port : U16}, DnsName library host ∨ Ipv4Text host →
    library.parse (formatUrl (scheme ssl) host port) = some ⟨scheme ssl, some host, some port⟩
  scheme_eq : ∀ {ssl rest url}, library.parse (schemePrefix ssl ++ rest) = some url → url.scheme = scheme ssl
  brackets : ∀ {uri url host}, library.parse uri = some url → url.hostStr = some host → ':' ∈ host →
    host.head? = some '['

/-- A host as it stands in a URL: an IPv6 address has brackets around it, once. -/
def authority (host : List Char) : List Char :=
  if ':' ∈ host ∧ host.head? ≠ some '[' then inBrackets host else host

/-- The base URL is `scheme://host:port`, and is parsed to itself. -/
structure Stable (library : UrlLibrary) (parsed : ParsedQuackUri) : Prop where
  form : parsed.baseUrl = formatUrl (scheme parsed.ssl) (authority parsed.host) parsed.port
  reparsed : ∃ again, parseQuackUri library parsed.baseUrl none = .ok again ∧ again.baseUrl = parsed.baseUrl ∧
    again.port = parsed.port ∧ again.ssl = parsed.ssl

/-- The address names an IPv6 host: by the URL's host, or in brackets behind `quack:`. -/
inductive NamesIpv6 (library : UrlLibrary) (uri : List Char) : Prop where
  | url {url host} : IsUrl uri → library.parse uri = some url → url.hostStr = some host → ':' ∈ host →
      NamesIpv6 library uri
  | quack {host suffix} : ¬ IsUrl uri → stripQuack uri = '[' :: host ++ ']' :: suffix → ']' ∉ host →
      ':' ∈ host → NamesIpv6 library uri

theorem mem_dotted {labels : List (List Char)} {c : Char} (h : c ∈ dotted labels) :
    c = '.' ∨ ∃ label ∈ labels, c ∈ label := by
  induction labels using dotted.induct with
  | case1 => cases h
  | case2 label => exact .inr ⟨label, List.mem_singleton_self _, h⟩
  | case3 label labels hne ih =>
      rw [dotted, List.mem_append, List.mem_cons] at h
      · obtain hlabel | rfl | hrest := h
        · exact .inr ⟨label, List.mem_cons_self .., hlabel⟩
        · exact .inl rfl
        · obtain hdot | ⟨other, hother, hc⟩ := ih hrest
          · exact .inl hdot
          · exact .inr ⟨other, List.mem_cons_of_mem _ hother, hc⟩
      · exact hne

/-- A character of a name or of an address without its brackets. -/
def IsHostChar (c : Char) : Prop := c.isLower = true ∨ c.isDigit = true ∨ c = '-' ∨ c = '.'

theorem IsHostChar.ne {c : Char} (h : IsHostChar c) : c ≠ ':' ∧ c ≠ '[' := by
  refine ⟨?_, ?_⟩
  all_goals
    rintro rfl
    obtain h | h | h | h := h <;> cases h

theorem lower_notWhitespace {c : Char} (h : c.isLower = true) : isWhitespace c = false := by
  have h : (c.val ≥ 'a'.val && c.val ≤ 'z'.val) = true := h
  simp only [Bool.and_eq_true, decide_eq_true_eq] at h
  have hge : 97 ≤ c.toNat := h.1
  have hle : c.toNat ≤ 122 := h.2
  simp only [isWhitespace, Bool.or_eq_false_iff, Bool.decide_or, Bool.decide_and, decide_eq_false_iff_not,
    Bool.and_eq_false_iff]
  omega

theorem DnsName.chars {library : UrlLibrary} {host : List Char} (h : DnsName library host) :
    ∀ c ∈ host, IsHostChar c := by
  intro c hc
  obtain ⟨front, last, root, rfl, hroot, hlabels, -, -⟩ := h.spelled
  rw [List.mem_append] at hc
  obtain hc | hc := hc
  · obtain rfl | ⟨label, hlabel, hc⟩ := mem_dotted hc
    · exact .inr (.inr (.inr rfl))
    · obtain hlower | hdigit | hhyphen := (hlabels label hlabel).chars c hc
      · exact .inl hlower
      · exact .inr (.inl hdigit)
      · exact .inr (.inr (.inl hhyphen))
  · obtain rfl | rfl := hroot
    · cases hc
    · exact .inr (.inr (.inr (List.mem_singleton.mp hc)))

theorem Ipv4Text.chars {host : List Char} (h : Ipv4Text host) : ∀ c ∈ host, IsHostChar c := by
  intro c hc
  obtain ⟨octets, -, rfl⟩ := h
  obtain rfl | ⟨label, hlabel, hc⟩ := mem_dotted hc
  · exact .inr (.inr (.inr rfl))
  · obtain ⟨octet, -, rfl⟩ := List.mem_map.mp hlabel
    exact .inr (.inl (isDigits_toDigits _ c hc))

theorem IsHostChar.notWhitespace {c : Char} (h : IsHostChar c) : isWhitespace c = false := by
  obtain hlower | hdigit | rfl | rfl := h
  · exact lower_notWhitespace hlower
  · exact digit_notWhitespace hdigit
  · rfl
  · rfl

theorem Ipv6Text.notWhitespace {address : List Char} (h : Ipv6Text address) :
    ∀ c ∈ address, isWhitespace c = false := by
  intro c hc
  obtain hlower | hdigit | rfl | rfl := h.chars c hc
  · exact lower_notWhitespace hlower
  · exact digit_notWhitespace hdigit
  · rfl
  · rfl

theorem Ipv6Text.noBrackets {address : List Char} (h : Ipv6Text address) : '[' ∉ address ∧ ']' ∉ address := by
  refine ⟨fun hmem => ?_, fun hmem => ?_⟩
  all_goals
    obtain h | h | h | h := h.chars _ hmem <;> cases h

/-- A canonical host without a colon is a name or an IPv4 address. -/
theorem CanonicalHost.of_noColon {library : UrlLibrary} {host : List Char} (h : CanonicalHost library host)
    (hcolon : ':' ∉ host) : DnsName library host ∨ Ipv4Text host := by
  cases h with
  | name hname => exact .inl hname
  | ipv4 hipv4 => exact .inr hipv4
  | ipv6 haddress => exact absurd haddress.colon hcolon
  | bracketed haddress =>
      exact absurd (List.mem_cons_of_mem _ (List.mem_append_left _ haddress.colon)) hcolon

theorem chars_of_name {library : UrlLibrary} {host : List Char} (h : DnsName library host ∨ Ipv4Text host) :
    ∀ c ∈ host, IsHostChar c := by
  obtain hname | hipv4 := h
  · exact hname.chars
  · exact hipv4.chars

/-- A canonical host with a colon is an IPv6 address, in brackets or not. -/
theorem CanonicalHost.of_colon {library : UrlLibrary} {host : List Char} (h : CanonicalHost library host)
    (hcolon : ':' ∈ host) : Ipv6Text host ∨ ∃ address, host = inBrackets address ∧ Ipv6Text address := by
  cases h with
  | name hname => exact absurd rfl (hname.chars _ hcolon).ne.1
  | ipv4 hipv4 => exact absurd rfl (hipv4.chars _ hcolon).ne.1
  | ipv6 haddress => exact .inl haddress
  | bracketed haddress => exact .inr ⟨_, rfl, haddress⟩

/-! ### URLs -/

theorem formatUrl_eq (ssl : Bool) (host : List Char) (port : U16) :
    formatUrl (scheme ssl) host port = schemePrefix ssl ++ (host ++ ':' :: Nat.toDigits 10 port.toNat) :=
  List.append_assoc _ _ _

theorem isUrl_formatUrl (ssl : Bool) (host : List Char) (port : U16) :
    IsUrl (formatUrl (scheme ssl) host port) := by
  rw [formatUrl_eq]
  cases ssl with
  | false => exact .inl (List.prefix_append _ _)
  | true => exact .inr (List.prefix_append _ _)

theorem schemePrefix_notWhitespace (ssl : Bool) : ∀ c ∈ schemePrefix ssl, isWhitespace c = false := by
  intro c hc
  have hall : (schemePrefix ssl).all (fun c => !isWhitespace c) = true := by
    cases ssl with
    | false => rfl
    | true => rfl
  exact (Bool.not_eq_true' _).mp (List.all_eq_true.mp hall c hc)

theorem trim_formatUrl {ssl : Bool} {host : List Char} {port : U16} (h : ∀ c ∈ host, isWhitespace c = false) :
    trim (formatUrl (scheme ssl) host port) = formatUrl (scheme ssl) host port := by
  refine trim_eq_self fun c hc => ?_
  rw [formatUrl_eq, List.mem_append, List.mem_append, List.mem_cons] at hc
  obtain hc | hc | rfl | hc := hc
  · exact schemePrefix_notWhitespace ssl c hc
  · exact h c hc
  · rfl
  · exact digit_notWhitespace (isDigits_toDigits _ c hc)

/-- A URL tells its host, where the scheme and the port are known. -/
theorem formatUrl_injective {ssl : Bool} {host host' : List Char} {port : U16}
    (h : formatUrl (scheme ssl) host port = formatUrl (scheme ssl) host' port) : host = host' := by
  rw [formatUrl_eq, formatUrl_eq] at h
  exact List.append_cancel_right (List.append_cancel_left h)

theorem scheme_secure (ssl : Bool) : decide (scheme ssl = scheme true) = ssl := by
  cases ssl with
  | false => rfl
  | true => rfl

theorem mem_inBrackets {c : Char} {host : List Char} (h : c ∈ host) : c ∈ inBrackets host :=
  List.mem_cons_of_mem _ (List.mem_append_left _ h)

/-- Brackets around an address make another text of it. -/
theorem inBrackets_ne (host : List Char) : inBrackets host ≠ host := by
  intro h
  have hlength := congrArg List.length h
  rw [inBrackets, List.cons_append, List.length_cons, List.length_append, List.length_singleton] at hlength
  omega

theorem inBrackets_injective {host host' : List Char} (h : inBrackets host = inBrackets host') : host = host' :=
  List.append_cancel_right (List.cons.inj h).2

section
variable {library : UrlLibrary}

theorem parseQuackUri_url {input : List Char} {sslOverride : Option Bool} (hurl : IsUrl (trim input)) :
    parseQuackUri library input sslOverride = parseUrl library input (trim input) := by
  have hne : trim input ≠ [] := by
    intro hnil
    rw [hnil] at hurl
    obtain h | h := hurl
    · exact List.cons_ne_nil _ _ (List.prefix_nil.mp h)
    · exact List.cons_ne_nil _ _ (List.prefix_nil.mp h)
  show (if trim input = [] then _ else if IsUrl (trim input) then _ else _) = _
  rw [if_neg hne, if_pos hurl]

/-- What the URL branch returns, of a URL that was parsed. -/
theorem parseUrl_cases {input uri : List Char} {parsed : ParsedQuackUri}
    (h : parseUrl library input uri = .ok parsed) :
    ∃ url, library.parse uri = some url ∧ url.hostStr = some parsed.host ∧
      parsed.ssl = decide (url.scheme = scheme true) ∧
      parsed.baseUrl = formatUrl url.scheme
        (if ':' ∈ parsed.host then inBrackets parsed.host else parsed.host) parsed.port := by
  unfold parseUrl at h
  cases hparse : library.parse uri with
  | none =>
      rw [hparse] at h
      cases h
  | some url =>
      rw [hparse] at h
      cases hhost : url.hostStr with
      | none =>
          simp only [hhost] at h
          cases h
      | some host =>
          simp only [hhost] at h
          cases h
          exact ⟨url, rfl, hhost, rfl, rfl⟩

theorem parseUrl_ok {input uri host : List Char} {ssl : Bool} {port : U16}
    (hparse : library.parse uri = some ⟨scheme ssl, some host, some port⟩) (hcolon : ':' ∉ host) :
    parseUrl library input uri = .ok ⟨formatUrl (scheme ssl) host port, host, port, ssl⟩ := by
  unfold parseUrl
  simp only [hparse, if_neg hcolon, Option.getD_some, scheme_secure]

/-- The scheme of a parsed URL, of the two there are. -/
theorem UrlLibrary.Documented.scheme_cases (hlib : library.Documented) {uri : List Char} {url : Url}
    (hurl : IsUrl uri) (hparse : library.parse uri = some url) : ∃ ssl, url.scheme = scheme ssl := by
  obtain ⟨rest, rfl⟩ | ⟨rest, rfl⟩ := hurl
  · exact ⟨false, hlib.scheme_eq hparse⟩
  · exact ⟨true, hlib.scheme_eq hparse⟩

/-- What the other branch returns, of a host and a port. -/
theorem parseQuack_cases {input uri : List Char} {sslOverride : Option Bool} {parsed : ParsedQuackUri}
    (h : parseQuack input uri sslOverride = .ok parsed) :
    parseHostPort (stripQuack uri) = .ok (parsed.host, parsed.port) ∧
      parsed.baseUrl = formatUrl (scheme parsed.ssl) (authority parsed.host) parsed.port := by
  by_cases hrest : stripQuack uri = []
  · rw [parseQuack, if_pos hrest] at h
    cases h
  · rw [parseQuack, if_neg hrest] at h
    obtain ⟨⟨host, port⟩, hparse, hresult⟩ := Except.bind_eq_ok h
    cases hresult
    exact ⟨hparse, rfl⟩

theorem parseQuackUri_cases {input : List Char} {sslOverride : Option Bool} {parsed : ParsedQuackUri}
    (h : parseQuackUri library input sslOverride = .ok parsed) :
    (IsUrl (trim input) ∧ parseUrl library input (trim input) = .ok parsed) ∨
      (¬ IsUrl (trim input) ∧ parseQuack input (trim input) sslOverride = .ok parsed) := by
  by_cases hurl : IsUrl (trim input)
  · rw [parseQuackUri_url hurl] at h
    exact .inl ⟨hurl, h⟩
  · by_cases hnil : trim input = []
    · rw [parseQuackUri] at h
      simp only [if_pos hnil] at h
      cases h
    · rw [parseQuackUri] at h
      simp only [if_neg hnil, if_neg hurl] at h
      exact .inr ⟨hurl, h⟩

/-- The host that is parsed has a colon exactly where the address names an IPv6 host. -/
theorem colon_iff_namesIpv6 {input : List Char} {sslOverride : Option Bool} {parsed : ParsedQuackUri}
    (h : parseQuackUri library input sslOverride = .ok parsed) :
    ':' ∈ parsed.host ↔ NamesIpv6 library (trim input) := by
  obtain ⟨hurl, h⟩ | ⟨hurl, h⟩ := parseQuackUri_cases h
  · obtain ⟨url, hparse, hhost, -, -⟩ := parseUrl_cases h
    refine ⟨fun hcolon => .url hurl hparse hhost hcolon, fun hnames => ?_⟩
    cases hnames with
    | url _ hparse' hhost' hcolon =>
        rw [hparse, Option.some_inj] at hparse'
        rw [← hparse', hhost, Option.some_inj] at hhost'
        rw [hhost']
        exact hcolon
    | quack hnot => exact absurd hurl hnot
  · obtain ⟨hparse, -⟩ := parseQuack_cases h
    refine ⟨fun hcolon => ?_, fun hnames => ?_⟩
    · by_cases hbracket : (stripQuack (trim input)).head? = some '['
      · obtain ⟨rest, hrest⟩ := List.head?_eq_some_iff.mp hbracket
        rw [hrest] at hparse
        obtain ⟨suffix, rfl, hhost, -⟩ := parseHostPort_bracket_cases hparse
        exact .quack hurl hrest hhost hcolon
      · obtain ⟨hnone, heq, -⟩ | ⟨_, _, hhost, _⟩ := parseHostPort_bare_cases hbracket hparse
        · exact absurd (heq ▸ hcolon) hnone
        · exact absurd hcolon hhost.noColon
    · cases hnames with
      | url hyes => exact absurd hyes hurl
      | @quack host suffix _ hrest hhost hcolon =>
          rw [hrest] at hparse
          obtain ⟨suffix', hsuffix, hhost', -⟩ := parseHostPort_bracket_cases hparse
          obtain ⟨rfl, -⟩ := separator_unique hhost hhost' hsuffix
          exact hcolon

/-- The base URL of a host without a colon. -/
theorem baseUrl_of_noColon (hlib : library.Documented) {input : List Char} {sslOverride : Option Bool}
    {parsed : ParsedQuackUri} (h : parseQuackUri library input sslOverride = .ok parsed)
    (hcolon : ':' ∉ parsed.host) :
    parsed.baseUrl = formatUrl (scheme parsed.ssl) parsed.host parsed.port := by
  obtain ⟨hurl, h⟩ | ⟨-, h⟩ := parseQuackUri_cases h
  · obtain ⟨url, hparse, -, hssl, hbase⟩ := parseUrl_cases h
    obtain ⟨ssl, hscheme⟩ := hlib.scheme_cases hurl hparse
    rw [hscheme, scheme_secure] at hssl
    rw [hbase, if_neg hcolon, hscheme, hssl]
  · obtain ⟨-, hbase⟩ := parseQuack_cases h
    rw [hbase, authority, if_neg fun h => hcolon h.1]

/-- The URL of a name or of an IPv4 address is parsed to itself. -/
theorem parseQuackUri_formatUrl (hlib : library.Documented) {host : List Char} (ssl : Bool) (port : U16)
    (hname : DnsName library host ∨ Ipv4Text host) :
    parseQuackUri library (formatUrl (scheme ssl) host port) none =
      .ok ⟨formatUrl (scheme ssl) host port, host, port, ssl⟩ := by
  have htrim := @trim_formatUrl ssl host port fun c hc => (chars_of_name hname c hc).notWhitespace
  have hurl : IsUrl (trim (formatUrl (scheme ssl) host port)) := by
    rw [htrim]
    exact isUrl_formatUrl ssl host port
  have hcolon : ':' ∉ host := fun hmem => (chars_of_name hname ':' hmem).ne.1 rfl
  rw [parseQuackUri_url hurl, htrim]
  exact parseUrl_ok (hlib.parsed hname) hcolon

theorem stable_of_noColon (hlib : library.Documented) {input : List Char} {sslOverride : Option Bool}
    {parsed : ParsedQuackUri} (h : parseQuackUri library input sslOverride = .ok parsed)
    (hhost : CanonicalHost library parsed.host) (hcolon : ':' ∉ parsed.host) : Stable library parsed := by
  have hbase := baseUrl_of_noColon hlib h hcolon
  have hagain := parseQuackUri_formatUrl hlib parsed.ssl parsed.port (hhost.of_noColon hcolon)
  refine ⟨?_, ?_⟩
  · rw [authority, if_neg fun h => hcolon h.1, hbase]
  · rw [hbase]
    exact ⟨_, hagain, rfl, rfl, rfl⟩

/-- The host of a URL has its brackets already, and gets them a second time. -/
theorem not_form_of_url (hlib : library.Documented) {input : List Char} {parsed : ParsedQuackUri}
    (hurl : IsUrl (trim input)) (h : parseUrl library input (trim input) = .ok parsed)
    (hcolon : ':' ∈ parsed.host) :
    parsed.baseUrl ≠ formatUrl (scheme parsed.ssl) (authority parsed.host) parsed.port := by
  obtain ⟨url, hparse, hhost, hssl, hbase⟩ := parseUrl_cases h
  obtain ⟨ssl, hscheme⟩ := hlib.scheme_cases hurl hparse
  have hbracket := hlib.brackets hparse hhost hcolon
  rw [hscheme, scheme_secure] at hssl
  intro hform
  rw [hbase, if_pos hcolon, hscheme, hssl, authority, if_neg fun h => h.2 hbracket] at hform
  exact inBrackets_ne _ (formatUrl_injective hform)

/-- The base URL of an IPv6 address is parsed to another base URL. -/
theorem not_reparsed (hlib : library.Documented) {address : List Char} (haddress : Ipv6Text address)
    (ssl : Bool) (port : U16) {again : ParsedQuackUri}
    (h : parseQuackUri library (formatUrl (scheme ssl) (inBrackets address) port) none = .ok again)
    (hport : again.port = port) (hssl : again.ssl = ssl) :
    again.baseUrl ≠ formatUrl (scheme ssl) (inBrackets address) port := by
  have htrim : trim (formatUrl (scheme ssl) (inBrackets address) port) =
      formatUrl (scheme ssl) (inBrackets address) port := by
    refine trim_formatUrl fun c hc => ?_
    rw [inBrackets, List.cons_append, List.mem_cons, List.mem_append, List.mem_singleton] at hc
    obtain rfl | hc | rfl := hc
    · rfl
    · exact haddress.notWhitespace c hc
    · rfl
  have hurl : IsUrl (trim (formatUrl (scheme ssl) (inBrackets address) port)) := by
    rw [htrim]
    exact isUrl_formatUrl _ _ _
  rw [parseQuackUri_url hurl] at h
  obtain ⟨url, hparse, hhost, hagain, hbase⟩ := parseUrl_cases h
  obtain ⟨ssl', hscheme⟩ := hlib.scheme_cases hurl hparse
  rw [hscheme, scheme_secure, hssl] at hagain
  intro heq
  rw [hbase, hscheme, ← hagain, hport] at heq
  have hsame := formatUrl_injective heq
  by_cases hcolon : ':' ∈ again.host
  · -- The brackets of the URL's host would have to be those of the address.
    rw [if_pos hcolon] at hsame
    have hbracket := hlib.brackets hparse hhost hcolon
    rw [inBrackets_injective hsame] at hbracket
    exact haddress.noBrackets.1 (List.mem_of_mem_head? hbracket)
  · rw [if_neg hcolon] at hsame
    rw [hsame] at hcolon
    exact hcolon (mem_inBrackets haddress.colon)

/-- A host in brackets cannot come from the other branch. -/
theorem parseHostPort_noBrackets {text address : List Char} {port : U16} (hcolon : ':' ∈ address) :
    parseHostPort text ≠ .ok (inBrackets address, port) := by
  intro h
  by_cases hbracket : text.head? = some '['
  · obtain ⟨rest, rfl⟩ := List.head?_eq_some_iff.mp hbracket
    obtain ⟨suffix, -, hhost, -⟩ := parseHostPort_bracket_cases h
    exact hhost (List.mem_cons_of_mem _ (List.mem_append_right _ (List.mem_singleton_self _)))
  · obtain ⟨hnone, heq, -⟩ | ⟨_, -, hhost, -⟩ := parseHostPort_bare_cases hbracket h
    · exact hnone (heq ▸ mem_inBrackets hcolon)
    · exact hhost.noColon (mem_inBrackets hcolon)

theorem not_stable_of_colon (hlib : library.Documented) {input : List Char} {sslOverride : Option Bool}
    {parsed : ParsedQuackUri} (h : parseQuackUri library input sslOverride = .ok parsed)
    (hhost : CanonicalHost library parsed.host) (hcolon : ':' ∈ parsed.host) : ¬ Stable library parsed := by
  intro hstable
  obtain ⟨hurl, h⟩ | ⟨hurl, h⟩ := parseQuackUri_cases h
  · exact not_form_of_url hlib hurl h hcolon hstable.form
  · obtain ⟨hparse, hbase⟩ := parseQuack_cases h
    obtain haddress | ⟨address, hbrackets, haddress⟩ := hhost.of_colon hcolon
    · have hopen : parsed.host.head? ≠ some '[' := fun hhead =>
        haddress.noBrackets.1 (List.mem_of_mem_head? hhead)
      rw [authority, if_pos ⟨hcolon, hopen⟩] at hbase
      obtain ⟨again, hagain, hsame, hport, hssl⟩ := hstable.reparsed
      rw [hbase] at hagain hsame
      exact not_reparsed hlib haddress _ _ hagain hport hssl hsame
    · rw [hbrackets] at hparse
      exact parseHostPort_noBrackets haddress.colon hparse

end

def stripScheme (text : List Char) : Option (Bool × List Char) :=
  ((text.dropPrefix? (schemePrefix false)).map fun rest => (false, rest)).or
    ((text.dropPrefix? (schemePrefix true)).map fun rest => (true, rest))

def splitAuthority : List Char → Option (List Char × List Char)
  | '[' :: inner =>
    match splitOnce ']' inner with
    | some (address, ':' :: port) => some (inBrackets address, port)
    | _ => none
  | text => splitOnce ':' text

/-- A library that reads `scheme://host:port`, with nothing behind the port. -/
def plainUrls : UrlLibrary where
  parse text := do
    let (ssl, rest) ← stripScheme text
    let (host, digits) ← splitAuthority rest
    let port ← parseU16 digits
    some ⟨scheme ssl, some host, some port⟩
  domainToAscii := some

theorem stripScheme_append (ssl : Bool) (rest : List Char) :
    stripScheme (schemePrefix ssl ++ rest) = some (ssl, rest) := by
  cases ssl with
  | false => simp [stripScheme, schemePrefix, scheme, List.dropPrefix?]
  | true => simp [stripScheme, schemePrefix, scheme, List.dropPrefix?]

theorem splitAuthority_bare {text : List Char} (h : text.head? ≠ some '[') :
    splitAuthority text = splitOnce ':' text := by
  unfold splitAuthority
  split
  next => exact absurd rfl h
  next => rfl

theorem splitAuthority_brackets {text host digits : List Char} (h : splitAuthority text = some (host, digits))
    (hcolon : ':' ∈ host) : host.head? = some '[' := by
  by_cases hbracket : text.head? = some '['
  · obtain ⟨inner, rfl⟩ := List.head?_eq_some_iff.mp hbracket
    change (match splitOnce ']' inner with
      | some (address, ':' :: port) => some (inBrackets address, port)
      | _ => none) = _ at h
    split at h
    next =>
      cases h
      rfl
    next => cases h
  · rw [splitAuthority_bare hbracket] at h
    exact absurd hcolon (splitOnce_eq_some h).2

theorem parseU16_toDigits (port : U16) : parseU16 (Nat.toDigits 10 port.toNat) = some port := by
  have hsign : ∀ digits, Nat.toDigits 10 port.toNat ≠ '+' :: digits := by
    intro digits heq
    have hdigit := isDigits_toDigits port.toNat '+' (heq ▸ List.mem_cons_self ..)
    exact (digit_ne hdigit).2.2 rfl
  rw [parseU16_eq_some_iff, unsigned_of_ne hsign, value_toDigits]
  refine ⟨?_, isDigits_toDigits _, port.isLt, ?_⟩
  · exact Nat.toDigits_ne_nil
  · rw [BitVec.ofNat_toNat, BitVec.setWidth_eq]

theorem plainUrls_parse {text : List Char} {url : Url} (h : plainUrls.parse text = some url) :
    ∃ ssl rest host digits, stripScheme text = some (ssl, rest) ∧ splitAuthority rest = some (host, digits) ∧
      url.scheme = scheme ssl ∧ url.hostStr = some host := by
  obtain ⟨⟨ssl, rest⟩, hscheme, h⟩ := Option.bind_eq_some_iff.mp h
  obtain ⟨⟨host, digits⟩, hhost, h⟩ := Option.bind_eq_some_iff.mp h
  obtain ⟨port, -, h⟩ := Option.bind_eq_some_iff.mp h
  cases h
  exact ⟨ssl, rest, host, digits, hscheme, hhost, rfl, rfl⟩

theorem plainUrls_documented : plainUrls.Documented where
  parsed := by
    intro ssl host port hname
    have hcolon : ':' ∉ host := fun hmem => (chars_of_name hname ':' hmem).ne.1 rfl
    have hbracket : (host ++ ':' :: Nat.toDigits 10 port.toNat).head? ≠ some '[' := by
      cases host with
      | nil => exact fun h => nomatch h
      | cons c host =>
          intro h
          exact (chars_of_name hname c (List.mem_cons_self ..)).ne.2 (Option.some.inj h)
    show ((stripScheme _).bind fun parts => _) = _
    rw [formatUrl_eq, stripScheme_append]
    show ((splitAuthority _).bind fun parts => _) = _
    rw [splitAuthority_bare hbracket, splitOnce_separator hcolon]
    show ((parseU16 _).bind fun port => _) = _
    rw [parseU16_toDigits]
    rfl
  scheme_eq := by
    intro ssl rest url h
    obtain ⟨ssl', rest', -, -, hscheme, -, hurl, -⟩ := plainUrls_parse h
    rw [stripScheme_append, Option.some_inj, Prod.mk.injEq] at hscheme
    rw [hurl, hscheme.1]
  brackets := by
    intro uri url host h hhost hcolon
    obtain ⟨_, _, host', digits, _, hsplit, _, hhost'⟩ := plainUrls_parse h
    rw [hhost', Option.some_inj] at hhost
    subst hhost
    exact splitAuthority_brackets hsplit hcolon

/-- The law, of one address. -/
def StableOnOutput (library : UrlLibrary) (input : List Char) (sslOverride : Option Bool) : Prop :=
  ∀ parsed, parseQuackUri library input sslOverride = .ok parsed → CanonicalHost library parsed.host →
    Stable library parsed

/-- The base URL is parsed to itself exactly where the address names no IPv6 host. -/
theorem stable_iff {library : UrlLibrary} (hlib : library.Documented) {input : List Char}
    {sslOverride : Option Bool} {parsed : ParsedQuackUri} (h : parseQuackUri library input sslOverride = .ok parsed)
    (hhost : CanonicalHost library parsed.host) :
    Stable library parsed ↔ ¬ NamesIpv6 library (trim input) := by
  rw [← colon_iff_namesIpv6 h]
  exact ⟨fun hstable hcolon => not_stable_of_colon hlib h hhost hcolon hstable, stable_of_noColon hlib h hhost⟩

/-- The address of a host without dots. -/
def namedServer : List Char := ['q', 'u', 'a', 'c', 'k', ':', 'd', 'b']

theorem dnsName_db : DnsName plainUrls ['d', 'b'] := by
  refine ⟨[], ['d', 'b'], [], rfl, .inl rfl, List.forall_mem_singleton.mpr ?_, ?_, fun _ => rfl⟩
  · refine ⟨List.cons_ne_nil _ _, ?_, by decide, by decide⟩
    intro c hc
    obtain rfl | hc := List.mem_cons.mp hc
    · exact .inl rfl
    · exact .inl (List.mem_singleton.mp hc ▸ rfl)
  · intro h
    obtain hdigits | ⟨digits, hhex, -⟩ := h
    · cases hdigits 'd' (List.mem_cons_self ..)
    · cases hhex

/-- It names no IPv6 address, and its URL is parsed to the same server again. -/
theorem stable_namedServer : ¬ NamesIpv6 plainUrls (trim namedServer) ∧
    Stable plainUrls ⟨formatUrl (scheme false) ['d', 'b'] 9494, ['d', 'b'], 9494, false⟩ := by
  have hparse : parseQuackUri plainUrls namedServer none =
      .ok ⟨formatUrl (scheme false) ['d', 'b'] 9494, ['d', 'b'], 9494, false⟩ := rfl
  have hnames : ¬ NamesIpv6 plainUrls (trim namedServer) := (colon_iff_namesIpv6 hparse).not.mp (by decide)
  exact ⟨hnames, (stable_iff plainUrls_documented hparse (.name dnsName_db)).mpr hnames⟩

def loopbackServer : List Char := ['q', 'u', 'a', 'c', 'k', ':', '[', ':', ':', '1', ']']

/-- The URL of the loopback address has brackets around its host, and is parsed to one with two pairs. -/
theorem not_stableOnOutput : ¬ StableOnOutput plainUrls loopbackServer none := by
  intro h
  have haddress : Ipv6Text [':', ':', '1'] := by
    refine ⟨fun c hc => ?_, List.mem_cons_self ..⟩
    obtain rfl | hc := List.mem_cons.mp hc
    · exact .inr (.inr (.inl rfl))
    · obtain rfl | hc := List.mem_cons.mp hc
      · exact .inr (.inr (.inl rfl))
      · exact .inr (.inl (List.mem_singleton.mp hc ▸ rfl))
  have hparsed : parseQuackUri plainUrls loopbackServer none =
      .ok ⟨formatUrl (scheme false) (inBrackets [':', ':', '1']) 9494, [':', ':', '1'], 9494, false⟩ := rfl
  exact not_stable_of_colon plainUrls_documented hparsed (.ipv6 haddress) haddress.colon
    (h _ hparsed (.ipv6 haddress))

end QuackProtocol
