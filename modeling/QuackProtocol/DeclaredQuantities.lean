import QuackProtocol.WireOutlines

/-! When decoding a message panics or is aborted, told from what its bytes declare: at the first quantity that is
out of range or for which the machine has no room, if there is one. -/

open Decoding

namespace QuackProtocol

/-- What decoding needs of a machine. Of the stack only the calls that nest are counted, of the heap only the
objects whose size is declared. -/
structure Machine where
  layout : Layout
  /-- The stack has room for one more call where so many of those that nest are open. -/
  hasStack : Recursive → Nat → Bool
  /-- The heap has room for an object of so many bytes. -/
  hasHeap : Nat → Bool

namespace Machine

/-- One possible machine. -/
def words : Machine := ⟨.words, fun _ opened => opened < 500, fun size => size ≤ 2 ^ 36⟩

/-- Whether there is room for what an entry takes, given the number of calls that are open. -/
def hasRoom (machine : Machine) : Nat × Event → Bool
  | (opened, .enter callee) => machine.hasStack callee opened
  | (_, .reserve element count) => machine.hasHeap (count * machine.layout.sizeOf element)
  | _ => true

instance : Audit Machine (Nat × Event) :=
  ⟨fun machine load => load.2.Sound machine.layout ∧ machine.hasRoom load, fun load => load.2.cause⟩

end Machine

def openCalls (opened : Nat) : Event → Nat
  | .enter _ => opened + 1
  | .leave => opened - 1
  | _ => opened

/-- Each entry with the number of calls that are open where it is made. -/
def loads (entries : List Event) : List (Nat × Event) := withStates openCalls 0 entries

/-- The outcome of decoding on a machine. There is none where the stack or the heap runs out: the process is
aborted. -/
def decodeMessageOn (machine : Machine) (bytes : Bytes) (quackVersion : U64) :
    Option (Outcome QuackError QuackMessage) :=
  if ∃ load ∈ loads (decodeMessageTrace machine.layout bytes quackVersion),
      load.2.Sound machine.layout ∧ ¬ machine.hasRoom load then
    none
  else
    some (decodeMessageForVersion machine.layout bytes quackVersion)

/-- Only calls and allocations take room, and neither indexes anything. -/
theorem cause_of_not_hasRoom {machine : Machine} {load : Nat × Event} (h : ¬ machine.hasRoom load) :
    load.2.cause ≠ .bounds := by
  obtain ⟨opened, event⟩ := load
  cases event with
  | enter callee => exact fun hcause => by cases hcause
  | reserve element count => exact fun hcause => by cases hcause
  | _ => exact absurd rfl h

/-- Among quantities that are all in range, the first that is refused is a call or an allocation. -/
theorem firstWithoutRoom {machine : Machine} {entries : List Event}
    (hsound : ∀ entry ∈ entries, entry.Sound machine.layout)
    (hroom : ∃ load ∈ loads entries, ¬ machine.hasRoom load) :
    ∃ load, FirstUnsound machine (loads entries) load ∧ load.2.cause ≠ .bounds := by
  have hrefused : ∃ load ∈ loads entries, ¬ Audit.Sound machine load := by
    obtain ⟨load, hmem, hnot⟩ := hroom
    exact ⟨load, hmem, fun h => hnot h.2⟩
  obtain ⟨first, hfirst⟩ := exists_firstUnsound hrefused
  refine ⟨first, hfirst, cause_of_not_hasRoom fun h => hfirst.mem.2 ⟨?_, h⟩⟩
  exact hsound _ (mem_of_withStates hfirst.mem.1)

section
variable {bytes : Bytes} (hlen : bytes.length ≤ isizeMax) (quackVersion : U64)
include hlen

/-- The decoder enters what the bytes declare, up to the quantity it panics at or to the end. -/
theorem decodeMessage_cases (layout : Layout) :
    (∃ front e, decodeMessageTrace layout bytes quackVersion = front ++ [e] ∧ (∀ entry ∈ front, entry.Sound layout) ∧
      ¬ e.Sound layout ∧ front ++ [e] <+: declaredBy bytes quackVersion ∧
      decodeMessageForVersion layout bytes quackVersion = .panic e.cause) ∨
    (decodeMessageForVersion layout bytes quackVersion).Returns ∧
      decodeMessageTrace layout bytes quackVersion = declaredBy bytes quackVersion ∧
      ∀ entry ∈ declaredBy bytes quackVersion, entry.Sound layout := by
  have hsafe : Safe layout bytes.length (decodeMessage quackVersion) := safe_decodeMessage quackVersion
  rw [decodeMessageForVersion_returns]
  rcases (together_decodeMessage quackVersion).trace_cases (c := ⟨bytes, 0⟩) hsafe ⟨Nat.zero_le _, hlen⟩
    (by simp [Cursor.remaining]) with ⟨front, e, htrace, hall, hnot, hpre, hrun⟩ | h
  · exact .inl ⟨front, e, htrace, hall, hnot, hpre, decodeMessageForVersion_panics.mpr hrun⟩
  · exact .inr h

theorem panics_iff_declared (layout : Layout) (cause : Panic) :
    decodeMessageForVersion layout bytes quackVersion = .panic cause ↔
      ∃ e, FirstUnsound layout (declaredBy bytes quackVersion) e ∧ e.cause = cause := by
  have hsafe : Safe layout bytes.length (decodeMessage quackVersion) := safe_decodeMessage quackVersion
  rw [decodeMessageForVersion_panics]
  exact (together_decodeMessage quackVersion).panics_iff hsafe ⟨Nat.zero_le _, hlen⟩
    (by simp [Cursor.remaining]) cause

/-- Decoding on a machine stops at the first declared quantity that is out of range or for which there is no room,
if there is one. -/
theorem decodeMessageOn_cases (machine : Machine) :
    (∃ load, FirstUnsound machine (loads (declaredBy bytes quackVersion)) load ∧ load.2.cause ≠ .bounds ∧
      decodeMessageOn machine bytes quackVersion = none) ∨
    (∃ load, FirstUnsound machine (loads (declaredBy bytes quackVersion)) load ∧
      decodeMessageOn machine bytes quackVersion = some (.panic load.2.cause)) ∨
    (∃ out, decodeMessageOn machine bytes quackVersion = some out ∧ out.Returns) ∧
      ∀ load ∈ loads (declaredBy bytes quackVersion), load.2.Sound machine.layout ∧ machine.hasRoom load := by
  by_cases habort : ∃ load ∈ loads (decodeMessageTrace machine.layout bytes quackVersion),
      load.2.Sound machine.layout ∧ ¬ machine.hasRoom load
  case pos =>
    have hrun : decodeMessageOn machine bytes quackVersion = none := if_pos habort
    rw [hrun]
    obtain ⟨load, hmem, hsound, hnot⟩ := habort
    rcases decodeMessage_cases hlen quackVersion machine.layout with
      ⟨front, e, htrace, hall, hunsound, hpre, -⟩ | ⟨-, htrace, hall⟩
    · have hfront : load ∈ loads front := by
        rw [htrace, loads, withStates_append] at hmem
        refine (List.mem_append.mp hmem).resolve_right fun hlast => ?_
        obtain rfl := List.mem_singleton.mp hlast
        exact hunsound hsound
      obtain ⟨first, hfirst, hcause⟩ := firstWithoutRoom hall ⟨load, hfront, hnot⟩
      exact .inl ⟨first, hfirst.longer (withStates_mono ((List.prefix_append _ _).trans hpre)), hcause, rfl⟩
    · rw [htrace] at hmem
      obtain ⟨first, hfirst, hcause⟩ := firstWithoutRoom hall ⟨load, hmem, hnot⟩
      exact .inl ⟨first, hfirst, hcause, rfl⟩
  case neg =>
    have hrun : decodeMessageOn machine bytes quackVersion =
        some (decodeMessageForVersion machine.layout bytes quackVersion) := if_neg habort
    have hroom : ∀ load ∈ loads (decodeMessageTrace machine.layout bytes quackVersion),
        load.2.Sound machine.layout → machine.hasRoom load := by
      intro load hmem hsound
      by_contra hnot
      exact habort ⟨load, hmem, hsound, hnot⟩
    rw [hrun]
    rcases decodeMessage_cases hlen quackVersion machine.layout with
      ⟨front, e, htrace, hall, hnot, hpre, hpanic⟩ | ⟨hreturns, htrace, hall⟩
    · refine .inr (.inl ⟨(front.foldl openCalls 0, e), ?_, congrArg some hpanic⟩)
      have hloads : loads (front ++ [e]) <+: loads (declaredBy bytes quackVersion) := withStates_mono hpre
      rw [htrace, loads, withStates_append] at hroom
      rw [loads, withStates_append] at hloads
      refine firstUnsound_of_front hloads (fun load hmem => ?_) fun h => hnot h.1
      have hsound := hall _ (mem_of_withStates hmem)
      exact ⟨hsound, hroom load (List.mem_append_left _ hmem) hsound⟩
    · refine .inr (.inr ⟨⟨_, rfl, hreturns⟩, fun load hmem => ?_⟩)
      have hsound := hall _ (mem_of_withStates hmem)
      rw [htrace] at hroom
      exact ⟨hsound, hroom load hmem hsound⟩

end

/-- A message decodes to a value or an error exactly if every quantity that its bytes declare is in range and the
machine has room for it; and it indexes within bounds exactly if the first one that is not, if any, is no list
entry, array row or string under a mask. -/
theorem decodeMessage_returns_iff (machine : Machine) {bytes : Bytes} (hlen : bytes.length ≤ isizeMax)
    (quackVersion : U64) :
    ((∃ out, decodeMessageOn machine bytes quackVersion = some out ∧ out.Returns) ↔
      ∀ load ∈ loads (declaredBy bytes quackVersion), load.2.Sound machine.layout ∧ machine.hasRoom load) ∧
    (decodeMessageOn machine bytes quackVersion ≠ some (.panic .bounds) ↔
      ∀ load, FirstUnsound machine (loads (declaredBy bytes quackVersion)) load → load.2.cause ≠ .bounds) := by
  rcases decodeMessageOn_cases hlen quackVersion machine with
    ⟨first, hfirst, hcause, hnone⟩ | ⟨first, hfirst, hpanic⟩ | ⟨⟨out, hout, hreturns⟩, hall⟩
  · rw [hnone]
    refine ⟨iff_of_false ?_ fun h => hfirst.mem.2 (h first hfirst.mem.1), iff_of_true (by simp) ?_⟩
    · rintro ⟨out, hout, -⟩
      cases hout
    · intro load hload
      rwa [hload.unique hfirst]
  · rw [hpanic]
    refine ⟨iff_of_false ?_ fun h => hfirst.mem.2 (h first hfirst.mem.1), ?_⟩
    · rintro ⟨out, hout, hreturns⟩
      cases hout
      exact hreturns
    · constructor
      · intro hne load hload hcause
        rw [hload.unique hfirst] at hcause
        exact hne (by rw [hcause])
      · intro h heq
        exact h first hfirst (Outcome.panic.inj (Option.some.inj heq))
  · refine ⟨iff_of_true ⟨out, hout, hreturns⟩ hall, iff_of_true ?_ fun load hload => ?_⟩
    · rw [hout]
      intro heq
      cases heq
      exact hreturns
    · exact absurd (hall load hload.mem.1) hload.mem.2

theorem listBatch_returns :
    ∃ out, decodeMessageOn .words (listBatch 0) quackV3 = some out ∧ out.Returns :=
  (decodeMessage_returns_iff .words (by decide) quackV3).1.mpr (by decide +kernel)

/-- An entry outside its child vector is sliced all the same. -/
theorem not_listBatch_returns :
    ¬ ∃ out, decodeMessageOn .words (listBatch 1) quackV3 = some out ∧ out.Returns := by
  have hpanic : decodeMessageOn .words (listBatch 1) quackV3 = some (.panic .bounds) := by rfl
  rw [hpanic]
  rintro ⟨out, hout, hreturns⟩
  cases hout
  exact hreturns

/-- Three vectors in one another, on a machine with room for two calls. -/
example : decodeMessageOn ⟨.words, fun _ opened => opened < 2, fun _ => true⟩
    ([1, 0, 8, 3, 0, 0, 0xff, 0xff, 1, 0, 1, 0xff, 0xff, 100, 0, 1, 101, 0, 1, 100, 0, 13, 0xff, 0xff, 102, 0, 1] ++
      [90, 0, 2, 90, 0, 2, 90, 0, 2]) quackV3 = none := by
  rfl

/-- No arithmetic of the decoder overflows, and no allocation is too large, exactly if the first declared
quantity that is out of range, if any, is a list entry, an array row or a string under a mask. -/
theorem decodeMessage_arithmetic_iff (layout : Layout) {bytes : Bytes}
    (hlen : bytes.length ≤ isizeMax) (quackVersion : U64) :
    (decodeMessageForVersion layout bytes quackVersion ≠ .panic .overflow ∧
      decodeMessageForVersion layout bytes quackVersion ≠ .panic .capacity) ↔
    ∀ e, FirstUnsound layout (declaredBy bytes quackVersion) e → e.cause = .bounds := by
  rw [ne_eq, ne_eq, panics_iff_declared hlen, panics_iff_declared hlen]
  constructor
  · rintro ⟨hoverflow, hcapacity⟩ e he
    cases e with
    | reserve element count => exact absurd ⟨_, he, rfl⟩ hcapacity
    | stringRow mask index => rfl
    | entry values offset length => rfl
    | arrayRow values arraySize row => rfl
    | _ => exact absurd ⟨_, he, rfl⟩ hoverflow
  · intro h
    constructor
    · rintro ⟨e, he, hcause⟩
      rw [h e he] at hcause
      cases hcause
    · rintro ⟨e, he, hcause⟩
      rw [h e he] at hcause
      cases hcause

theorem listBatch_arithmetic :
    decodeMessageForVersion .words (listBatch 1) quackV3 ≠ .panic .overflow ∧
      decodeMessageForVersion .words (listBatch 1) quackV3 ≠ .panic .capacity := by
  have hsound : ∀ e ∈ declaredBy (listBatch 1) quackV3, e.cause ≠ .bounds → e.Sound .words := by
    decide +kernel
  refine (decodeMessage_arithmetic_iff .words (by decide) quackV3).mpr fun e he => ?_
  by_contra hcause
  exact he.mem.2 (hsound e he.mem.1 hcause)

/-- A header whose connection id declares a length of `2 ^ 64 - 1`. -/
def longConnectionId : Bytes :=
  [1, 0, 8, 2, 0, 0xff, 0xff, 0xff, 0xff, 0xff, 0xff, 0xff, 0xff, 0xff, 1]

/-- The end of the declared text is computed before it is compared with the input. -/
theorem longConnectionId_overflows :
    decodeMessageForVersion .words longConnectionId quackV3 = .panic .overflow := by
  rfl

end QuackProtocol
