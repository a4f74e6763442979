import StmGateway.At.Getters
import StmGateway.Uart.RxBuffer

/-!
# The getters that read a line

Four getters do not look for quotes: they take what stands between the `=` and
the end of the line, by indexes into the frame buffer. An access behind the
buffer has no result. What a getter takes of the buffer is an index and a length.
-/
namespace StmGateway.At.Lines

open StmGateway.Lib StmGateway.At.Parameter StmGateway.At.Setters StmGateway.At.Getters
open StmGateway.Uart.RxBuffer (RxFrame atkIde01UartRxBufSize atkIde01UartRxGetFrameLen)

/-- `atk_ide01_send_at_cmd`, and the frame that `atk_ide01_uart_rx_get_frame`
then gives. -/
abbrev SendFrame := List UInt8 → Option (Status × RxFrame)

variable (f : RxFrame)

def load (i : Nat) : Option UInt8 :=
  if i < atkIde01UartRxBufSize then some (f.buf i) else none

/-- The source of a `rt_memcpy`. -/
def loadSlice (i n : Nat) : Option (List UInt8) :=
  if i + n ≤ atkIde01UartRxBufSize then some (slice f.buf i n) else none

/-- `while ((buf[buf_index] != '=') && (buf_index < buf_len))`. -/
def findEquals : Nat → Nat → Option Nat
  | 0, _ => none
  | fuel + 1, i => do
    let c ← load f i
    if c ≠ 0x3d ∧ i < atkIde01UartRxGetFrameLen f then findEquals fuel (i + 1) else return i

/-- The loop to the end of the line; the byte behind the index is looked at
before the index is compared with the length. -/
def findLineEnd : Nat → Nat → Option Nat
  | 0, _ => none
  | fuel + 1, i => do
    let c ← load f i
    if c = 0x0d then return i
    let d ← load f (i + 1)
    if d = 0x0a then return i
    if i < atkIde01UartRxGetFrameLen f then findLineEnd fuel (i + 1) else return i

/-- The 17 bytes of `atk_ide01_get_mac`, `none` where it returns an error. -/
def macSlice (fuel : Nat) : Option (Option (UInt16 × UInt16)) := do
  let i ← findEquals f fuel 0
  if (← load f i) = 0 then return none
  return some (UInt16.ofNat (i + 1), 17)

/-- `param_index` and `param_len` of the other three. -/
def valueSlice (fuel : Nat) : Option (Option (UInt16 × UInt16)) := do
  let i ← findEquals f fuel 0
  if (← load f i) = 0 then return none
  let paramIndex := UInt16.ofNat (i + 2)
  let i ← findLineEnd f fuel i
  if (← load f i) = 0 then return none
  return some (paramIndex, UInt16.ofNat i - paramIndex)

/-- The query, and the slice of the frame turned into what is written. -/
def lineQuery {β : Type} (send : SendFrame) (cmd : Cmd)
    (part : RxFrame → Nat → Option (Option (UInt16 × UInt16)))
    (store : RxFrame → UInt16 × UInt16 → Option β) (fuel : Nat) (dst : Bool) :
    Option (Status × Option β) :=
  if dst = false then some (.einval, none)
  else do
    let (ret, f) ← send cmd.text
    if ret ≠ .eok then return (.error, none)
    match ← part f fuel with
    | none => return (.error, none)
    | some s => return (.eok, some (← store f s))

/-- The slice and a terminator, copied to the caller's array. -/
def copySlice (s : UInt16 × UInt16) : Option Stored := do
  return storedText (← loadSlice f s.1.toNat s.2.toNat)

def atkIde01GetMac (send : SendFrame) (fuel : Nat) (mac : Bool) : Option (Status × Option Stored) :=
  lineQuery send (queryCmd 11 "AT+MAC_ID?") macSlice copySlice fuel mac

def atkIde01GetRemoteip (send : SendFrame) (fuel : Nat) (remoteip : Bool) :
    Option (Status × Option Stored) :=
  lineQuery send (queryCmd 13 "AT+REMOTEIP?") valueSlice copySlice fuel remoteip

/-- `*len = buf_index - param_index + 1`. -/
def atkIde01GetModunameLen (send : SendFrame) (fuel : Nat) (len : Bool) :
    Option (Status × Option UInt16) :=
  lineQuery send (queryCmd 13 "AT+MODUNAME?") valueSlice (fun _ s => some (s.2 + 1)) fuel len

def atkIde01GetModuname (send : SendFrame) (fuel : Nat) (moduname : Bool) :
    Option (Status × Option Stored) :=
  lineQuery send (queryCmd 13 "AT+MODUNAME?") valueSlice copySlice fuel moduname

/-! ## Where the slices lie -/

/-- A finished frame and its terminator. -/
structure Finished (f : RxFrame) : Prop where
  finsh : f.finsh = true
  len : f.len < atkIde01UartRxBufSize
  ends : f.buf f.len = 0

/-- The first `=` of the frame. -/
structure ValueAt (f : RxFrame) (e : Nat) : Prop where
  lt : e < f.len
  equals : f.buf e = 0x3d
  before : ∀ j < e, f.buf j ≠ 0x3d

def EndsLine (f : RxFrame) (j : Nat) : Prop := f.buf j = 0x0d ∨ f.buf (j + 1) = 0x0a

/-- The first end of a line from `e` on. -/
structure LineEnd (f : RxFrame) (e s : Nat) : Prop where
  le : e ≤ s
  lt : s < f.len
  ends : EndsLine f s
  before : ∀ j, e ≤ j → j < s → ¬ EndsLine f j

variable {f} {e s i : Nat}

theorem load_eq (h : i < atkIde01UartRxBufSize) : load f i = some (f.buf i) := if_pos h

theorem Finished.frameLen (h : Finished f) : atkIde01UartRxGetFrameLen f = f.len := if_pos h.finsh

/-- The first loop stops at `e`, the first `=` or the end of the frame. -/
theorem findEquals_returns (h : Finished f) (he : e = f.len ∨ f.buf e = 0x3d) (hle : e ≤ f.len)
    (hbefore : ∀ j < e, f.buf j ≠ 0x3d) :
    ∀ k i, i + k = e → Returns (fun fuel => findEquals f fuel i) e := by
  have hsize := h.len
  intro k
  induction k with
  | zero =>
    rintro i rfl
    apply (Returns.pure _).step
    intro fuel
    rw [findEquals, load_eq (by omega), Option.bind_eq_bind, Option.bind_some, h.frameLen, if_neg]
    · rfl
    · rintro ⟨hne, hlt⟩
      rcases he with he | he
      · omega
      · exact hne he
  | succ k ih =>
    intro i hi
    apply (ih (i + 1) (by omega)).step
    intro fuel
    rw [findEquals, load_eq (by omega), Option.bind_eq_bind, Option.bind_some, h.frameLen,
      if_pos ⟨hbefore i (by omega), by omega⟩]

/-- The second one stops at the end of a line, or of the frame. -/
theorem findLineEnd_returns (h : Finished f) (hs : EndsLine f s ∧ s < f.len ∨ s = f.len ∧
      f.len + 1 < atkIde01UartRxBufSize) (hbefore : ∀ j, e ≤ j → j < s → ¬ EndsLine f j) :
    ∀ k i, e ≤ i → i + k = s → Returns (fun fuel => findLineEnd f fuel i) s := by
  have hsize := h.len
  intro k
  induction k with
  | zero =>
    rintro i _ rfl
    apply (Returns.pure _).step
    intro fuel
    rw [findLineEnd, load_eq (by omega), Option.bind_eq_bind, Option.bind_some, h.frameLen]
    split
    · rfl
    · next hcr =>
      rw [load_eq (by omega), Option.bind_some]
      rcases hs with ⟨hends, _⟩ | ⟨hlen, _⟩
      · rw [if_pos (hends.resolve_left hcr)]
        rfl
      · rw [if_neg (show ¬ i < f.len by omega), ite_self]
        rfl
  | succ k ih =>
    intro i he hi
    apply (ih (i + 1) (by omega) (by omega)).step
    intro fuel
    obtain ⟨hcr, hlf⟩ := not_or.mp (hbefore i he (by omega))
    rw [findLineEnd, load_eq (by omega), Option.bind_eq_bind, Option.bind_some, if_neg hcr,
      load_eq (by omega), Option.bind_some, if_neg hlf, h.frameLen, if_pos (by omega)]

/-- In a frame that fills the buffer it looks behind the buffer, where no line ends. -/
theorem findLineEnd_stuck (h : Finished f) (hfull : f.len + 1 = atkIde01UartRxBufSize)
    (hnone : ∀ j, e ≤ j → j < f.len → ¬ EndsLine f j) :
    ∀ fuel i, e ≤ i → i ≤ f.len → findLineEnd f fuel i = none := by
  intro fuel
  induction fuel with
  | zero => exact fun _ _ _ => rfl
  | succ fuel ih =>
    intro i he hi
    rw [findLineEnd, load_eq (by omega), Option.bind_eq_bind, Option.bind_some]
    by_cases hlast : i = f.len
    · have hcr : f.buf i ≠ 0x0d := by
        rw [hlast, h.ends]
        decide
      rw [if_neg hcr, load, if_neg (by omega)]
      rfl
    · obtain ⟨hcr, hlf⟩ := not_or.mp (hnone i he (by omega))
      rw [if_neg hcr, load_eq (by omega), Option.bind_some, if_neg hlf, h.frameLen,
        if_pos (by omega), ih (i + 1) (by omega) (by omega)]

/-- No `=`, or one at `e`. -/
theorem valueAt_or (h : Finished f) :
    (Returns (fun fuel => findEquals f fuel 0) f.len ∧ ∀ e, ¬ ValueAt f e) ∨
      ∃ e, ValueAt f e ∧ Returns (fun fuel => findEquals f fuel 0) e := by
  classical
  by_cases hex : ∃ j, j < f.len ∧ f.buf j = 0x3d
  · obtain ⟨hlt, hsrc⟩ := Nat.find_spec hex
    have hbefore : ∀ j < Nat.find hex, f.buf j ≠ 0x3d := fun j hj hne =>
      Nat.find_min hex hj ⟨by omega, hne⟩
    exact .inr ⟨Nat.find hex, ⟨hlt, hsrc, hbefore⟩,
      findEquals_returns h (.inr hsrc) hlt.le hbefore _ 0 (Nat.zero_add _)⟩
  · refine .inl ⟨findEquals_returns h (.inl rfl) le_rfl (fun j hj hne => hex ⟨j, hj, hne⟩) _ 0
      (Nat.zero_add _), fun e he => hex ⟨e, he.lt, he.equals⟩⟩

theorem ValueAt.unique {e' : Nat} (h : ValueAt f e) (h' : ValueAt f e') : e = e' := by
  rcases Nat.lt_trichotomy e e' with hlt | heq | hlt
  · exact absurd h.equals (h'.before e hlt)
  · exact heq
  · exact absurd h'.equals (h.before e' hlt)

theorem LineEnd.unique {s' : Nat} (h : LineEnd f e s) (h' : LineEnd f e s') : s = s' := by
  rcases Nat.lt_trichotomy s s' with hlt | heq | hlt
  · exact absurd h.ends (h'.before s h.le hlt)
  · exact heq
  · exact absurd h'.ends (h.before s' h'.le hlt)

/-- No end of a line behind `e`, or one at `s`. -/
theorem lineEnd_or (f : RxFrame) (e : Nat) :
    (∀ j, e ≤ j → j < f.len → ¬ EndsLine f j) ∨ ∃ s, LineEnd f e s := by
  classical
  by_cases hex : ∃ j, e ≤ j ∧ j < f.len ∧ EndsLine f j
  · obtain ⟨hle, hlt, hends⟩ := Nat.find_spec hex
    exact .inr ⟨Nat.find hex, hle, hlt, hends, fun j hj hlt' hends' =>
      Nat.find_min hex hlt' ⟨hj, by omega, hends'⟩⟩
  · exact .inl fun j hj hlt hends => hex ⟨j, hj, hlt, hends⟩

section Parts

variable (h : Finished f)

include h

theorem macSlice_missing (hloop : Returns (fun fuel => findEquals f fuel 0) f.len) :
    Returns (macSlice f) none := by
  obtain ⟨bound, hbound⟩ := hloop
  refine ⟨bound, fun fuel hle => ?_⟩
  have hfind : findEquals f fuel 0 = some f.len := hbound fuel hle
  simp only [macSlice, hfind, load_eq h.len, h.ends, Option.bind_eq_bind, Option.bind_some,
    ↓reduceIte, Option.pure_def]

theorem macSlice_found (he : ValueAt f e) (hloop : Returns (fun fuel => findEquals f fuel 0) e) :
    Returns (macSlice f) (some (UInt16.ofNat (e + 1), 17)) := by
  have hlt := he.lt
  have hsize := h.len
  obtain ⟨bound, hbound⟩ := hloop
  refine ⟨bound, fun fuel hle => ?_⟩
  have hfind : findEquals f fuel 0 = some e := hbound fuel hle
  simp only [macSlice, hfind, load_eq (show e < atkIde01UartRxBufSize by omega), he.equals,
    Option.bind_eq_bind, Option.bind_some, Option.pure_def]
  rfl

theorem valueSlice_missing (hloop : Returns (fun fuel => findEquals f fuel 0) f.len) :
    Returns (valueSlice f) none := by
  obtain ⟨bound, hbound⟩ := hloop
  refine ⟨bound, fun fuel hle => ?_⟩
  have hfind : findEquals f fuel 0 = some f.len := hbound fuel hle
  simp only [valueSlice, hfind, load_eq h.len, h.ends, Option.bind_eq_bind, Option.bind_some,
    ↓reduceIte, Option.pure_def]

/-- From a `=` on the end of the line decides. -/
theorem valueSlice_found (he : ValueAt f e) (hloop : Returns (fun fuel => findEquals f fuel 0) e)
    (hline : Returns (fun fuel => findLineEnd f fuel e) s) (hs : s < atkIde01UartRxBufSize) :
    Returns (valueSlice f) (if f.buf s = 0 then none
      else some (UInt16.ofNat (e + 2), UInt16.ofNat s - UInt16.ofNat (e + 2))) := by
  have hlt := he.lt
  have hsize := h.len
  obtain ⟨m, hm⟩ := hloop
  obtain ⟨n, hn⟩ := hline
  refine ⟨max m n, fun fuel hle => ?_⟩
  have hfind : findEquals f fuel 0 = some e := hm fuel (by omega)
  have hend : findLineEnd f fuel e = some s := hn fuel (by omega)
  simp only [valueSlice, hfind, load_eq (show e < atkIde01UartRxBufSize by omega), he.equals, hend,
    load_eq hs, Option.bind_eq_bind, Option.bind_some, Option.pure_def]
  rw [if_neg (by decide)]
  split <;> rfl

theorem valueSlice_stuck (he : ValueAt f e) (hfull : f.len + 1 = atkIde01UartRxBufSize)
    (hnone : ∀ j, e ≤ j → j < f.len → ¬ EndsLine f j)
    (hloop : Returns (fun fuel => findEquals f fuel 0) e) (r : Option (UInt16 × UInt16)) :
    ¬ Returns (valueSlice f) r := by
  have hlt := he.lt
  have hsize := h.len
  rintro ⟨m, hm⟩
  obtain ⟨n, hn⟩ := hloop
  have hrun := hm (max m n) (Nat.le_max_left _ _)
  have hfind : findEquals f (max m n) 0 = some e := hn _ (Nat.le_max_right _ _)
  simp only [valueSlice, hfind, load_eq (show e < atkIde01UartRxBufSize by omega), he.equals,
    findLineEnd_stuck h hfull hnone _ e le_rfl hlt.le, Option.bind_eq_bind, Option.bind_some,
    Option.bind_none] at hrun
  rw [if_neg (by decide)] at hrun
  cases hrun

end Parts

/-- A line that answers with the frame. -/
def answered (f : RxFrame) : SendFrame := fun _ => some (.eok, f)

/-- The text of a slice and its terminator. -/
def written (f : RxFrame) (s : UInt16 × UInt16) : Stored :=
  storedText (slice f.buf s.1.toNat s.2.toNat)

/-- The getter returns an error and writes nothing, or takes a slice that lies
in the frame. -/
def Takes {β : Type} (f : RxFrame) (part : RxFrame → Nat → Option (Option (UInt16 × UInt16)))
    (run : Nat → Option (Status × Option β)) (out : UInt16 × UInt16 → β) : Prop :=
  (Returns (part f) none ∧ Returns run (.error, none)) ∨
    ∃ s, Returns (part f) (some s) ∧ s.1.toNat + s.2.toNat ≤ f.len ∧
      Returns run (.eok, some (out s))

inductive LineGetter where
  | mac
  | remoteip
  | modunameLen
  | moduname

/-- Every access is inside the buffer and what is taken inside the frame; and the
length of the name is the number of bytes that the name takes with its terminator. -/
def LineGetter.Stays (f : RxFrame) : LineGetter → Prop
  | .mac => Takes f macSlice (fun fuel => atkIde01GetMac (answered f) fuel true) (written f)
  | .remoteip =>
    Takes f valueSlice (fun fuel => atkIde01GetRemoteip (answered f) fuel true) (written f)
  | .modunameLen =>
    Takes f valueSlice (fun fuel => atkIde01GetModunameLen (answered f) fuel true) fun s => s.2 + 1
  | .moduname =>
    Takes f valueSlice (fun fuel => atkIde01GetModuname (answered f) fuel true) (written f) ∧
      ∀ name len, Returns (fun fuel => atkIde01GetModuname (answered f) fuel true) (.eok, some name) →
        Returns (fun fuel => atkIde01GetModunameLen (answered f) fuel true) (.eok, some len) →
        ∀ j, (name j).isSome ↔ j < len.toNat

/-- 17 bytes of the frame are left behind the `=`; for the others, the line ends
two bytes behind the `=` or later, if it ends at all, and if it does not the
frame does not fill the buffer. A line may also end at a NUL. -/
def LineGetter.Fits (f : RxFrame) : LineGetter → Prop
  | .mac => ∀ e, ValueAt f e → e + 18 ≤ f.len
  | _ => ∀ e, ValueAt f e →
    (f.len + 1 < atkIde01UartRxBufSize ∨ ∃ s, LineEnd f e s) ∧
      ∀ s, LineEnd f e s → f.buf s = 0 ∨ e + 2 ≤ s

theorem lineQuery_none {β : Type} {cmd : Cmd} {part : RxFrame → Nat → Option (Option (UInt16 × UInt16))}
    {store : RxFrame → UInt16 × UInt16 → Option β} (hpart : Returns (part f) none) :
    Returns (fun fuel => lineQuery (answered f) cmd part store fuel true) (.error, none) := by
  obtain ⟨bound, hbound⟩ := hpart
  refine ⟨bound, fun fuel hle => ?_⟩
  simp only [lineQuery, answered, hbound fuel hle, Option.bind_eq_bind, Option.bind_some,
    Bool.true_eq_false, ↓reduceIte, ne_eq, not_true_eq_false, Option.pure_def]

theorem lineQuery_some {β : Type} {cmd : Cmd} {part : RxFrame → Nat → Option (Option (UInt16 × UInt16))}
    {store : RxFrame → UInt16 × UInt16 → Option β} {p : UInt16 × UInt16} {b : β}
    (hpart : Returns (part f) (some p)) (hstore : store f p = some b) :
    Returns (fun fuel => lineQuery (answered f) cmd part store fuel true) (.eok, some b) := by
  obtain ⟨bound, hbound⟩ := hpart
  refine ⟨bound, fun fuel hle => ?_⟩
  simp only [lineQuery, answered, hbound fuel hle, hstore, Option.bind_eq_bind, Option.bind_some,
    Bool.true_eq_false, ↓reduceIte, ne_eq, not_true_eq_false, Option.pure_def]

theorem copySlice_eq (h : Finished f) {p : UInt16 × UInt16} (hp : p.1.toNat + p.2.toNat ≤ f.len) :
    copySlice f p = some (written f p) := by
  have hsize := h.len
  rw [copySlice, loadSlice, if_pos (by omega)]
  rfl

/-- The slice decides, if it is taken at all. -/
theorem takes_iff {β : Type} (cmd : Cmd) {part : RxFrame → Nat → Option (Option (UInt16 × UInt16))}
    (store : RxFrame → UInt16 × UInt16 → Option β) {out : UInt16 × UInt16 → β}
    (hstore : ∀ p, p.1.toNat + p.2.toNat ≤ f.len → store f p = some (out p)) :
    Takes f part (fun fuel => lineQuery (answered f) cmd part store fuel true) out ↔
      ∃ o, Returns (part f) o ∧ ∀ p ∈ o, p.1.toNat + p.2.toNat ≤ f.len := by
  constructor
  · rintro (⟨hpart, _⟩ | ⟨p, hpart, hin, _⟩)
    · exact ⟨none, hpart, nofun⟩
    · exact ⟨some p, hpart, fun q hq => by cases hq; exact hin⟩
  · rintro ⟨o, hpart, hin⟩
    cases o with
    | none => exact .inl ⟨hpart, lineQuery_none hpart⟩
    | some p =>
      have hp := hin p rfl
      exact .inr ⟨p, hpart, hp, lineQuery_some hpart (hstore p hp)⟩

theorem ofNat16_toNat {n : Nat} (h : n < 65536) : (UInt16.ofNat n).toNat = n := by
  rw [UInt16.toNat_ofNat']
  exact Nat.mod_eq_of_lt h

theorem mac_inside_iff (h : Finished f) :
    (∃ o, Returns (macSlice f) o ∧ ∀ p ∈ o, p.1.toNat + p.2.toNat ≤ f.len) ↔
      LineGetter.mac.Fits f := by
  have hsize := h.len
  unfold atkIde01UartRxBufSize at hsize
  rcases valueAt_or h with ⟨hloop, hnone⟩ | ⟨e, he, hloop⟩
  · exact ⟨fun _ e he => absurd he (hnone e), fun _ => ⟨none, macSlice_missing h hloop, nofun⟩⟩
  · have hlt := he.lt
    have hslice := macSlice_found h he hloop
    have hin : (UInt16.ofNat (e + 1)).toNat + (17 : UInt16).toNat ≤ f.len ↔ e + 18 ≤ f.len := by
      rw [ofNat16_toNat (by omega)]
      change e + 1 + 17 ≤ f.len ↔ _
      omega
    constructor
    · rintro ⟨o, ho, hall⟩ e' he'
      cases he.unique he'
      cases ho.unique hslice
      exact hin.mp (hall _ rfl)
    · intro hfits
      exact ⟨_, hslice, fun p hp => by cases hp; exact hin.mpr (hfits e he)⟩

/-- The 16-bit difference is the length exactly where the line ends behind the
index of the parameter. -/
theorem sub_inside_iff {len : Nat} (hlen : len < 2048) (hs : s < len) (he : e < len) :
    (UInt16.ofNat (e + 2)).toNat + (UInt16.ofNat s - UInt16.ofNat (e + 2)).toNat ≤ len ↔ e + 2 ≤ s := by
  rw [UInt16.toNat_sub, ofNat16_toNat (by omega), ofNat16_toNat (by omega)]
  omega

theorem value_inside_iff (h : Finished f) :
    (∃ o, Returns (valueSlice f) o ∧ ∀ p ∈ o, p.1.toNat + p.2.toNat ≤ f.len) ↔
      ∀ e, ValueAt f e → (f.len + 1 < atkIde01UartRxBufSize ∨ ∃ s, LineEnd f e s) ∧
        ∀ s, LineEnd f e s → f.buf s = 0 ∨ e + 2 ≤ s := by
  have hsize := h.len
  rcases valueAt_or h with ⟨hloop, hnone⟩ | ⟨e, he, hloop⟩
  · exact ⟨fun _ e he => absurd he (hnone e), fun _ => ⟨none, valueSlice_missing h hloop, nofun⟩⟩
  have hlt := he.lt
  rcases lineEnd_or f e with hnone | ⟨s, hs⟩
  · have hno : ∀ s, ¬ LineEnd f e s := fun s hs => hnone s hs.le hs.lt hs.ends
    by_cases hroom : f.len + 1 < atkIde01UartRxBufSize
    · have hline := findLineEnd_returns (e := e) h (.inr ⟨rfl, hroom⟩)
        (fun j hj hlt => hnone j hj hlt) (f.len - e) e le_rfl (by omega)
      have hslice := valueSlice_found h he hloop hline hsize
      rw [if_pos h.ends] at hslice
      refine ⟨fun _ e' he' => ?_, fun _ => ⟨none, hslice, nofun⟩⟩
      cases he.unique he'
      exact ⟨.inl hroom, fun s hs => absurd hs (hno s)⟩
    · constructor
      · rintro ⟨o, ho, _⟩
        exact absurd ho (valueSlice_stuck h he (by omega) hnone hloop o)
      · intro hfits
        rcases (hfits e he).1 with hroom' | ⟨s, hs⟩
        · exact absurd hroom' hroom
        · exact absurd hs (hno s)
  · have hslt := hs.lt
    have hline := findLineEnd_returns (e := e) h (.inl ⟨hs.ends, hslt⟩) hs.before (s - e) e le_rfl
      (by have := hs.le; omega)
    have hslice := valueSlice_found h he hloop hline (by omega)
    unfold atkIde01UartRxBufSize at hsize
    by_cases hnul : f.buf s = 0
    · rw [if_pos hnul] at hslice
      refine ⟨fun _ e' he' => ?_, fun _ => ⟨none, hslice, nofun⟩⟩
      cases he.unique he'
      exact ⟨.inr ⟨s, hs⟩, fun s' hs' => .inl (hs.unique hs' ▸ hnul)⟩
    · rw [if_neg hnul] at hslice
      constructor
      · rintro ⟨o, ho, hall⟩ e' he'
        cases he.unique he'
        cases ho.unique hslice
        refine ⟨.inr ⟨s, hs⟩, fun s' hs' => .inr ?_⟩
        cases hs.unique hs'
        exact (sub_inside_iff hsize hslt hlt).mp (hall _ rfl)
      · intro hfits
        refine ⟨_, hslice, fun p hp => ?_⟩
        cases hp
        exact (sub_inside_iff hsize hslt hlt).mpr (((hfits e he).2 s hs).resolve_left hnul)

theorem storedText_isSome (text : List UInt8) (j : Nat) :
    (storedText text j).isSome ↔ j < text.length + 1 := by
  simp [storedText]

/-- The length of the name is that of the same slice. -/
theorem name_length_agrees (h : Finished f) {o : Option (UInt16 × UInt16)}
    (ho : Returns (valueSlice f) o) (hall : ∀ p ∈ o, p.1.toNat + p.2.toNat ≤ f.len) {name : Stored}
    {len : UInt16}
    (hname : Returns (fun fuel => atkIde01GetModuname (answered f) fuel true) (.eok, some name))
    (hlen : Returns (fun fuel => atkIde01GetModunameLen (answered f) fuel true) (.eok, some len))
    (j : Nat) : (name j).isSome ↔ j < len.toNat := by
  have hsize := h.len
  unfold atkIde01UartRxBufSize at hsize
  cases o with
  | none =>
    have hnone := @lineQuery_none f _ (queryCmd 13 "AT+MODUNAME?") valueSlice copySlice ho
    cases hname.unique hnone
  | some p =>
    have hin := hall p rfl
    have hsome := @lineQuery_some f _ (queryCmd 13 "AT+MODUNAME?") valueSlice copySlice p _ ho
      (copySlice_eq h hin)
    have hcount := @lineQuery_some f _ (queryCmd 13 "AT+MODUNAME?") valueSlice
      (fun _ s => some (s.2 + 1)) p _ ho rfl
    cases hname.unique hsome
    cases hlen.unique hcount
    have hsucc : (p.2 + 1).toNat = p.2.toNat + 1 := by
      rw [UInt16.toNat_add]
      exact Nat.mod_eq_of_lt (by change p.2.toNat + 1 < 65536; omega)
    rw [written, storedText_isSome, slice_length, hsucc]

/-- Each of the four getters stays inside the frame exactly where its frame fits. -/
theorem stays_iff (h : Finished f) (g : LineGetter) : g.Stays f ↔ g.Fits f := by
  have hcopy := fun p => @copySlice_eq f h p
  cases g with
  | mac => exact (takes_iff _ _ hcopy).trans (mac_inside_iff h)
  | remoteip => exact (takes_iff _ _ hcopy).trans (value_inside_iff h)
  | modunameLen =>
    exact (takes_iff _ (fun _ s => some (s.2 + 1)) fun _ _ => rfl).trans (value_inside_iff h)
  | moduname =>
    have htakes := (takes_iff (queryCmd 13 "AT+MODUNAME?") _ hcopy).trans (value_inside_iff h)
    refine ⟨fun hstays => htakes.mp hstays.1, fun hfits => ⟨htakes.mpr hfits, ?_⟩⟩
    intro name len hname hlen
    obtain ⟨o, ho, hall⟩ := (value_inside_iff h).mpr hfits
    exact name_length_agrees h ho hall hname hlen

/-- The frame of a text. -/
def frameOf (text : String) : RxFrame :=
  ⟨fun i => (ascii text).getD i 0, (ascii text).length, true⟩

theorem stays_remoteip :
    LineGetter.remoteip.Stays (frameOf "=\"8.8.8.8\r\nOK") ↔
      LineGetter.remoteip.Fits (frameOf "=\"8.8.8.8\r\nOK") :=
  stays_iff ⟨rfl, by decide, by decide⟩ .remoteip

/-- An empty value: the length of the parameter is 65535. -/
theorem empty_value_leaves_frame :
    Finished (frameOf "+RIP=\r\nOK") ∧
      Returns (valueSlice (frameOf "+RIP=\r\nOK")) (some (6, 65535)) ∧
      ¬ LineGetter.remoteip.Stays (frameOf "+RIP=\r\nOK") := by
  have hfinished : Finished (frameOf "+RIP=\r\nOK") := ⟨rfl, by decide, by decide⟩
  have hslice : Returns (valueSlice (frameOf "+RIP=\r\nOK")) (some (6, 65535)) := by
    refine ⟨8, fun fuel hle => ?_⟩
    obtain ⟨k, rfl⟩ : ∃ k, fuel = k + 8 := ⟨fuel - 8, by omega⟩
    rfl
  refine ⟨hfinished, hslice, ?_⟩
  rintro (⟨hnone, _⟩ | ⟨p, hsome, hin, _⟩)
  · cases hnone.unique hslice
  · cases hsome.unique hslice
    exact absurd hin (by decide)

end StmGateway.At.Lines
