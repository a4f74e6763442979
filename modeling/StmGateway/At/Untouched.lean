import StmGateway.At.Lines
import StmGateway.At.Missing

/-!
# What a failed query leaves behind

A getter that stores one value stores it last. The link queries store two, but
can only fail before the first. `atk_ide01_get_uart` stores each field as soon
as it is decoded, so a later field that is refused leaves the earlier ones
behind. A parameter that is too long for the local array is compared too: what
does not fit lies behind the array.
-/
namespace StmGateway.At.Untouched

open StmGateway.Lib StmGateway.At.Parameter StmGateway.At.Ring StmGateway.At.Setters
open StmGateway.At.Getters StmGateway.At.Lines
open StmGateway.Uart.RxBuffer (RxFrame)

variable {buf : Nat → UInt8} {stack : Stack} {num : UInt8} {fuel : Nat}

/-- `atk_ide01_get_parameter` as the getters call it. -/
theorem getParameter_settles (src : Nat → UInt8) (paramNum : UInt8) (paramIndex paramLen : Option UInt16)
    (stackIndex stackLen : UInt16) :
    Settles (atkIde01GetParameter src paramNum paramIndex paramLen stackIndex stackLen) := by
  by_cases hnum : paramNum = 0
  · intro fuel r hr
    rw [atkIde01GetParameter, if_pos hnum] at hr ⊢
    exact hr
  · have hscan : ∀ i : UInt8, Settles fun fuel =>
        if src i.toNat ≠ 0x3d then some (Status.einval, paramIndex, paramLen)
        else (scanQuotes src paramLen.isSome fuel
          ⟨i, paramNum, false, false, stackIndex, stackLen⟩).bind fun s =>
            some (Status.eok, paramIndex.map fun _ => s.paramIndex,
              paramLen.map fun _ => s.paramLen) := by
      intro i
      by_cases hequals : src i.toNat ≠ 0x3d
      · simp only [if_pos hequals]
        exact settles_const _
      · simp only [if_neg hequals]
        exact (scanQuotes_settles _).bind fun s => settles_const _
    have hbind := (seekEquals_settles src 0).bind hscan
    intro fuel r hr
    rw [atkIde01GetParameter, if_neg hnum] at hr ⊢
    exact hbind fuel r hr

theorem copyParameter_settles (buf : Nat → UInt8) (num : UInt8) (stack : Stack) :
    Settles (copyParameter buf num stack) :=
  (getParameter_settles buf num (some 0) (some 0) (stack num).1 (stack num).2).bind fun r =>
    match r with
    | (_, some _, some _) => settles_const _
    | (_, none, _) => settles_const _
    | (_, some _, none) => settles_const _

/-- A copy that is made has found the parameter. -/
theorem getParameter_of_copy {r : Status × List UInt8} (h : copyParameter buf num stack fuel = some r) :
    ∃ r', Returns (atkIde01GetParameter buf num (some 0) (some 0) (stack num).1 (stack num).2) r' := by
  obtain ⟨r', hget, _⟩ := Option.bind_eq_some_iff.mp h
  exact ⟨r', (getParameter_settles _ _ _ _ _ _).returns hget⟩

/-- Where the parameter is looked for without end, nothing is copied. -/
theorem copyParameter_none (h : ∀ r, ¬ Returns
    (atkIde01GetParameter buf num (some 0) (some 0) (stack num).1 (stack num).2) r) :
    copyParameter buf num stack fuel = none := by
  by_contra hne
  obtain ⟨r, hcopy⟩ := Option.ne_none_iff_exists'.mp hne
  obtain ⟨r', hget⟩ := getParameter_of_copy hcopy
  exact h r' hget

/-- The answer has a `=` in reach of the index. -/
def HasEquals (buf : Nat → UInt8) : Prop :=
  ∃ i, Returns (fun fuel => seekEquals buf fuel 0) i ∧ buf i.toNat = 0x3d

/-- The status does not depend on the parameter. -/
theorem copyParameter_status (hnum : num ≠ 0) {ret : Status} {text : List UInt8}
    (h : copyParameter buf num stack fuel = some (ret, text)) : ret = .eok ↔ HasEquals buf := by
  unfold copyParameter at h
  obtain ⟨⟨st, i, l⟩, hget, hrest⟩ := Option.bind_eq_some_iff.mp h
  have hst : ret = st := by
    cases i with
    | none => cases hrest
    | some i =>
      cases l with
      | none => cases hrest
      | some l =>
        cases hrest
        rfl
  rw [atkIde01GetParameter, if_neg hnum] at hget
  obtain ⟨e, hseek, hscan⟩ := Option.bind_eq_some_iff.mp hget
  have hreturns := (seekEquals_settles buf 0).returns hseek
  rw [hst]
  by_cases hequals : buf e.toNat = 0x3d
  · rw [if_neg (not_not.mpr hequals)] at hscan
    obtain ⟨s, _, hs⟩ := Option.bind_eq_some_iff.mp hscan
    cases hs
    exact ⟨fun _ => ⟨e, hreturns, hequals⟩, fun _ => rfl⟩
  · rw [if_pos hequals] at hscan
    cases hscan
    refine ⟨fun heok => absurd heok (by decide), fun hhas => ?_⟩
    obtain ⟨i, hi, hsrc⟩ := hhas
    cases hi.unique hreturns
    exact absurd hsrc hequals

/-! ## The fields of `atk_ide01_get_uart` -/

/-- Parameter `num` fits the local array and is in the table. -/
def Decodes {β : Type} (buf : Nat → UInt8) (stack : Stack) (num : UInt8) (size : Nat)
    (table : List (String × β)) : Prop :=
  ∃ text v, Returns (copyParameter buf num stack) (.eok, text) ∧ text.length < size ∧
    lookup table (text.takeWhile (· ≠ 0)) = some v

/-- It fits and is not in the table. -/
def Refused {β : Type} (buf : Nat → UInt8) (stack : Stack) (num : UInt8) (size : Nat)
    (table : List (String × β)) : Prop :=
  ∃ text, Returns (copyParameter buf num stack) (.eok, text) ∧ text.length < size ∧
    lookup table (text.takeWhile (· ≠ 0)) = none

variable {β : Type} {size : Nat} {table : List (String × β)}

theorem uartField_of_copy {text : List UInt8} (hcopy : Returns (copyParameter buf num stack) (.eok, text))
    {r : Status × Option β} (hmatch : matchText size table text = some r) :
    Returns (fun fuel => uartField buf stack fuel true num size table) r := by
  obtain ⟨bound, hbound⟩ := hcopy
  refine ⟨bound, fun fuel hle => ?_⟩
  simp only [uartField, hbound fuel hle, ↓reduceIte, Option.bind_eq_bind, Option.bind_some, ne_eq,
    not_true_eq_false, hmatch]

theorem matchText_eq {text : List UInt8} (hlen : text.length < size) :
    matchText size table text = some (match lookup table (text.takeWhile (· ≠ 0)) with
      | some v => (.eok, some v)
      | none => (.error, none)) := by
  rw [matchText, localText, if_pos hlen, Option.bind_eq_bind, Option.bind_some]
  cases lookup table (text.takeWhile (· ≠ 0)) <;> rfl

theorem uartField_decodes (h : Decodes buf stack num size table) :
    ∃ v, Returns (fun fuel => uartField buf stack fuel true num size table) (.eok, some v) := by
  obtain ⟨text, v, hcopy, hlen, hlookup⟩ := h
  exact ⟨v, uartField_of_copy hcopy (by rw [matchText_eq hlen, hlookup])⟩

theorem uartField_refused (h : Refused buf stack num size table) :
    Returns (fun fuel => uartField buf stack fuel true num size table) (.error, none) := by
  obtain ⟨text, hcopy, hlen, hlookup⟩ := h
  exact uartField_of_copy hcopy (by rw [matchText_eq hlen, hlookup])

/-- What a block that was carried out says about the answer. -/
theorem uartField_inv (hnum : num ≠ 0) {ret : Status} {v : Option β}
    (h : uartField buf stack fuel true num size table = some (ret, v)) :
    (ret = .eok ∧ HasEquals buf ∧ Decodes buf stack num size table ∧ ∃ w, v = some w ∧
        Returns (fun fuel => uartField buf stack fuel true num size table) (.eok, some w)) ∨
      (ret ≠ .eok ∧ (HasEquals buf → Refused buf stack num size table)) := by
  rw [uartField, if_pos rfl] at h
  obtain ⟨⟨st, text⟩, hcopy, hrest⟩ := Option.bind_eq_some_iff.mp h
  change (if st ≠ .eok then some (.error, none) else matchText size table text) = _ at hrest
  have hstatus := copyParameter_status hnum hcopy
  by_cases hst : st = .eok
  · subst hst
    have hreturns := (copyParameter_settles buf num stack).returns hcopy
    rw [if_neg (not_not.mpr rfl)] at hrest
    by_cases hlen : text.length < size
    · rw [matchText_eq hlen] at hrest
      cases hlookup : lookup table (text.takeWhile (· ≠ 0)) with
      | some w =>
        rw [hlookup] at hrest
        cases hrest
        exact .inl ⟨rfl, hstatus.mp rfl, ⟨text, w, hreturns, hlen, hlookup⟩, w, rfl,
          uartField_of_copy hreturns (by rw [matchText_eq hlen, hlookup])⟩
      | none =>
        rw [hlookup] at hrest
        cases hrest
        exact .inr ⟨by decide, fun _ => ⟨text, hreturns, hlen, hlookup⟩⟩
    · rw [matchText, localText, if_neg hlen] at hrest
      cases hrest
  · rw [if_pos hst] at hrest
    cases hrest
    exact .inr ⟨by decide, fun hequals => absurd (hstatus.mpr hequals) hst⟩

/-- A call that returns with `P`. -/
def Ends {γ : Type} (run : Nat → Option (Status × γ)) (P : Status → γ → Prop) : Prop :=
  ∃ st out, Returns run (st, out) ∧ P st out

/-- Fields that are asked for or not, and that decode or are refused: the first
refused one ends the call, with `fail` of whether another was stored before;
`done` is what holds if none is refused. -/
def Chain (fail : Bool → Prop) (done : Prop) : List (Bool × Prop × Prop) → Bool → Prop
  | [], _ => done
  | (false, _, _) :: rest, stored => Chain fail done rest stored
  | (true, decodes, refused) :: rest, stored =>
    (fail stored ∧ refused) ∨ (decodes ∧ Chain fail done rest true)

def noUart : UartOut := ⟨none, none, none, none⟩

/-- One of the four blocks and the rest of the function. -/
def afterField (buf : Nat → UInt8) (stack : Stack) (fuel : Nat) (dst : Bool) (num : UInt8) (size : Nat)
    (table : List (String × β)) (fail : UartOut) (next : Option β → Option (Status × UartOut)) :
    Option (Status × UartOut) := do
  let (ret, v) ← uartField buf stack fuel dst num size table
  if ret ≠ .eok then return (.error, fail)
  next v

theorem afterField_eok {dst : Bool} {fail : UartOut} {next : Option β → Option (Status × UartOut)}
    {v : Option β} (h : uartField buf stack fuel dst num size table = some (.eok, v)) :
    afterField buf stack fuel dst num size table fail next = next v := by
  rw [afterField, h]
  rfl

theorem afterField_error {dst : Bool} {fail : UartOut} {next : Option β → Option (Status × UartOut)}
    {ret : Status} {v : Option β} (hret : ret ≠ .eok)
    (h : uartField buf stack fuel dst num size table = some (ret, v)) :
    afterField buf stack fuel dst num size table fail next = some (.error, fail) := by
  rw [afterField, h]
  exact if_pos hret

theorem Decodes.hasEquals (hnum : num ≠ 0) (h : Decodes buf stack num size table) : HasEquals buf := by
  obtain ⟨text, _, ⟨m, hm⟩, _⟩ := h
  exact (copyParameter_status hnum (hm m le_rfl)).mp rfl

section Blocks

variable {P : Status → UartOut → Prop} {fail : Bool → Prop} {done : Prop}

/-- What a block adds to the fields behind it. -/
theorem ends_field (stack : Stack) (num : UInt8) (size : Nat) (table : List (String × β))
    (dst stored : Bool) (out : UartOut) (rest : List (Bool × Prop × Prop))
    (next : Option β → Nat → Option (Status × UartOut)) (hnum : num ≠ 0)
    (hfail : P .error out ↔ fail stored) (hequals : fail stored → HasEquals buf)
    (hskip : dst = false → (Ends (next none) P ↔ Chain fail done rest stored))
    (hdecoded : ∀ v, HasEquals buf → (Ends (next (some v)) P ↔ Chain fail done rest true)) :
    Ends (fun fuel => afterField buf stack fuel dst num size table out fun v => next v fuel) P ↔
      Chain fail done
        ((dst, Decodes buf stack num size table, Refused buf stack num size table) :: rest) stored := by
  cases dst with
  | false => exact hskip rfl
  | true =>
    constructor
    · rintro ⟨st, out', ⟨bound, hrun⟩, hP⟩
      have hfirst : afterField buf stack bound true num size table out (fun v => next v bound) =
          some (st, out') := hrun bound le_rfl
      obtain ⟨⟨ret, v⟩, hfield, _⟩ := Option.bind_eq_some_iff.mp hfirst
      rcases uartField_inv hnum hfield with ⟨rfl, heq, hdec, w, rfl, n, hn⟩ | ⟨hret, href⟩
      · right
        refine ⟨hdec, (hdecoded w heq).mp ⟨st, out', ⟨max bound n, fun fuel hle => ?_⟩, hP⟩⟩
        exact (afterField_eok (hn fuel (by omega))).symm.trans (hrun fuel (by omega))
      · left
        rw [afterField_error hret hfield] at hfirst
        cases hfirst
        exact ⟨hfail.mp hP, href (hequals (hfail.mp hP))⟩
    · rintro (⟨hstored, href⟩ | ⟨hdec, hhalf⟩)
      · obtain ⟨n, hn⟩ := uartField_refused href
        exact ⟨.error, out, ⟨n, fun fuel hle => afterField_error (by decide) (hn fuel hle)⟩,
          hfail.mpr hstored⟩
      · obtain ⟨v, n, hn⟩ := uartField_decodes hdec
        obtain ⟨st, out', ⟨k, hk⟩, hP⟩ := (hdecoded v (hdec.hasEquals hnum)).mpr hhalf
        exact ⟨st, out', ⟨max n k, fun fuel hle =>
          (afterField_eok (hn fuel (by omega))).trans (hk fuel (by omega))⟩, hP⟩

/-- The fields that a call asks for, with what the answer has for each. A local
array of `size` bytes takes `room size`. -/
def uartFields (room : Nat → Nat) (buf : Nat → UInt8) (stack : Stack)
    (baudrate stop data parity : Bool) : List (Bool × Prop × Prop) :=
  [(baudrate, Decodes buf stack 1 (room 7) baudrateTable, Refused buf stack 1 (room 7) baudrateTable),
    (stop, Decodes buf stack 2 (room 2) stopTable, Refused buf stack 2 (room 2) stopTable),
    (data, Decodes buf stack 3 (room 2) dataTable, Refused buf stack 3 (room 2) dataTable),
    (parity, Decodes buf stack 4 (room 5) parityTable, Refused buf stack 4 (room 5) parityTable)]

/-- What `atk_ide01_get_uart` does with the frame. -/
def uartBlocks (room : Nat → Nat) (buf : Nat → UInt8) (stack : Stack)
    (baudrate stop data parity : Bool) (fuel : Nat) : Option (Status × UartOut) :=
  afterField buf stack fuel baudrate 1 (room 7) baudrateTable noUart fun b =>
    afterField buf stack fuel stop 2 (room 2) stopTable ⟨b, none, none, none⟩ fun s =>
      afterField buf stack fuel data 3 (room 2) dataTable ⟨b, s, none, none⟩ fun d =>
        afterField buf stack fuel parity 4 (room 5) parityTable ⟨b, s, d, none⟩ fun p =>
          some (.eok, ⟨b, s, d, p⟩)

theorem ends_eok (heok : ∀ out, P .eok out ↔ done) (out : UartOut) (stored : Bool) :
    Ends (fun _ => some (.eok, out)) P ↔ Chain fail done [] stored := by
  constructor
  · rintro ⟨st, out', ⟨bound, hrun⟩, hP⟩
    cases hrun bound le_rfl
    exact (heok out).mp hP
  · exact fun h => ⟨.eok, out, Returns.pure _, (heok out).mpr h⟩

theorem stored_iff {out : UartOut} (h : out ≠ noUart) : true = true ↔ out ≠ noUart :=
  ⟨fun _ => h, fun _ => rfl⟩

theorem nothing_stored_iff : false = true ↔ noUart ≠ noUart := ⟨nofun, fun h => absurd rfl h⟩

/-- The blocks end as the chain of their fields does. -/
theorem uartBlocks_ends (room : Nat → Nat)
    (hfail : ∀ (stored : Bool) (out : UartOut), (stored = true ↔ out ≠ noUart) →
      (P .error out ↔ fail stored))
    (heok : ∀ out, P .eok out ↔ done) (hfirst : fail false → HasEquals buf) (b s d p : Bool) :
    Ends (uartBlocks room buf stack b s d p) P ↔
      Chain fail done (uartFields room buf stack b s d p) false := by
  have hequals : ∀ stored : Bool, (stored = true → HasEquals buf) → fail stored → HasEquals buf := by
    intro stored hstored
    cases stored with
    | false => exact hfirst
    | true => exact fun _ => hstored rfl
  have hparity : ∀ (b : Option Baudrate) (s : Option StopBits) (d : Option DataBits) (stored : Bool),
      (stored = true ↔ (⟨b, s, d, none⟩ : UartOut) ≠ noUart) → (stored = true → HasEquals buf) → _ :=
    fun b s d stored hout heq => ends_field stack 4 (room 5) parityTable p stored ⟨b, s, d, none⟩ []
      (fun p _ => some (.eok, ⟨b, s, d, p⟩)) (by decide) (hfail stored _ hout) (hequals stored heq)
      (fun _ => ends_eok heok _ _) fun _ _ => ends_eok heok _ _
  have hdata : ∀ (b : Option Baudrate) (s : Option StopBits) (stored : Bool),
      (stored = true ↔ (⟨b, s, none, none⟩ : UartOut) ≠ noUart) → (stored = true → HasEquals buf) → _ :=
    fun b s stored hout heq => ends_field stack 3 (room 2) dataTable d stored ⟨b, s, none, none⟩ _
      (fun d fuel => afterField buf stack fuel p 4 (room 5) parityTable ⟨b, s, d, none⟩ fun p =>
        some (.eok, ⟨b, s, d, p⟩))
      (by decide) (hfail stored _ hout) (hequals stored heq) (fun _ => hparity b s none stored hout heq)
      fun v heq => hparity b s (some v) true (stored_iff (by simp [noUart])) fun _ => heq
  have hstop : ∀ (b : Option Baudrate) (stored : Bool),
      (stored = true ↔ (⟨b, none, none, none⟩ : UartOut) ≠ noUart) → (stored = true → HasEquals buf) →
      _ :=
    fun b stored hout heq => ends_field stack 2 (room 2) stopTable s stored ⟨b, none, none, none⟩ _
      (fun s fuel => afterField buf stack fuel d 3 (room 2) dataTable ⟨b, s, none, none⟩ fun d =>
        afterField buf stack fuel p 4 (room 5) parityTable ⟨b, s, d, none⟩ fun p => some (.eok, ⟨b, s, d, p⟩))
      (by decide) (hfail stored _ hout) (hequals stored heq) (fun _ => hdata b none stored hout heq)
      fun v heq => hdata b (some v) true (stored_iff (by simp [noUart])) fun _ => heq
  exact ends_field stack 1 (room 7) baudrateTable b false noUart _
    (fun b fuel => afterField buf stack fuel s 2 (room 2) stopTable ⟨b, none, none, none⟩ fun s =>
      afterField buf stack fuel d 3 (room 2) dataTable ⟨b, s, none, none⟩ fun d =>
        afterField buf stack fuel p 4 (room 5) parityTable ⟨b, s, d, none⟩ fun p => some (.eok, ⟨b, s, d, p⟩))
    (by decide) (hfail false _ nothing_stored_iff) hfirst (fun _ => hstop none false nothing_stored_iff nofun)
    fun v heq => hstop (some v) true (stored_iff (by simp [noUart])) fun _ => heq

end Blocks

/-- Of fields that decode or are refused, one is refused after another was stored. -/
def HalfDone (fields : List (Bool × Prop × Prop)) : Prop :=
  Chain (fun stored => stored = true) False fields false

/-- A call that fails and has written something. -/
def Violates {γ : Type} (run : Nat → Option (Status × γ)) (nothing : γ) : Prop :=
  Ends run fun st out => st ≠ .eok ∧ out ≠ nothing

/-- The blocks fail half done exactly where a field is refused behind a stored one. -/
theorem uartBlocks_violates (room : Nat → Nat) (b s d p : Bool) :
    Violates (uartBlocks room buf stack b s d p) noUart ↔
      HalfDone (uartFields room buf stack b s d p) :=
  uartBlocks_ends room (fun stored out hstored => by rw [hstored]; simp) (fun out => by simp) nofun b s d p

theorem getUart_blocks (send : Send) (b s d p : Bool) (fuel : Nat) :
    atkIde01GetUart send stack fuel b s d p =
      if b = false ∧ s = false ∧ d = false ∧ p = false then some (.einval, noUart)
      else query send (queryCmd 9 "AT+UART?") noUart fun buf => uartBlocks id buf stack b s d p fuel :=
  rfl

/-! ## All getters -/

/-- A copied length has 16 bits, so every parameter goes in: behind a local array
the rest of it lies in the memory that is there. -/
def spilled : Nat → Nat := fun _ => 2 ^ 16

/-- `atk_ide01_get_uart`, comparing the whole of each parameter. -/
def getUartSpilled (send : Send) (stack : Stack) (fuel : Nat)
    (baudrate stop data parity : Bool) : Option (Status × UartOut) :=
  if baudrate = false ∧ stop = false ∧ data = false ∧ parity = false then some (.einval, noUart)
  else query send (queryCmd 9 "AT+UART?") noUart fun buf =>
    uartBlocks spilled buf stack baudrate stop data parity fuel

/-- The queries, with what they copy into local arrays taken whole. -/
def runSpilled (send : Send) (stack : Stack) (fuel : Nat) : (q : Query) → Option (Status × q.Out)
  | .ethmod dst =>
    getEnum (spilled 14) ethmodTable (queryCmd 12 "AT+ETH_MOD?") send stack fuel dst
  | .echo dst => getEnum (spilled 4) echoTable (queryCmd 9 "AT+ECHO?") send stack fuel dst
  | .dhcp dst => getEnum (spilled 4) dhcpTable (queryCmd 9 "AT+DHCP?") send stack fuel dst
  | .cloudlinken dst =>
    getEnum (spilled 4) cloudlinkTable (queryCmd 18 "AT+CLOUD_LINK_EN?") send stack fuel dst
  | .netlksta dst => getEnum (spilled 4) netlkstaTable (queryCmd 13 "AT+NETLK_ST?") send stack fuel dst
  | .uartpacktime dst => getNumber (spilled 6) (queryCmd 18 "AT+UART_PACKTIME?") send stack fuel dst
  | .uartpacklen dst => getNumber (spilled 6) (queryCmd 17 "AT+UART_PACKLEN?") send stack fuel dst
  | .linknum dst => getNumber (spilled 6) (queryCmd 12 "AT+LINKNUM?") send stack fuel dst
  | .uart b s d p => getUartSpilled send stack fuel b s d p
  | q => q.run send stack fuel

section Spilled

variable {send : Send} {cmd : Cmd} {text : List UInt8}

theorem localText_spilled {bytes : List UInt8} (hsize : size ≤ 2 ^ 16)
    (h : localText size text = some bytes) : localText (spilled size) text = some bytes := by
  unfold localText at h ⊢
  split at h
  · next hlt =>
    rw [if_pos (show text.length < spilled size from Nat.lt_of_lt_of_le hlt hsize)]
    exact h
  · cases h

theorem matchText_spilled {r : Status × Option β} (hsize : size ≤ 2 ^ 16)
    (h : matchText size table text = some r) : matchText (spilled size) table text = some r := by
  obtain ⟨bytes, hbytes, hrest⟩ := Option.bind_eq_some_iff.mp h
  rw [matchText, localText_spilled hsize hbytes]
  exact hrest

theorem numberText_spilled {r : Status × Option UInt16} (hsize : size ≤ 2 ^ 16)
    (h : numberText size text = some r) : numberText (spilled size) text = some r := by
  obtain ⟨bytes, hbytes, hrest⟩ := Option.bind_eq_some_iff.mp h
  rw [numberText, localText_spilled hsize hbytes]
  exact hrest

theorem queryOne_spilled {decode decode' : List UInt8 → Option (Status × Option β)}
    {r : Status × Option β} (hdecode : ∀ text r, decode text = some r → decode' text = some r)
    (h : queryOne send cmd num stack fuel decode = some r) :
    queryOne send cmd num stack fuel decode' = some r := by
  obtain ⟨⟨ret, buf⟩, hsend, hparse⟩ := Option.bind_eq_some_iff.mp h
  rw [queryOne, query, hsend]
  by_cases hret : ret ≠ .eok
  · simpa only [if_pos hret, Option.bind_eq_bind, Option.bind_some] using hparse
  · simp only [if_neg hret, Option.bind_eq_bind, Option.bind_some] at hparse ⊢
    obtain ⟨⟨ret', text⟩, hcopy, hrest⟩ := Option.bind_eq_some_iff.mp hparse
    rw [hcopy, Option.bind_some]
    by_cases hret' : ret' ≠ .eok
    · simpa only [if_pos hret'] using hrest
    · simp only [if_neg hret'] at hrest ⊢
      exact hdecode text r hrest

theorem getEnum_spilled {dst : Bool} {r : Status × Option β} (hsize : size ≤ 2 ^ 16)
    (h : getEnum size table cmd send stack fuel dst = some r) :
    getEnum (spilled size) table cmd send stack fuel dst = some r := by
  unfold getEnum at h ⊢
  split
  · next hdst => rwa [if_pos hdst] at h
  · next hdst =>
    rw [if_neg hdst] at h
    exact queryOne_spilled (fun _ _ => matchText_spilled hsize) h

theorem getNumber_spilled {dst : Bool} {r : Status × Option UInt16} (hsize : size ≤ 2 ^ 16)
    (h : getNumber size cmd send stack fuel dst = some r) :
    getNumber (spilled size) cmd send stack fuel dst = some r := by
  unfold getNumber at h ⊢
  split
  · next hdst => rwa [if_pos hdst] at h
  · next hdst =>
    rw [if_neg hdst] at h
    exact queryOne_spilled (fun _ _ => numberText_spilled hsize) h

theorem afterField_spilled {dst : Bool} {fail : UartOut}
    {next next' : Option β → Option (Status × UartOut)} {r : Status × UartOut}
    (hsize : size ≤ 2 ^ 16) (hnext : ∀ v r, next v = some r → next' v = some r)
    (h : afterField buf stack fuel dst num size table fail next = some r) :
    afterField buf stack fuel dst num (spilled size) table fail next' = some r := by
  obtain ⟨⟨ret, v⟩, hfield, hrest⟩ := Option.bind_eq_some_iff.mp h
  have hfield' : uartField buf stack fuel dst num (spilled size) table = some (ret, v) := by
    cases dst with
    | false => exact hfield
    | true =>
      obtain ⟨⟨st, text⟩, hcopy, hmatch⟩ := Option.bind_eq_some_iff.mp hfield
      rw [uartField, if_pos rfl, hcopy]
      by_cases hst : st ≠ .eok
      · simpa only [if_pos hst, Option.bind_eq_bind, Option.bind_some] using hmatch
      · simp only [if_neg hst, Option.bind_eq_bind, Option.bind_some] at hmatch ⊢
        exact matchText_spilled hsize hmatch
  by_cases hret : ret ≠ .eok
  · simp only [if_pos hret] at hrest
    rw [afterField_error hret hfield']
    exact hrest
  · simp only [if_neg hret] at hrest
    obtain rfl : ret = .eok := not_not.mp hret
    rw [afterField_eok hfield']
    exact hnext v r hrest

/-- Where no local array overflows this is the call itself. -/
theorem runSpilled_of_run {q : Query} {r : Status × q.Out} (h : q.run send stack fuel = some r) :
    runSpilled send stack fuel q = some r := by
  cases q with
  | ethmod | echo | dhcp | cloudlinken | netlksta => exact getEnum_spilled (by decide) h
  | uartpacktime | uartpacklen | linknum => exact getNumber_spilled (by decide) h
  | uart b s d p =>
    change atkIde01GetUart send stack fuel b s d p = some r at h
    change getUartSpilled send stack fuel b s d p = some r
    rw [getUart_blocks] at h
    unfold getUartSpilled
    split
    · next hnone => rwa [if_pos hnone] at h
    · next hnone =>
      rw [if_neg hnone] at h
      obtain ⟨⟨ret, buf⟩, hsend, hparse⟩ := Option.bind_eq_some_iff.mp h
      rw [query, hsend]
      by_cases hret : ret ≠ .eok
      · simp only [if_pos hret, Option.bind_eq_bind, Option.bind_some] at hparse ⊢
        exact hparse
      · simp only [if_neg hret, Option.bind_eq_bind, Option.bind_some] at hparse ⊢
        exact afterField_spilled (by decide) (fun _ _ => afterField_spilled (by decide)
          fun _ _ => afterField_spilled (by decide) fun _ _ => afterField_spilled (by decide)
            fun _ _ h => h) hparse
  | _ => exact h

end Spilled

inductive Getter where
  | query (q : Query)
  | mac (mac : Bool)
  | remoteip (remoteip : Bool)
  | modunameLen (len : Bool)
  | moduname (moduname : Bool)

def Getter.Out : Getter → Type
  | .query q => q.Out
  | .modunameLen _ => Option UInt16
  | _ => Option Stored

/-- The buffer of the frame that a query brings. -/
def sendBuf (send : SendFrame) : Send := fun cmd => do
  let (ret, f) ← send cmd
  return (ret, f.buf)

def Getter.run (send : SendFrame) (stack : Stack) (fuel : Nat) :
    (g : Getter) → Option (Status × g.Out)
  | .query q => runSpilled (sendBuf send) stack fuel q
  | .mac dst => atkIde01GetMac send fuel dst
  | .remoteip dst => atkIde01GetRemoteip send fuel dst
  | .modunameLen dst => atkIde01GetModunameLen send fuel dst
  | .moduname dst => atkIde01GetModuname send fuel dst

def Getter.untouched : (g : Getter) → g.Out
  | .query q => q.untouched
  | .mac _ => none
  | .remoteip _ => none
  | .modunameLen _ => none
  | .moduname _ => none

/-- A failed call has written nothing. -/
def Keeps {γ : Type} (run : Nat → Option (Status × γ)) (nothing : γ) : Prop :=
  ∀ st out, Returns run (st, out) → st ≠ .eok → out = nothing

theorem keeps_iff {γ : Type} {run : Nat → Option (Status × γ)} {nothing : γ} :
    Keeps run nothing ↔ ¬ Violates run nothing := by
  constructor
  · rintro hkeeps ⟨st, out, hreturns, hst, hout⟩
    exact hout (hkeeps st out hreturns hst)
  · intro hno st out hreturns hst
    by_contra hout
    exact hno ⟨st, out, hreturns, hst, hout⟩

/-- It is enough to look at each amount of fuel. -/
theorem keeps_of_fuel {γ : Type} {run : Nat → Option (Status × γ)} {nothing : γ}
    (h : ∀ fuel st out, run fuel = some (st, out) → st ≠ .eok → out = nothing) : Keeps run nothing := by
  rintro st out ⟨bound, hrun⟩ hst
  exact h bound st out (hrun bound le_rfl) hst

variable {send : Send} {cmd : Cmd}

theorem queryOne_keeps {decode : List UInt8 → Option (Status × Option β)}
    (hdecode : ∀ text st out, decode text = some (st, out) → st ≠ .eok → out = none) :
    ∀ fuel st out, queryOne send cmd num stack fuel decode = some (st, out) → st ≠ .eok →
      out = none := by
  intro fuel st out h hst
  obtain ⟨⟨ret, buf⟩, _, hparse⟩ := Option.bind_eq_some_iff.mp h
  by_cases hret : ret ≠ .eok
  · simp only [if_pos hret] at hparse
    cases hparse
    rfl
  · simp only [if_neg hret] at hparse
    obtain ⟨⟨ret', text⟩, _, hrest⟩ := Option.bind_eq_some_iff.mp hparse
    by_cases hret' : ret' ≠ .eok
    · simp only [if_pos hret'] at hrest
      cases hrest
      rfl
    · simp only [if_neg hret'] at hrest
      exact hdecode text st out hrest hst

theorem dst_keeps {dst : Bool} {γ : Type} {run : Nat → Option (Status × Option γ)}
    (h : ∀ fuel st out, run fuel = some (st, out) → st ≠ .eok → out = none) :
    Keeps (fun fuel => if dst = false then some (.einval, none) else run fuel) none := by
  apply keeps_of_fuel
  intro fuel st out hrun hst
  split at hrun
  · cases hrun
    rfl
  · exact h fuel st out hrun hst

theorem getText_keeps (dst : Bool) :
    Keeps (fun fuel => getText cmd send stack fuel dst) none := by
  apply dst_keeps
  apply queryOne_keeps
  intro text st out hdecode hst
  cases hdecode
  exact absurd rfl hst

theorem getEnum_keeps (dst : Bool) :
    Keeps (fun fuel => getEnum size table cmd send stack fuel dst) none := by
  apply dst_keeps
  apply queryOne_keeps
  intro text st out hdecode hst
  by_cases hlen : text.length < size
  · rw [matchText_eq hlen] at hdecode
    cases hlookup : lookup table (text.takeWhile (· ≠ 0)) with
    | none =>
      rw [hlookup] at hdecode
      cases hdecode
      rfl
    | some v =>
      rw [hlookup] at hdecode
      cases hdecode
      exact absurd rfl hst
  · rw [matchText, localText, if_neg hlen] at hdecode
    cases hdecode

theorem getNumber_keeps (dst : Bool) :
    Keeps (fun fuel => getNumber size cmd send stack fuel dst) none := by
  apply dst_keeps
  apply queryOne_keeps
  intro text st out hdecode hst
  obtain ⟨value, _, hvalue⟩ := Option.bind_eq_some_iff.mp hdecode
  cases hvalue
  exact absurd rfl hst

theorem linkField_inv {dst : Bool} {ret : Status} {v : Option Stored} (hnum : num ≠ 0)
    (h : linkField buf stack fuel dst num = some (ret, v)) :
    (dst = false ∧ ret = .eok ∧ v = none) ∨ (dst = true ∧ (ret = .eok ↔ HasEquals buf)) := by
  cases dst with
  | false =>
    cases h
    exact .inl ⟨rfl, rfl, rfl⟩
  | true =>
    rw [linkField, if_pos rfl] at h
    obtain ⟨⟨st, text⟩, hcopy, hrest⟩ := Option.bind_eq_some_iff.mp h
    have hstatus := copyParameter_status hnum hcopy
    refine .inr ⟨rfl, ?_⟩
    by_cases hst : st ≠ .eok
    · simp only [if_pos hst] at hrest
      cases hrest
      exact ⟨fun heok => absurd heok (by decide), fun heq => absurd (hstatus.mpr heq) hst⟩
    · simp only [if_neg hst] at hrest
      cases hrest
      exact ⟨fun _ => hstatus.mp (not_not.mp hst), fun _ => rfl⟩

/-- Where the second field fails, the first one was not asked for. -/
theorem getLinkinfo_keeps (name : String) (num : UInt8) (ip port : Bool) :
    Keeps (fun fuel => getLinkinfo name send stack fuel num ip port) ⟨none, none⟩ := by
  apply keeps_of_fuel
  intro fuel st out h hst
  rw [getLinkinfo] at h
  split at h
  · cases h
    rfl
  obtain ⟨⟨ret, buf⟩, _, hparse⟩ := Option.bind_eq_some_iff.mp h
  by_cases hret : ret ≠ .eok
  · simp only [if_pos hret] at hparse
    cases hparse
    rfl
  simp only [if_neg hret] at hparse
  obtain ⟨⟨ret₁, i⟩, hip, hrest⟩ := Option.bind_eq_some_iff.mp hparse
  have hfirst := linkField_inv (by decide) hip
  by_cases hret₁ : ret₁ ≠ .eok
  · simp only [if_pos hret₁] at hrest
    cases hrest
    rfl
  simp only [if_neg hret₁] at hrest
  obtain ⟨⟨ret₂, p⟩, hport, hlast⟩ := Option.bind_eq_some_iff.mp hrest
  have hsecond := linkField_inv (by decide) hport
  by_cases hret₂ : ret₂ ≠ .eok
  · simp only [if_pos hret₂] at hlast
    cases hlast
    rcases hfirst with ⟨_, _, rfl⟩ | ⟨_, heq₁⟩
    · rfl
    · rcases hsecond with ⟨_, heok, _⟩ | ⟨_, heq₂⟩
      · exact absurd heok hret₂
      · exact absurd (heq₂.mpr (heq₁.mp (not_not.mp hret₁))) hret₂
  · simp only [if_neg hret₂] at hlast
    cases hlast
    exact absurd rfl hst

theorem lineQuery_keeps {γ : Type} {send : SendFrame}
    {part : RxFrame → Nat → Option (Option (UInt16 × UInt16))}
    {store : RxFrame → UInt16 × UInt16 → Option γ} (dst : Bool) :
    Keeps (fun fuel => lineQuery send cmd part store fuel dst) none := by
  apply dst_keeps
  intro fuel st out h hst
  obtain ⟨⟨ret, f⟩, _, hrest⟩ := Option.bind_eq_some_iff.mp h
  by_cases hret : ret ≠ .eok
  · simp only [if_pos hret] at hrest
    cases hrest
    rfl
  simp only [if_neg hret] at hrest
  obtain ⟨o, _, hlast⟩ := Option.bind_eq_some_iff.mp hrest
  cases o with
  | none =>
    cases hlast
    rfl
  | some s =>
    obtain ⟨b, _, hb⟩ := Option.bind_eq_some_iff.mp hlast
    cases hb
    exact absurd rfl hst

/-- Only `atk_ide01_get_uart` can fail half done. -/
theorem getUart_keeps (send : Send) (b s d p : Bool) :
    Keeps (fun fuel => getUartSpilled send stack fuel b s d p) noUart ↔
      ∀ buf, send (queryCmd 9 "AT+UART?").text = some (.eok, buf) →
        ¬ HalfDone (uartFields spilled buf stack b s d p) := by
  rw [keeps_iff]
  by_cases hnone : b = false ∧ s = false ∧ d = false ∧ p = false
  · obtain ⟨rfl, rfl, rfl, rfl⟩ := hnone
    refine ⟨fun _ _ _ => id, fun _ => ?_⟩
    rintro ⟨st, out, ⟨bound, hrun⟩, _, hout⟩
    cases hrun bound le_rfl
    exact hout rfl
  · have hrun : ∀ fuel, getUartSpilled send stack fuel b s d p =
        query send (queryCmd 9 "AT+UART?") noUart fun buf =>
          uartBlocks spilled buf stack b s d p fuel := by
      intro fuel
      rw [getUartSpilled, if_neg hnone]
    simp only [hrun]
    cases hsend : send (queryCmd 9 "AT+UART?").text with
    | none =>
      refine ⟨fun _ buf hbuf => (nomatch hbuf), fun _ => ?_⟩
      rintro ⟨st, out, ⟨bound, hreturns⟩, _⟩
      have hfirst := hreturns bound le_rfl
      simp only [query, hsend] at hfirst
      cases hfirst
    | some r =>
      obtain ⟨ret, buf⟩ := r
      by_cases hret : ret = .eok
      · subst hret
        have hblocks : ∀ fuel, (query send (queryCmd 9 "AT+UART?") noUart fun buf =>
            uartBlocks spilled buf stack b s d p fuel) = uartBlocks spilled buf stack b s d p fuel := by
          intro fuel
          rw [query, hsend]
          rfl
        simp only [hblocks, uartBlocks_violates]
        exact ⟨fun hno buf' hbuf => by cases hbuf; exact hno, fun hall => hall buf rfl⟩
      · refine ⟨fun _ buf' hbuf => by cases hbuf; exact absurd rfl hret, fun _ => ?_⟩
        rintro ⟨st, out, ⟨bound, hreturns⟩, _, hout⟩
        have hfirst := hreturns bound le_rfl
        simp only [query, hsend] at hfirst
        change (if ret ≠ .eok then some (Status.error, noUart) else _) = _ at hfirst
        rw [if_pos hret] at hfirst
        cases hfirst
        exact hout rfl

/-- The condition on the answer under which a failed call has stored nothing. -/
def Getter.Whole (send : SendFrame) (stack : Stack) : Getter → Prop
  | .query (.uart b s d p) => ∀ buf, sendBuf send (queryCmd 9 "AT+UART?").text = some (.eok, buf) →
    ¬ HalfDone (uartFields spilled buf stack b s d p)
  | _ => True

/-- A failed call leaves every output as it was, but for `atk_ide01_get_uart` on an
answer with a refused field behind a stored one. -/
theorem keeps_outputs_iff (send : SendFrame) (stack : Stack) (g : Getter) :
    (∀ st out, Returns (fun fuel => g.run send stack fuel) (st, out) → st ≠ .eok →
      out = g.untouched) ↔ g.Whole send stack := by
  cases g with
  | mac dst => exact iff_of_true (lineQuery_keeps dst) trivial
  | remoteip dst => exact iff_of_true (lineQuery_keeps dst) trivial
  | modunameLen dst =>
    have hkeeps : Keeps (fun fuel => lineQuery send (queryCmd 13 "AT+MODUNAME?") valueSlice
        (fun _ s => some (s.2 + 1)) fuel dst) none := lineQuery_keeps dst
    exact iff_of_true hkeeps trivial
  | moduname dst => exact iff_of_true (lineQuery_keeps dst) trivial
  | query q =>
    cases q with
    | uart b s d p => exact getUart_keeps (sendBuf send) b s d p
    | remotelinkinfo num ip port => exact iff_of_true (getLinkinfo_keeps _ num ip port) trivial
    | locallinkinfo num ip port => exact iff_of_true (getLinkinfo_keeps _ num ip port) trivial
    | version => exact iff_of_true (getText_keeps true) trivial
    | searchMac dst =>
      refine iff_of_true (dst_keeps (queryOne_keeps fun text st out h hst => ?_)) trivial
      cases h
      exact absurd rfl hst
    | clouddomainLen dst =>
      refine iff_of_true (dst_keeps (queryOne_keeps fun text st out h hst => ?_)) trivial
      cases h
      exact absurd rfl hst
    | ethmod dst | echo dst | dhcp dst | cloudlinken dst | netlksta dst =>
      exact iff_of_true (getEnum_keeps dst) trivial
    | uartpacktime dst | uartpacklen dst | linknum dst =>
      exact iff_of_true (getNumber_keeps dst) trivial
    | _ dst => exact iff_of_true (getText_keeps dst) trivial

/-- Five stop bits behind a good baud rate: the baud rate is stored, the call fails. -/
theorem baudrate_left_behind :
    Returns (fun fuel => (Getter.query (.uart true true false false)).run
        (answered (frameOf "=\"9600\",\"5\"")) (fun _ => (0, 0)) fuel)
        (.error, (⟨some .b9600, none, none, none⟩ : UartOut)) ∧
      (⟨some .b9600, none, none, none⟩ : UartOut) ≠
        (Getter.query (.uart true true false false)).untouched := by
  refine ⟨⟨14, fun fuel hle => ?_⟩, fun h => nomatch h⟩
  obtain ⟨k, rfl⟩ : ∃ k, fuel = k + 14 := ⟨fuel - 14, by omega⟩
  rfl

end StmGateway.At.Untouched
