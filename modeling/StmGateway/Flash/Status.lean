import StmGateway.Flash.Chip
import StmGateway.Flash.Chunks

/-!
# BUSY and the write-enable latch

A chip with the two status bits in front of its array. While BUSY it ignores
every instruction but the status reads; a program, an erase or a status write
is carried out only with WEL set, keeps the chip busy for a while, and clears
WEL at its end. `receipts` records, for every instruction that must not be
ignored, the two bits it found. The results are about any run of driver calls,
with any durations and any pauses in between.
-/
namespace StmGateway.Flash.Status

open StmGateway.Lib Driver Chip Chunks

/-- What an instruction found when the chip received it. -/
structure Receipt where
  command : UInt8
  busy : Bool
  wel : Bool
  deriving DecidableEq

/-- The chip in front of an array of type `σ`. `busy` counts the selections (or
units of time between calls) for which the running operation still lasts. -/
structure StatusChip (σ : Type) where
  array : σ
  wel : Bool
  busy : Nat
  started : Nat
  receipts : List Receipt

def isStatusRead (cmd : UInt8) : Bool :=
  cmd == w25xReadStatusReg1 || cmd == w25xReadStatusReg2 || cmd == w25xReadStatusReg3

/-- Page program, the erases and the status writes. -/
def isModifying (cmd : UInt8) : Bool :=
  cmd == w25xPageProgram || cmd == w25xSectorErase || cmd == w25xChipErase ||
    cmd == w25xWriteStatusReg1 || cmd == w25xWriteStatusReg2 || cmd == w25xWriteStatusReg3

/-- The chip carries the instruction out instead of ignoring it. -/
def Receipt.Accepted (r : Receipt) : Prop :=
  r.busy = false ∧ (isModifying r.command = true → r.wel = true)

instance (r : Receipt) : Decidable r.Accepted :=
  inferInstanceAs (Decidable (_ ∧ (_ → _)))

namespace StatusChip

variable {σ : Type}

/-- The chip after power-up. -/
def powerUp (array : σ) : StatusChip σ := ⟨array, false, 0, 0, []⟩

def note (cmd : UInt8) (s : StatusChip σ) : StatusChip σ :=
  if isModifying cmd || cmd == w25xReadData then
    { s with receipts := s.receipts ++ [⟨cmd, decide (0 < s.busy), s.wel⟩] }
  else s

/-- One unit of time; the operation that ends clears WEL. -/
def tick (s : StatusChip σ) : StatusChip σ :=
  { s with busy := s.busy - 1, wel := if s.busy = 1 then false else s.wel }

def statusByte (cmd : UInt8) (s : StatusChip σ) : UInt8 :=
  if cmd = w25xReadStatusReg1 then
    (if s.busy = 0 then 0x00 else 0x01) ||| (if s.wel then 0x02 else 0x00)
  else 0x00

/-- Start an operation that lasts `duration` units. -/
def start (duration : Nat → Nat) (array : σ) (s : StatusChip σ) : StatusChip σ :=
  { s with
    array := array
    busy := duration s.started
    started := s.started + 1
    wel := if duration s.started = 0 then false else s.wel }

def transact (inner : SpiSlave σ) (duration : Nat → Nat) (tx : List UInt8)
    (s : StatusChip σ) : List UInt8 × StatusChip σ :=
  match tx with
  | [] => ([], s)
  | cmd :: rest =>
    let s := s.note cmd
    let status := 0xFF :: rest.map fun _ => s.statusByte cmd
    let silent := tx.map fun _ => 0xFF
    if s.busy ≠ 0 then (if isStatusRead cmd then status else silent, s.tick)
    else if isStatusRead cmd then (status, s)
    else if cmd = w25xWriteEnable then (silent, { s with wel := true })
    else if cmd = w25xWriteDisable then (silent, { s with wel := false })
    else if isModifying cmd then
      (silent, if s.wel then s.start duration (inner.transact tx s.array).2 else s)
    else
      let r := inner.transact tx s.array
      (r.1, { s with array := r.2 })

def slave (inner : SpiSlave σ) (duration : Nat → Nat) : SpiSlave (StatusChip σ) :=
  ⟨transact inner duration⟩

/-- Time passing between two calls. -/
def elapse : Nat → StatusChip σ → StatusChip σ
  | 0, s => s
  | n + 1, s => elapse n s.tick

end StatusChip

open StatusChip

/-- The public functions of the driver. -/
inductive Call where
  | writeEnable
  | writeDisable
  | writeSR (regno sr : UInt8)
  | writeNoCheck (pBuffer : Ptr) (writeAddr : UInt32) (numByteToWrite : UInt16)
  | write (pBuffer : Ptr) (writeAddr : UInt32) (numByteToWrite : UInt16)
  | eraseSector (dstAddr : UInt32)
  | eraseChip
  | read (readAddr : UInt32) (numByteToRead : UInt16)
  | readSR (regno : UInt8)
  | readID

section Runs

variable {σ : Type} (inner : SpiSlave σ) (duration : Nat → Nat) (type : UInt16)

def Call.exec (fuel : Nat) : Call → StatusChip σ → Option (StatusChip σ)
  | .writeEnable, s => some (w25qxxWriteEnable (slave inner duration) s)
  | .writeDisable, s => some (w25qxxWriteDisable (slave inner duration) s)
  | .writeSR regno sr, s => some (w25qxxWriteSR (slave inner duration) regno sr s)
  | .writeNoCheck p a n, s => w25qxxWriteNoCheck (slave inner duration) type fuel p a n s
  | .write p a n, s => w25qxxWrite (slave inner duration) type fuel p a n s
  | .eraseSector d, s => w25qxxEraseSector (slave inner duration) type fuel d s
  | .eraseChip, s => w25qxxEraseChip (slave inner duration) fuel s
  | .read a n, s => some (w25qxxRead (slave inner duration) type a n s).2
  | .readSR regno, s => some (w25qxxReadSR (slave inner duration) regno s).2
  | .readID, s => some (w25qxxReadID (slave inner duration) s).2

/-- A run of calls and pauses, with the state each call was made in. -/
inductive Run (s₀ : StatusChip σ) : List (StatusChip σ × Call) → StatusChip σ → Prop
  | init : Run s₀ [] s₀
  | call {calls s c s'} : Run s₀ calls s →
      Returns (fun fuel => Call.exec inner duration type fuel c s) s' →
      Run s₀ (calls ++ [(s, c)]) s'
  | elapse {calls s} (n : Nat) : Run s₀ calls s → Run s₀ calls (s.elapse n)

/-- The calls that do not themselves see to BUSY and WEL before they send. -/
def CallReady (s : StatusChip σ) : Call → Prop
  | .writeSR .. => s.busy = 0 ∧ s.wel = true
  | .writeNoCheck .. | .write .. | .eraseSector .. | .eraseChip | .read .. => s.busy = 0
  | .writeEnable | .writeDisable | .readSR .. | .readID => True

/-- Nothing was ignored between the two states. -/
def Accepts (s s' : StatusChip σ) : Prop :=
  ∃ new, s'.receipts = s.receipts ++ new ∧ ∀ r ∈ new, r.Accepted

theorem Accepts.refl (s : StatusChip σ) : Accepts s s := ⟨[], by simp, by simp⟩

theorem Accepts.of_eq {s s' : StatusChip σ} (h : s'.receipts = s.receipts) : Accepts s s' :=
  ⟨[], by simp [h], by simp⟩

theorem Accepts.trans {s₁ s₂ s₃ : StatusChip σ} (h₁ : Accepts s₁ s₂) (h₂ : Accepts s₂ s₃) :
    Accepts s₁ s₃ := by
  obtain ⟨new₁, he₁, ha₁⟩ := h₁
  obtain ⟨new₂, he₂, ha₂⟩ := h₂
  refine ⟨new₁ ++ new₂, by rw [he₂, he₁, List.append_assoc], fun r hr => ?_⟩
  rcases List.mem_append.mp hr with h | h
  · exact ha₁ r h
  · exact ha₂ r h

/-- The call returns an idle chip that ignored nothing. -/
def Settles (f : Nat → Option (StatusChip σ)) (s : StatusChip σ) : Prop :=
  ∃ s', Returns f s' ∧ s'.busy = 0 ∧ Accepts s s'

theorem writeEnable_idle {s : StatusChip σ} (hs : s.busy = 0) :
    w25qxxWriteEnable (slave inner duration) s = { s with wel := true } := by
  simp [w25qxxWriteEnable, slave, transact, note, hs, isModifying, isStatusRead, w25xWriteEnable,
    w25xPageProgram, w25xSectorErase, w25xChipErase, w25xWriteStatusReg1, w25xWriteStatusReg2,
    w25xWriteStatusReg3, w25xReadData, w25xReadStatusReg1, w25xReadStatusReg2, w25xReadStatusReg3]

/-- A poll of the status register while the chip is busy, and when it is not. -/
theorem readSR_poll (s : StatusChip σ) :
    ((w25qxxReadSR (slave inner duration) 1 s).1 &&& 0x01 = 0x01 ↔ s.busy ≠ 0) ∧
      (w25qxxReadSR (slave inner duration) 1 s).2 = if s.busy = 0 then s else s.tick := by
  have hnote : s.note w25xReadStatusReg1 = s := rfl
  have hbits : (2 &&& 1 : UInt8) = 0 ∧ ((1 ||| 2) &&& 1 : UInt8) = 1 := by decide
  by_cases hs : s.busy = 0
  · cases hw : s.wel <;>
      simp [w25qxxReadSR, readCommand, slave, transact, hnote, hs, hw, isStatusRead, statusByte,
        hbits]
  · cases hw : s.wel <;>
      simp [w25qxxReadSR, readCommand, slave, transact, hnote, hs, hw, isStatusRead, statusByte,
        hbits]

/-- Polling ends with an idle chip, since every poll takes time. -/
theorem waitBusy_settles : ∀ (n : Nat) (s : StatusChip σ), s.busy = n →
    ∃ s', Returns (fun fuel => w25qxxWaitBusy (slave inner duration) fuel s) s' ∧ s'.busy = 0 ∧
      s'.receipts = s.receipts ∧ (n = 0 → s' = s) := by
  intro n
  induction n with
  | zero =>
    intro s hs
    obtain ⟨hpoll, hstate⟩ := readSR_poll inner duration s
    rw [if_pos hs] at hstate
    refine ⟨s, (Returns.pure s).step fun fuel => ?_, hs, rfl, fun _ => rfl⟩
    simp only [w25qxxWaitBusy, hstate, if_neg (fun h => hpoll.mp h hs)]
  | succ n ih =>
    intro s hs
    obtain ⟨hpoll, hstate⟩ := readSR_poll inner duration s
    rw [if_neg (by omega)] at hstate
    obtain ⟨s', hreturns, hidle, hreceipts, _⟩ := ih s.tick (by simp [tick, hs])
    refine ⟨s', hreturns.step fun fuel => ?_, hidle, hreceipts, fun h => absurd h (by omega)⟩
    simp only [w25qxxWaitBusy, hstate, if_pos (hpoll.mpr (by omega))]

theorem waitBusy_idle {s : StatusChip σ} (hs : s.busy = 0) :
    Returns (fun fuel => w25qxxWaitBusy (slave inner duration) fuel s) s := by
  obtain ⟨s', hreturns, _, _, heq⟩ := waitBusy_settles inner duration 0 s hs
  rwa [heq rfl] at hreturns

/-- Every branch of a selection keeps the receipt it began with. -/
theorem transact_receipts (cmd : UInt8) (rest : List UInt8) (s : StatusChip σ) :
    ((slave inner duration).transact (cmd :: rest) s).2.receipts = (s.note cmd).receipts := by
  simp only [slave, transact]
  split_ifs <;> rfl

theorem silent_accepts {cmd : UInt8} {rest : List UInt8} {s : StatusChip σ}
    (hcmd : (isModifying cmd || cmd == w25xReadData) = false) :
    Accepts s ((slave inner duration).transact (cmd :: rest) s).2 := by
  apply Accepts.of_eq
  rw [transact_receipts, note, hcmd]
  rfl

/-- A modifying instruction is accepted by an idle chip with WEL set. -/
theorem modify_accepts (cmd : UInt8) (rest : List UInt8) {s : StatusChip σ}
    (hcmd : isModifying cmd = true) (hs : s.busy = 0) (hwel : s.wel = true) :
    Accepts s ((slave inner duration).transact (cmd :: rest) s).2 := by
  refine ⟨[⟨cmd, false, true⟩], ?_, by simp [Receipt.Accepted]⟩
  rw [transact_receipts]
  simp [note, hcmd, hs, hwel]

theorem read_accepts (addr : UInt32) (n : UInt16) {s : StatusChip σ} (hs : s.busy = 0) :
    (w25qxxRead (slave inner duration) type addr n s).2.busy = 0 ∧
      Accepts s (w25qxxRead (slave inner duration) type addr n s).2 := by
  have hnote : s.note w25xReadData =
      { s with receipts := s.receipts ++ [⟨w25xReadData, false, s.wel⟩] } := by
    simp [note, hs]
  have hcmd : isStatusRead w25xReadData = false ∧ isModifying w25xReadData = false ∧
      w25xReadData ≠ w25xWriteEnable ∧ w25xReadData ≠ w25xWriteDisable := by decide
  simp only [w25qxxRead, slave, transact, List.cons_append, hnote, hs, hcmd.1, hcmd.2.1,
    if_neg hcmd.2.2.1, if_neg hcmd.2.2.2, ne_eq, not_true_eq_false, ↓reduceIte,
    Bool.false_eq_true]
  exact ⟨trivial, [⟨w25xReadData, false, s.wel⟩], rfl, by simp [Receipt.Accepted, hcmd.2.1]⟩

theorem writePage_settles (p : Ptr) (addr : UInt32) (n : UInt16) {s : StatusChip σ}
    (hs : s.busy = 0) :
    Settles (fun fuel => w25qxxWritePage (slave inner duration) type fuel p addr n s) s := by
  have haccept := modify_accepts inner duration w25xPageProgram
    (addrBytes type addr ++ (List.range n.toNat).map p) (s := { s with wel := true })
    (by decide) hs rfl
  obtain ⟨s', hreturns, hidle, hreceipts, _⟩ := waitBusy_settles inner duration _ _ rfl
  refine ⟨s', hreturns.congr fun fuel => ?_, hidle,
    (Accepts.of_eq rfl).trans (haccept.trans (Accepts.of_eq hreceipts))⟩
  simp only [w25qxxWritePage, writeEnable_idle inner duration hs, List.cons_append]

/-- Both erases: latch, wait, one modifying instruction, wait. -/
theorem erase_settles (cmd : UInt8) (rest : List UInt8) (hcmd : isModifying cmd = true)
    {s : StatusChip σ} (hs : s.busy = 0) :
    Settles (fun fuel =>
      (w25qxxWaitBusy (slave inner duration) fuel (w25qxxWriteEnable (slave inner duration) s)).bind
        fun s => w25qxxWaitBusy (slave inner duration) fuel
          ((slave inner duration).transact (cmd :: rest) s).2) s := by
  have haccept := modify_accepts inner duration cmd rest (s := { s with wel := true })
    hcmd hs rfl
  obtain ⟨s', hreturns, hidle, hreceipts, _⟩ := waitBusy_settles inner duration _ _ rfl
  refine ⟨s', ?_, hidle, (Accepts.of_eq rfl).trans (haccept.trans (Accepts.of_eq hreceipts))⟩
  rw [writeEnable_idle inner duration hs]
  exact (waitBusy_idle inner duration (s := { s with wel := true }) hs).bind
    (fun s fuel => w25qxxWaitBusy (slave inner duration) fuel
      ((slave inner duration).transact (cmd :: rest) s).2) hreturns

theorem writeNoCheck_settles (p : Ptr) (addr : UInt32) (n : UInt16) {s : StatusChip σ}
    (hs : s.busy = 0) :
    Settles (fun fuel => w25qxxWriteNoCheck (slave inner duration) type fuel p addr n s) s := by
  refine writeNoCheck_returns (slave inner duration) type
    (P := fun _ s' => s'.busy = 0 ∧ Accepts s s') ?_ ⟨hs, Accepts.refl s⟩
  rintro done m s₁ ⟨hidle, haccepts⟩ _ _
  obtain ⟨s₂, hreturns, hidle₂, haccepts₂⟩ :=
    writePage_settles inner duration type (p.add done) (UInt32.ofNat (addr.toNat + done)) m hidle
  exact ⟨s₂, hreturns, hidle₂, haccepts.trans haccepts₂⟩

theorem writeSector_settles (p : Ptr) (addr secpos : UInt32) (secoff m : UInt16)
    {s : StatusChip σ} (hs : s.busy = 0) :
    Settles (fun fuel => writeSector (slave inner duration) type fuel p addr secpos secoff m s)
      s := by
  obtain ⟨hidle, haccepts⟩ := read_accepts inner duration type (secpos * 4096) 4096 hs
  rcases hr : w25qxxRead (slave inner duration) type (secpos * 4096) 4096 s with ⟨buf, s₁⟩
  rw [hr] at hidle haccepts
  by_cases hused : checkLoop buf secoff.toNat m.toNat 0 < m.toNat
  · obtain ⟨s₂, herase, hidle₂, haccepts₂⟩ := erase_settles inner duration
      w25xSectorErase (addrBytes type (secpos * 4096)) (by decide) hidle
    obtain ⟨s₃, hwrite, hidle₃, haccepts₃⟩ := writeNoCheck_settles inner duration type
      (copyLoop p secoff.toNat m.toNat buf) (secpos * 4096) 4096 hidle₂
    refine ⟨s₃, ?_, hidle₃, haccepts.trans (haccepts₂.trans haccepts₃)⟩
    refine (herase.bind (fun s fuel => w25qxxWriteNoCheck (slave inner duration) type fuel
      (copyLoop p secoff.toNat m.toNat buf) (secpos * 4096) 4096 s) hwrite).congr fun fuel => ?_
    simp only [writeSector, hr, hused, ↓reduceIte]
    rfl
  · obtain ⟨s₂, hwrite, hidle₂, haccepts₂⟩ :=
      writeNoCheck_settles inner duration type p addr m hidle
    refine ⟨s₂, hwrite.congr fun fuel => ?_, hidle₂, haccepts.trans haccepts₂⟩
    simp only [writeSector, hr, hused, ↓reduceIte]

theorem write_settles (p : Ptr) (addr : UInt32) (n : UInt16) {s : StatusChip σ}
    (hs : s.busy = 0) :
    Settles (fun fuel => w25qxxWrite (slave inner duration) type fuel p addr n s) s := by
  refine write_returns (slave inner duration) type
    (P := fun _ s' => s'.busy = 0 ∧ Accepts s s') ?_ ⟨hs, Accepts.refl s⟩
  rintro done m s₁ ⟨hidle, haccepts⟩ _ _
  obtain ⟨s₂, hreturns, hidle₂, haccepts₂⟩ :=
    writeSector_settles inner duration type (p.add done) (UInt32.ofNat (addr.toNat + done))
      (UInt32.ofNat ((addr.toNat + done) / 4096)) (UInt16.ofNat ((addr.toNat + done) % 4096)) m hidle
  exact ⟨s₂, hreturns, hidle₂, haccepts.trans haccepts₂⟩

/-- A call made under its condition returns and nothing of it is ignored. -/
theorem call_accepts {c : Call} {s : StatusChip σ} (h : CallReady s c) :
    ∃ s', Returns (fun fuel => Call.exec inner duration type fuel c s) s' ∧ Accepts s s' := by
  have settle : ∀ {f}, Settles f s → ∃ s', Returns f s' ∧ Accepts s s' := by
    rintro f ⟨s', hreturns, _, haccepts⟩
    exact ⟨s', hreturns, haccepts⟩
  cases c with
  | writeEnable => exact ⟨_, Returns.pure _, silent_accepts inner duration (by decide)⟩
  | writeDisable => exact ⟨_, Returns.pure _, silent_accepts inner duration (by decide)⟩
  | readSR regno =>
    refine ⟨_, Returns.pure _, silent_accepts inner duration ?_⟩
    unfold readCommand
    split_ifs <;> decide
  | readID => exact ⟨_, Returns.pure _, silent_accepts inner duration (by decide)⟩
  | writeSR regno sr =>
    refine ⟨_, Returns.pure _, modify_accepts inner duration _ _ ?_ h.1 h.2⟩
    unfold writeCommand
    split_ifs <;> decide
  | read addr n => exact ⟨_, Returns.pure _, (read_accepts inner duration type addr n h).2⟩
  | writeNoCheck p addr n => exact settle (writeNoCheck_settles inner duration type p addr n h)
  | write p addr n => exact settle (write_settles inner duration type p addr n h)
  | eraseSector d => exact settle (erase_settles inner duration _ _ (by decide) h)
  | eraseChip => exact settle (erase_settles inner duration _ _ (by decide) h)

/-! ## A call made outside its condition loses an instruction -/

/-- Some instruction was ignored. -/
def Spoiled (s : StatusChip σ) : Prop := ∃ r ∈ s.receipts, ¬ r.Accepted

theorem note_spoiled {cmd : UInt8} {s : StatusChip σ} (h : Spoiled s) : Spoiled (s.note cmd) := by
  obtain ⟨r, hr, hbad⟩ := h
  refine ⟨r, ?_, hbad⟩
  unfold note
  split
  · exact List.mem_append_left _ hr
  · exact hr

theorem transact_spoiled (tx : List UInt8) (s : StatusChip σ) (h : Spoiled s) :
    Spoiled ((slave inner duration).transact tx s).2 := by
  cases tx with
  | nil => exact h
  | cons cmd rest =>
    unfold Spoiled
    rw [transact_receipts]
    exact note_spoiled h

/-- A chip that will refuse a modifying instruction, now or when it is idle. -/
def Refusing (s : StatusChip σ) : Prop := s.busy ≠ 0 ∨ s.wel = false

theorem tick_refusing {s : StatusChip σ} (h : Refusing s) : Refusing s.tick := by
  unfold Refusing tick at *
  by_cases hone : s.busy = 1
  · exact Or.inr (if_pos hone)
  · rcases h with h | h
    · exact Or.inl (by simp only; omega)
    · exact Or.inr (by simp [h])

theorem waitBusy_refusing {fuel : Nat} {s s' : StatusChip σ} (hs : Refusing s)
    (h : w25qxxWaitBusy (slave inner duration) fuel s = some s') : Refusing s' := by
  refine waitBusy_polls (fun s hs => ?_) hs h
  obtain ⟨_, hstate⟩ := readSR_poll inner duration s
  rw [hstate]
  split
  · exact hs
  · exact tick_refusing hs

theorem modify_spoils {cmd : UInt8} {rest : List UInt8} {s : StatusChip σ}
    (hcmd : isModifying cmd = true) (hs : Refusing s) :
    Spoiled ((slave inner duration).transact (cmd :: rest) s).2 := by
  refine ⟨⟨cmd, decide (0 < s.busy), s.wel⟩, ?_, ?_⟩
  · rw [transact_receipts]
    simp [note, hcmd]
  · rintro ⟨hidle, hwel⟩
    rcases hs with h | h
    · simp at hidle; omega
    · rw [h] at hwel
      exact Bool.false_ne_true (hwel hcmd)

theorem read_spoils (addr : UInt32) (n : UInt16) {s : StatusChip σ} (hs : s.busy ≠ 0) :
    Spoiled (w25qxxRead (slave inner duration) type addr n s).2 := by
  refine ⟨⟨w25xReadData, decide (0 < s.busy), s.wel⟩, ?_, ?_⟩
  · rw [show (w25qxxRead (slave inner duration) type addr n s).2.receipts = _ from
      transact_receipts inner duration _ _ s]
    simp [note]
  · rintro ⟨hidle, _⟩
    simp at hidle
    omega

/-- A write enable sent to a busy chip is ignored. -/
theorem writeEnable_refusing {s : StatusChip σ} (hs : s.busy ≠ 0) :
    Refusing (w25qxxWriteEnable (slave inner duration) s) := by
  have hnote : s.note w25xWriteEnable = s := rfl
  have htick : w25qxxWriteEnable (slave inner duration) s = s.tick := by
    simp only [w25qxxWriteEnable, slave, transact, hnote, if_pos hs]
  rw [htick]
  exact tick_refusing (Or.inl hs)

theorem writeNoCheckLoop_spoils {fuel : Nat} {p : Ptr} {addr : UInt32} {n m : UInt16}
    {s s' : StatusChip σ} (hs : s.busy ≠ 0)
    (h : writeNoCheckLoop (slave inner duration) type fuel p addr n m s = some s') :
    Spoiled s' := by
  have hI := transact_spoiled (σ := σ) inner duration
  cases fuel with
  | zero => simp [writeNoCheckLoop] at h
  | succ fuel =>
    obtain ⟨s₁, hpage, hrest⟩ := Option.bind_eq_some_iff.mp h
    have hs₁ : Spoiled s₁ := waitBusy_preserves hI
      (modify_spoils inner duration (by decide) (writeEnable_refusing inner duration hs)) hpage
    split at hrest
    · rwa [← Option.some.inj hrest]
    · exact writeNoCheckLoop_preserves hI hs₁ hrest

theorem erase_spoils {fuel : Nat} {cmd : UInt8} {rest : List UInt8}
    (hcmd : isModifying cmd = true) {s s' : StatusChip σ} (hs : s.busy ≠ 0)
    (h : (w25qxxWaitBusy (slave inner duration) fuel
      (w25qxxWriteEnable (slave inner duration) s)).bind (fun s =>
        w25qxxWaitBusy (slave inner duration) fuel
          ((slave inner duration).transact (cmd :: rest) s).2) = some s') : Spoiled s' := by
  obtain ⟨s₁, hwait, hrest⟩ := Option.bind_eq_some_iff.mp h
  have hs₁ := waitBusy_refusing inner duration (writeEnable_refusing inner duration hs) hwait
  exact waitBusy_preserves (transact_spoiled inner duration)
    (modify_spoils inner duration hcmd hs₁) hrest

theorem call_spoils {c : Call} {s s' : StatusChip σ} {fuel : Nat} (h : ¬ CallReady s c)
    (hexec : Call.exec inner duration type fuel c s = some s') : Spoiled s' := by
  cases c with
  | writeEnable => exact absurd trivial h
  | writeDisable => exact absurd trivial h
  | readSR regno => exact absurd trivial h
  | readID => exact absurd trivial h
  | writeSR regno sr =>
    rw [← Option.some.inj hexec]
    refine modify_spoils inner duration ?_ ?_
    · unfold writeCommand
      split_ifs <;> decide
    · by_cases hbusy : s.busy = 0
      · exact Or.inr (Bool.eq_false_iff.mpr fun hwel => h ⟨hbusy, hwel⟩)
      · exact Or.inl hbusy
  | read addr n =>
    rw [← Option.some.inj hexec]
    exact read_spoils inner duration type addr n h
  | writeNoCheck p addr n => exact writeNoCheckLoop_spoils inner duration type h hexec
  | write p addr n =>
    exact writeLoop_preserves (transact_spoiled inner duration)
      (read_spoils inner duration type _ _ h) hexec
  | eraseSector d => exact erase_spoils inner duration (by decide) h hexec
  | eraseChip => exact erase_spoils inner duration (by decide) h hexec

theorem call_preserves_spoiled {c : Call} {s s' : StatusChip σ} {fuel : Nat} (h : Spoiled s)
    (hexec : Call.exec inner duration type fuel c s = some s') : Spoiled s' := by
  have hI := transact_spoiled (σ := σ) inner duration
  cases c with
  | writeEnable => rw [← Option.some.inj hexec]; exact hI _ _ h
  | writeDisable => rw [← Option.some.inj hexec]; exact hI _ _ h
  | readSR regno => rw [← Option.some.inj hexec]; exact hI _ _ h
  | readID => rw [← Option.some.inj hexec]; exact hI _ _ h
  | writeSR regno sr => rw [← Option.some.inj hexec]; exact hI _ _ h
  | read addr n => rw [← Option.some.inj hexec]; exact hI _ _ h
  | writeNoCheck p addr n => exact writeNoCheckLoop_preserves hI h hexec
  | write p addr n => exact writeLoop_preserves hI (hI _ _ h) hexec
  | eraseSector d => exact eraseSector_preserves hI h hexec
  | eraseChip => exact eraseChip_preserves hI h hexec

theorem elapse_receipts (n : Nat) : ∀ s : StatusChip σ, (s.elapse n).receipts = s.receipts := by
  induction n with
  | zero => intro s; rfl
  | succ n ih => intro s; exact ih s.tick

/-- In a run from power-up nothing is ignored exactly when every call was made
under its condition; a call made under it returns. -/
theorem run_accepts_iff {array : σ} {calls : List (StatusChip σ × Call)} {s : StatusChip σ}
    (hrun : Run inner duration type (powerUp array) calls s) :
    ((∀ r ∈ s.receipts, r.Accepted) ↔ ∀ x ∈ calls, CallReady x.1 x.2) ∧
      ∀ c, CallReady s c → ∃ s', Returns (fun fuel => Call.exec inner duration type fuel c s) s' := by
  refine ⟨?_, fun c hc => ?_⟩
  · induction hrun with
    | init => simp [powerUp]
    | elapse n _ ih => rwa [elapse_receipts]
    | @call calls s c s' _ hreturns ih =>
      obtain ⟨bound, hbound⟩ := id hreturns
      have hexec := hbound bound le_rfl
      rw [List.forall_mem_append, List.forall_mem_singleton, ← ih]
      constructor
      · intro hall
        have hkeep : ∀ {s₁ : StatusChip σ}, ¬ Spoiled s₁ → ∀ r ∈ s₁.receipts, r.Accepted :=
          fun h r hr => not_not.mp fun hbad => h ⟨r, hr, hbad⟩
        have hclean : ¬ Spoiled s' := fun ⟨r, hr, hbad⟩ => hbad (hall r hr)
        refine ⟨hkeep fun h => hclean (call_preserves_spoiled inner duration type h hexec), ?_⟩
        exact not_not.mp fun h => hclean (call_spoils inner duration type h hexec)
      · rintro ⟨hall, hready⟩
        obtain ⟨s₁, hreturns₁, new, hreceipts, hnew⟩ := call_accepts inner duration type hready
        rw [hreturns.unique hreturns₁, hreceipts, List.forall_mem_append]
        exact ⟨hall, hnew⟩
  · obtain ⟨s', hreturns, _⟩ := call_accepts inner duration type hc
    exact ⟨s', hreturns⟩

end Runs

/-- An idle `W25Q128` with an erased array. -/
def erasedChip : StatusChip ArrayState := powerUp ⟨fun _ => 0xFF, []⟩

/-- A status write right after power-up finds WEL clear: `W25QXX_Write_SR` does
not set it, as the program and erase functions do. -/
theorem writeSR_ignored :
    ¬ ∀ (calls : List (StatusChip ArrayState × Call)) (s : StatusChip ArrayState),
      Run w25q128Part.slave (fun _ => 5) w25q128 erasedChip calls s →
        ∀ r ∈ s.receipts, r.Accepted := by
  intro h
  have hinit : Run w25q128Part.slave (fun _ => 5) w25q128 erasedChip [] erasedChip := .init
  have hrun := Run.call (c := .writeSR 1 0x1C) hinit (Returns.pure _)
  exact absurd (h _ _ hrun ⟨0x01, false, false⟩ (by decide)) (by decide)

/-- With the latch set first, the status write is accepted. -/
theorem run_accepts_writeSR :
    ∃ s, (∀ r ∈ s.receipts, r.Accepted) ∧ s.receipts = [⟨0x01, false, true⟩] ∧
      Run w25q128Part.slave (fun _ => 5) w25q128 erasedChip
        [(erasedChip, .writeEnable), ({ erasedChip with wel := true }, .writeSR 1 0x1C)] s := by
  have hinit : Run w25q128Part.slave (fun _ => 5) w25q128 erasedChip [] erasedChip := .init
  have henable : Run w25q128Part.slave (fun _ => 5) w25q128 erasedChip
      [(erasedChip, .writeEnable)] { erasedChip with wel := true } :=
    .call hinit (Returns.pure _)
  have hrun := Run.call (c := .writeSR 1 0x1C) henable (Returns.pure _)
  refine ⟨_, ((run_accepts_iff w25q128Part.slave (fun _ => 5) w25q128 hrun).1.mpr ?_), ?_, hrun⟩
  · intro x hx
    simp only [List.cons_append, List.nil_append, List.mem_cons, List.not_mem_nil, or_false] at hx
    rcases hx with rfl | rfl
    · trivial
    · exact ⟨rfl, rfl⟩
  · rfl

end StmGateway.Flash.Status
