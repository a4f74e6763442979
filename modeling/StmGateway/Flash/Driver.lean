import StmGateway.Lib.Fuel

/-!
# The W25QXX flash driver

`applications/spi_flash/spi_flash.c`, over any device on the SPI bus. Between
`W25QXX_CS(0)` and `W25QXX_CS(1)` the driver exchanges bytes it knows in
advance, so one selection of the chip is one call of `transact`, with the bytes
sent and the bytes read back in their order. `type` is the global
`W25QXX_TYPE`, which none of these functions writes. A pointer is the function
giving the bytes from it on.
-/
namespace StmGateway.Flash.Driver

open StmGateway.Lib

/-- A device on the bus: what it answers to the bytes of one selection. -/
structure SpiSlave (σ : Type) where
  transact : List UInt8 → σ → List UInt8 × σ

abbrev Ptr := Nat → UInt8

def Ptr.add (p : Ptr) (n : Nat) : Ptr := fun i => p (n + i)

def w25q256 : UInt16 := 0xEF18
def w25q128 : UInt16 := 0xEF17

def w25xWriteEnable : UInt8 := 0x06
def w25xWriteDisable : UInt8 := 0x04
def w25xReadStatusReg1 : UInt8 := 0x05
def w25xReadStatusReg2 : UInt8 := 0x35
def w25xReadStatusReg3 : UInt8 := 0x15
def w25xWriteStatusReg1 : UInt8 := 0x01
def w25xWriteStatusReg2 : UInt8 := 0x31
def w25xWriteStatusReg3 : UInt8 := 0x11
def w25xReadData : UInt8 := 0x03
def w25xPageProgram : UInt8 := 0x02
def w25xSectorErase : UInt8 := 0x20
def w25xChipErase : UInt8 := 0xC7
def w25xManufactDeviceID : UInt8 := 0x90

variable {σ : Type} (dev : SpiSlave σ) (type : UInt16)

/-- The address bytes, most significant first; `W25Q256` takes a fourth one. -/
def addrBytes (addr : UInt32) : List UInt8 :=
  (if type = w25q256 then [(addr >>> 24).toUInt8] else []) ++
    [(addr >>> 16).toUInt8, (addr >>> 8).toUInt8, addr.toUInt8]

def readCommand (regno : UInt8) : UInt8 :=
  if regno = 1 then w25xReadStatusReg1
  else if regno = 2 then w25xReadStatusReg2
  else if regno = 3 then w25xReadStatusReg3
  else w25xReadStatusReg1

def w25qxxReadSR (regno : UInt8) (s : σ) : UInt8 × σ :=
  let r := dev.transact [readCommand regno, 0xFF] s
  (r.1.getD 1 0, r.2)

def writeCommand (regno : UInt8) : UInt8 :=
  if regno = 1 then w25xWriteStatusReg1
  else if regno = 2 then w25xWriteStatusReg2
  else if regno = 3 then w25xWriteStatusReg3
  else w25xWriteStatusReg1

def w25qxxWriteSR (regno sr : UInt8) (s : σ) : σ :=
  (dev.transact [writeCommand regno, sr] s).2

def w25qxxWriteEnable (s : σ) : σ := (dev.transact [w25xWriteEnable] s).2

def w25qxxWriteDisable (s : σ) : σ := (dev.transact [w25xWriteDisable] s).2

def w25qxxReadID (s : σ) : UInt16 × σ :=
  let r := dev.transact [w25xManufactDeviceID, 0x00, 0x00, 0x00, 0xFF, 0xFF] s
  ((r.1.getD 4 0).toUInt16 <<< 8 ||| (r.1.getD 5 0).toUInt16, r.2)

/-- The bytes read are those after the command and the address. -/
def w25qxxRead (readAddr : UInt32) (numByteToRead : UInt16) (s : σ) : Ptr × σ :=
  let head := w25xReadData :: addrBytes type readAddr
  let r := dev.transact (head ++ List.replicate numByteToRead.toNat 0xFF) s
  (fun i => r.1.getD (head.length + i) 0, r.2)

/-- `while ((W25QXX_ReadSR(1) & 0x01) == 0x01);` -/
def w25qxxWaitBusy : Nat → σ → Option σ
  | 0, _ => none
  | fuel + 1, s =>
      let r := w25qxxReadSR dev 1 s
      if r.1 &&& 0x01 = 0x01 then w25qxxWaitBusy fuel r.2 else some r.2

def w25qxxWritePage (fuel : Nat) (pBuffer : Ptr) (writeAddr : UInt32)
    (numByteToWrite : UInt16) (s : σ) : Option σ :=
  let s := w25qxxWriteEnable dev s
  let data := (List.range numByteToWrite.toNat).map pBuffer
  let s := (dev.transact (w25xPageProgram :: addrBytes type writeAddr ++ data) s).2
  w25qxxWaitBusy dev fuel s

/-- The `while (1)` of `W25QXX_Write_NoCheck`. -/
def writeNoCheckLoop : Nat → Ptr → UInt32 → UInt16 → UInt16 → σ → Option σ
  | 0, _, _, _, _, _ => none
  | fuel + 1, pBuffer, writeAddr, numByteToWrite, pageremain, s => do
      let s ← w25qxxWritePage dev type fuel pBuffer writeAddr pageremain s
      if numByteToWrite = pageremain then
        return s
      else
        let numByteToWrite' := numByteToWrite - pageremain
        writeNoCheckLoop fuel (pBuffer.add pageremain.toNat) (writeAddr + pageremain.toUInt32)
          numByteToWrite' (if numByteToWrite' > 256 then 256 else numByteToWrite') s

def w25qxxWriteNoCheck (fuel : Nat) (pBuffer : Ptr) (writeAddr : UInt32)
    (numByteToWrite : UInt16) (s : σ) : Option σ :=
  let pageremain := (256 - writeAddr % 256).toUInt16
  let pageremain := if numByteToWrite ≤ pageremain then numByteToWrite else pageremain
  writeNoCheckLoop dev type fuel pBuffer writeAddr numByteToWrite pageremain s

def w25qxxEraseChip (fuel : Nat) (s : σ) : Option σ := do
  let s := w25qxxWriteEnable dev s
  let s ← w25qxxWaitBusy dev fuel s
  let s := (dev.transact [w25xChipErase] s).2
  w25qxxWaitBusy dev fuel s

def w25qxxEraseSector (fuel : Nat) (dstAddr : UInt32) (s : σ) : Option σ := do
  let dstAddr := dstAddr * 4096
  let s := w25qxxWriteEnable dev s
  let s ← w25qxxWaitBusy dev fuel s
  let s := (dev.transact (w25xSectorErase :: addrBytes type dstAddr) s).2
  w25qxxWaitBusy dev fuel s

/-- The check loop, with `left` positions to go from `i` on: the first offset
whose byte is not `0xFF`, or `secremain`. -/
def checkLoop (buf : Ptr) (secoff : Nat) : Nat → Nat → Nat
  | 0, i => i
  | left + 1, i => if buf (secoff + i) ≠ 0xFF then i else checkLoop buf secoff left (i + 1)

/-- The copy loop over `i < n`. -/
def copyLoop (pBuffer : Ptr) (secoff : Nat) : Nat → Ptr → Ptr
  | 0, buf => buf
  | n + 1, buf => Function.update (copyLoop pBuffer secoff n buf) (n + secoff) (pBuffer n)

/-- One turn of the `while (1)` of `W25QXX_Write`: one sector. `W25QXX_BUFFER`
is filled afresh from the chip, so its old content is not a state. -/
def writeSector (fuel : Nat) (pBuffer : Ptr) (writeAddr : UInt32)
    (secpos : UInt32) (secoff secremain : UInt16) (s : σ) : Option σ :=
  let (buf, s) := w25qxxRead dev type (secpos * 4096) 4096 s
  let i := checkLoop buf secoff.toNat secremain.toNat 0
  if i < secremain.toNat then do
    let s ← w25qxxEraseSector dev type fuel secpos s
    let buf := copyLoop pBuffer secoff.toNat secremain.toNat buf
    w25qxxWriteNoCheck dev type fuel buf (secpos * 4096) 4096 s
  else
    w25qxxWriteNoCheck dev type fuel pBuffer writeAddr secremain s

def writeLoop : Nat → Ptr → UInt32 → UInt16 → UInt32 → UInt16 → UInt16 → σ → Option σ
  | 0, _, _, _, _, _, _, _ => none
  | fuel + 1, pBuffer, writeAddr, numByteToWrite, secpos, secoff, secremain, s => do
      let s ← writeSector dev type fuel pBuffer writeAddr secpos secoff secremain s
      if numByteToWrite = secremain then
        return s
      else
        let numByteToWrite' := numByteToWrite - secremain
        writeLoop fuel (pBuffer.add secremain.toNat) (writeAddr + secremain.toUInt32)
          numByteToWrite' (secpos + 1) 0
          (if numByteToWrite' > 4096 then 4096 else numByteToWrite') s

def w25qxxWrite (fuel : Nat) (pBuffer : Ptr) (writeAddr : UInt32)
    (numByteToWrite : UInt16) (s : σ) : Option σ :=
  let secpos := writeAddr / 4096
  let secoff := (writeAddr % 4096).toUInt16
  let secremain := 4096 - secoff
  let secremain := if numByteToWrite ≤ secremain then numByteToWrite else secremain
  writeLoop dev type fuel pBuffer writeAddr numByteToWrite secpos secoff secremain s

/-! ## What every selection preserves, every function preserves -/

section Preserved

variable {dev type} {I : σ → Prop} (hI : ∀ tx s, I s → I (dev.transact tx s).2)

/-- Waiting only polls. -/
theorem waitBusy_polls (hpoll : ∀ s, I s → I (w25qxxReadSR dev 1 s).2) :
    ∀ {fuel : Nat} {s s' : σ}, I s → w25qxxWaitBusy dev fuel s = some s' → I s' := by
  intro fuel
  induction fuel with
  | zero => intro s s' _ h; simp [w25qxxWaitBusy] at h
  | succ fuel ih =>
    intro s s' hs h
    have hnext := hpoll s hs
    simp only [w25qxxWaitBusy] at h
    split at h
    · exact ih hnext h
    · rwa [Option.some.inj h] at hnext

include hI

theorem waitBusy_preserves {fuel : Nat} {s s' : σ} (hs : I s)
    (h : w25qxxWaitBusy dev fuel s = some s') : I s' :=
  waitBusy_polls (fun _ hs => hI _ _ hs) hs h

theorem writePage_preserves {fuel : Nat} {p : Ptr} {addr : UInt32} {n : UInt16} {s s' : σ}
    (hs : I s) (h : w25qxxWritePage dev type fuel p addr n s = some s') : I s' :=
  waitBusy_preserves hI (hI _ _ (hI _ _ hs)) h

theorem writeNoCheckLoop_preserves : ∀ {fuel : Nat} {p : Ptr} {addr : UInt32} {n m : UInt16}
    {s s' : σ}, I s → writeNoCheckLoop dev type fuel p addr n m s = some s' → I s' := by
  intro fuel
  induction fuel with
  | zero => intro p addr n m s s' _ h; simp [writeNoCheckLoop] at h
  | succ fuel ih =>
    intro p addr n m s s' hs h
    obtain ⟨s₁, hpage, hrest⟩ := Option.bind_eq_some_iff.mp h
    have hs₁ := writePage_preserves hI hs hpage
    split at hrest
    · rwa [← Option.some.inj hrest]
    · exact ih hs₁ hrest

theorem eraseSector_preserves {fuel : Nat} {d : UInt32} {s s' : σ} (hs : I s)
    (h : w25qxxEraseSector dev type fuel d s = some s') : I s' := by
  obtain ⟨s₁, hwait, hrest⟩ := Option.bind_eq_some_iff.mp h
  exact waitBusy_preserves hI (hI _ _ (waitBusy_preserves hI (hI _ _ hs) hwait)) hrest

theorem eraseChip_preserves {fuel : Nat} {s s' : σ} (hs : I s)
    (h : w25qxxEraseChip dev fuel s = some s') : I s' := by
  obtain ⟨s₁, hwait, hrest⟩ := Option.bind_eq_some_iff.mp h
  exact waitBusy_preserves hI (hI _ _ (waitBusy_preserves hI (hI _ _ hs) hwait)) hrest

/-- The sector write after its read. -/
theorem writeSector_preserves {fuel : Nat} {p : Ptr} {addr secpos : UInt32} {secoff m : UInt16}
    {s s' : σ} (hs : I (w25qxxRead dev type (secpos * 4096) 4096 s).2)
    (h : writeSector dev type fuel p addr secpos secoff m s = some s') : I s' := by
  simp only [writeSector] at h
  split at h
  · obtain ⟨s₁, herase, hrest⟩ := Option.bind_eq_some_iff.mp h
    exact writeNoCheckLoop_preserves hI (eraseSector_preserves hI hs herase) hrest
  · exact writeNoCheckLoop_preserves hI hs h

theorem writeLoop_preserves : ∀ {fuel : Nat} {p : Ptr} {addr : UInt32} {n : UInt16}
    {secpos : UInt32} {secoff m : UInt16} {s s' : σ},
    I (w25qxxRead dev type (secpos * 4096) 4096 s).2 →
    writeLoop dev type fuel p addr n secpos secoff m s = some s' → I s' := by
  intro fuel
  induction fuel with
  | zero => intro p addr n secpos secoff m s s' _ h; simp [writeLoop] at h
  | succ fuel ih =>
    intro p addr n secpos secoff m s s' hs h
    obtain ⟨s₁, hsector, hrest⟩ := Option.bind_eq_some_iff.mp h
    have hs₁ := writeSector_preserves hI hs hsector
    split at hrest
    · rwa [← Option.some.inj hrest]
    · exact ih (hI _ _ hs₁) hrest

end Preserved
end StmGateway.Flash.Driver
