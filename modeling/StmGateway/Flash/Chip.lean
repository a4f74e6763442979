import StmGateway.Flash.Driver
import StmGateway.Lib.NorArray

/-!
# The W25Qxx array

The chip side of the bus, as far as its array goes: a power-of-two number of
cells whose addresses are decoded modulo that number, page programs that AND
into a 256-byte page, sector erases of 4096 bytes. The chip is always ready
here; its BUSY and write-enable bits are the subject of `Flash.Status`. `trace`
records the array operations in the order they were carried out.
-/
namespace StmGateway.Flash.Chip

open StmGateway.Lib.NorArray Driver

/-- A part of `2 ^ log2Size` bytes that takes addresses of `addrWidth` bytes,
which reach the whole array. -/
structure Part where
  log2Size : Nat
  addrWidth : Nat
  one_mib : 20 ≤ log2Size
  width : addrWidth = 3 ∨ addrWidth = 4
  reach : log2Size ≤ 8 * addrWidth

inductive ArrayOp where
  | program (addr : Nat) (data : List UInt8)
  | erase (addr : Nat)
  | eraseAll

structure ArrayState where
  cells : Cells
  trace : List ArrayOp

/-- The 16 MiB part with three address bytes, `W25Q128`. -/
def w25q128Part : Part where
  log2Size := 24
  addrWidth := 3
  one_mib := by decide
  width := Or.inl rfl
  reach := by decide

/-- The number of address bytes the driver sends. -/
def sentWidth (type : UInt16) : Nat := if type = w25q256 then 4 else 3

/-- Address bytes arrive most significant first. -/
def beNat (bytes : List UInt8) : Nat := bytes.foldl (fun acc b => acc * 256 + b.toNat) 0

def ArrayOp.apply (cells : Cells) : ArrayOp → Cells
  | .program addr data => Lib.NorArray.program 256 cells addr data
  | .erase addr => Lib.NorArray.erase 4096 cells addr
  | .eraseAll => fun _ => 0xFF

def ArrayState.run (c : ArrayState) (op : ArrayOp) : ArrayState :=
  { cells := op.apply c.cells, trace := c.trace ++ [op] }

/-- The bytes an operation programs, with their cells, in order. -/
def ArrayOp.programmed : ArrayOp → List (Nat × UInt8)
  | .program addr data => data.zipIdx.map fun b => (inPage 256 addr b.2, b.1)
  | _ => []

/-- A program that does not wrap inside its page. -/
def ArrayOp.InPage : ArrayOp → Prop
  | .program addr data => addr % 256 + data.length ≤ 256
  | _ => False

/-- The sector an operation erases. -/
def ArrayOp.erased : ArrayOp → Option Nat
  | .erase addr => some (addr / 4096)
  | _ => none

/-- Every cell an operation touches lies in one sector, and a program does not
wrap inside its page. -/
def ArrayOp.Within (sector : Nat) (op : ArrayOp) : Prop :=
  match op with
  | .program _ _ => op.InPage ∧ ∀ b ∈ op.programmed, b.1 / 4096 = sector
  | .erase addr => addr / 4096 = sector
  | .eraseAll => False

namespace Part

variable (p : Part)

def size : Nat := 2 ^ p.log2Size

def decode (bytes : List UInt8) : Nat := beNat bytes % p.size

/-- One selection: the command byte, an address where the command has one, data. -/
def transact (tx : List UInt8) (c : ArrayState) : List UInt8 × ArrayState :=
  match tx with
  | [] => ([], c)
  | cmd :: rest =>
    let addr := p.decode (rest.take p.addrWidth)
    let data := rest.drop p.addrWidth
    let silent := tx.map fun _ => 0xFF
    if cmd = w25xReadData then
      (List.replicate (1 + p.addrWidth) 0xFF ++
        (List.range data.length).map fun i => c.cells ((addr + i) % p.size), c)
    else if cmd = w25xPageProgram then (silent, c.run (.program addr data))
    else if cmd = w25xSectorErase then (silent, c.run (.erase addr))
    else if cmd = w25xChipErase then (silent, c.run .eraseAll)
    else if cmd = w25xReadStatusReg1 then (0xFF :: rest.map fun _ => 0x00, c)
    else (silent, c)

def slave : SpiSlave ArrayState := ⟨p.transact⟩

theorem size_pos : 0 < p.size := Nat.two_pow_pos _

theorem size_dvd : p.size ∣ 2 ^ (8 * p.addrWidth) := pow_dvd_pow 2 p.reach

/-- Units of at most one MiB divide the array. -/
theorem dvd_size {k : Nat} (h : k ≤ 20) : 2 ^ k ∣ p.size := pow_dvd_pow 2 (h.trans p.one_mib)

theorem size_dvd_word : p.size ∣ 2 ^ 32 := by
  refine p.size_dvd.trans (pow_dvd_pow 2 ?_)
  rcases p.width with h | h <;> omega

theorem addrBytes_length (type : UInt16) (addr : UInt32) :
    (addrBytes type addr).length = sentWidth type := by
  unfold addrBytes sentWidth
  split <;> rfl

/-- The bytes the driver sends name the cell of the address, in either width. -/
theorem decode_addrBytes {type : UInt16} (hw : p.addrWidth = sentWidth type) (addr : UInt32) :
    p.decode (addrBytes type addr) = addr.toNat % p.size := by
  have hlt := addr.toNat_lt
  have hdvd := p.size_dvd
  rw [hw] at hdvd
  have hbyte : ∀ k : UInt32, (addr >>> k).toUInt8.toNat = addr.toNat / 2 ^ (k.toNat % 32) % 256 := by
    intro k
    rw [UInt32.toNat_toUInt8, UInt32.toNat_shiftRight, Nat.shiftRight_eq_div_pow]
  have hlow : addr.toUInt8.toNat = addr.toNat % 256 := UInt32.toNat_toUInt8 addr
  unfold decode addrBytes beNat
  unfold sentWidth at hdvd
  split
  · simp only [List.cons_append, List.nil_append, List.foldl_cons, List.foldl_nil, hbyte, hlow]
    change ((((0 * 256 + addr.toNat / 2 ^ 24 % 256) * 256 + addr.toNat / 2 ^ 16 % 256) * 256 +
      addr.toNat / 2 ^ 8 % 256) * 256 + addr.toNat % 256) % p.size = _
    congr 1
    omega
  · next h =>
    rw [if_neg h] at hdvd
    simp only [List.nil_append, List.foldl_cons, List.foldl_nil, hbyte, hlow]
    change (((0 * 256 + addr.toNat / 2 ^ 16 % 256) * 256 +
      addr.toNat / 2 ^ 8 % 256) * 256 + addr.toNat % 256) % p.size = _
    rw [show ((0 * 256 + addr.toNat / 2 ^ 16 % 256) * 256 + addr.toNat / 2 ^ 8 % 256) * 256 +
      addr.toNat % 256 = addr.toNat % 2 ^ 24 by omega]
    exact Nat.mod_mod_of_dvd _ hdvd

end Part

/-! ## What the driver's primitives do to the array -/

section Primitives

variable (p : Part) {type : UInt16} (hw : p.addrWidth = sentWidth type)

theorem writeEnable_chip (c : ArrayState) : w25qxxWriteEnable p.slave c = c := rfl

/-- The array alone is never busy, so the first poll ends the wait. -/
theorem waitBusy_chip (fuel : Nat) (c : ArrayState) :
    w25qxxWaitBusy p.slave (fuel + 1) c = some c := by
  have hready : (w25qxxReadSR p.slave 1 c) = (0x00, c) := rfl
  simp only [w25qxxWaitBusy, hready]
  rfl

include hw

theorem transact_program (addr : UInt32) (data : List UInt8) (c : ArrayState) :
    (p.slave.transact (w25xPageProgram :: addrBytes type addr ++ data) c).2 =
      c.run (.program (addr.toNat % p.size) data) := by
  have hlen : (addrBytes type addr).length = p.addrWidth := by
    rw [Part.addrBytes_length, hw]
  have hcmd : w25xPageProgram ≠ w25xReadData := by decide
  simp only [Part.slave, Part.transact, List.cons_append, if_neg hcmd, ↓reduceIte,
    List.take_left' hlen, List.drop_left' hlen, p.decode_addrBytes hw]

theorem transact_erase (addr : UInt32) (c : ArrayState) :
    (p.slave.transact (w25xSectorErase :: addrBytes type addr) c).2 =
      c.run (.erase (addr.toNat % p.size)) := by
  have hlen : (addrBytes type addr).length = p.addrWidth := by
    rw [Part.addrBytes_length, hw]
  have hcmd : w25xSectorErase ≠ w25xReadData ∧ w25xSectorErase ≠ w25xPageProgram := by decide
  simp only [Part.slave, Part.transact, if_neg hcmd.1, if_neg hcmd.2, ↓reduceIte,
    List.take_of_length_le hlen.le, p.decode_addrBytes hw]

/-- A read returns the cells from the address on and changes nothing. -/
theorem read_chip (addr : UInt32) (n : UInt16) (c : ArrayState) :
    (w25qxxRead p.slave type addr n c).2 = c ∧
      ∀ i < n.toNat, (w25qxxRead p.slave type addr n c).1 i =
        c.cells ((addr.toNat + i) % p.size) := by
  have hlen : (addrBytes type addr).length = p.addrWidth := by
    rw [Part.addrBytes_length, hw]
  simp only [w25qxxRead, Part.slave, Part.transact, List.cons_append, ↓reduceIte,
    List.take_left' hlen, List.drop_left' hlen, p.decode_addrBytes hw]
  refine ⟨trivial, fun i hi => ?_⟩
  have hhead : (w25xReadData :: addrBytes type addr).length = 1 + p.addrWidth := by
    rw [List.length_cons, hlen, Nat.add_comm]
  rw [hhead, List.getD_eq_getElem?_getD, List.getElem?_append_right (by simp)]
  simp [hi, Nat.mod_add_mod]

theorem writePage_chip (pBuffer : Ptr) (addr : UInt32) (n : UInt16) (c : ArrayState) (fuel : Nat) :
    w25qxxWritePage p.slave type (fuel + 1) pBuffer addr n c =
      some (c.run (.program (addr.toNat % p.size) ((List.range n.toNat).map pBuffer))) := by
  simp only [w25qxxWritePage, writeEnable_chip, transact_program p hw, waitBusy_chip]

theorem eraseSector_chip (secpos : UInt32) (c : ArrayState) (fuel : Nat) :
    w25qxxEraseSector p.slave type (fuel + 1) secpos c =
      some (c.run (.erase ((secpos * 4096).toNat % p.size))) := by
  simp only [w25qxxEraseSector, writeEnable_chip, waitBusy_chip, transact_erase p hw]
  rfl

end Primitives
end StmGateway.Flash.Chip
