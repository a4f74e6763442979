import StmGateway.Flash.Chip
import StmGateway.Flash.Chunks

/-!
# What a flash write leaves in the array

`W25QXX_Write_NoCheck` ANDs the buffer into the addressed cells, and
`W25QXX_Write` stores it there: sectors that hold a programmed cell of the range
are read, erased and written back with the new bytes, the others are programmed
directly. Cells outside the range keep their values in both branches.
-/
namespace StmGateway.Flash.Write

open StmGateway.Lib StmGateway.Lib.NorArray Driver Chip Chunks

/-- The stored byte replaces the old one. -/
def store (_ new : UInt8) : UInt8 := new

theorem ff_and (b : UInt8) : 0xFF &&& b = b := UInt8.neg_one_and

theorem checkLoop_le (buf : Ptr) (secoff : Nat) :
    ∀ left i, checkLoop buf secoff left i ≤ i + left := by
  intro left
  induction left with
  | zero => intro i; simp [checkLoop]
  | succ left ih =>
    intro i
    unfold checkLoop
    split
    · omega
    · have := ih (i + 1)
      omega

/-- The loop runs to the end exactly over erased bytes. -/
theorem checkLoop_eq_iff (buf : Ptr) (secoff : Nat) :
    ∀ left i, checkLoop buf secoff left i = i + left ↔
      ∀ j < left, buf (secoff + (i + j)) = 0xFF := by
  intro left
  induction left with
  | zero => intro i; simp [checkLoop]
  | succ left ih =>
    intro i
    unfold checkLoop
    split
    · next h =>
      constructor
      · intro he; omega
      · intro hall; exact absurd (hall 0 (by omega)) h
    · next h =>
      rw [show i + (left + 1) = i + 1 + left by omega, ih (i + 1)]
      constructor
      · intro hall j hj
        cases j with
        | zero => exact not_not.mp h
        | succ j =>
          rw [show i + (j + 1) = i + 1 + j by omega]
          exact hall j (by omega)
      · intro hall j hj
        rw [show i + 1 + j = i + (j + 1) by omega]
        exact hall (j + 1) (by omega)

theorem copyLoop_eq (pBuffer buf : Ptr) (secoff : Nat) :
    ∀ n k, copyLoop pBuffer secoff n buf k =
      if secoff ≤ k ∧ k < secoff + n then pBuffer (k - secoff) else buf k := by
  intro n
  induction n with
  | zero => intro k; rw [copyLoop, if_neg (by omega)]
  | succ n ih =>
    intro k
    rw [copyLoop]
    by_cases hk : k = n + secoff
    · subst hk
      rw [Function.update_self, if_pos (by omega), Nat.add_sub_cancel]
    · rw [Function.update_of_ne hk, ih k]
      by_cases hin : secoff ≤ k ∧ k < secoff + n
      · rw [if_pos hin, if_pos (by omega)]
      · rw [if_neg hin, if_neg (by omega)]

theorem offset_toNat (a : Nat) : (UInt16.ofNat (a % 4096)).toNat = a % 4096 := by
  rw [UInt16.toNat_ofNat']
  omega

section Array

variable (p : Part) {type : UInt16} (hw : p.addrWidth = sentWidth type)

theorem count_le_size (n : UInt16) : n.toNat ≤ p.size := by
  have h : 2 ^ 20 ≤ p.size := Nat.pow_le_pow_right (by decide) p.one_mib
  have := n.toNat_lt
  omega

/-- The cell of a virtual address survives the reduction to `uint32_t`. -/
theorem cell_of_virtual (a : Nat) : (UInt32.ofNat a).toNat % p.size = a % p.size := by
  rw [UInt32.toNat_ofNat', Nat.mod_mod_of_dvd _ p.size_dvd_word]

theorem unit_dvd : 256 ∣ p.size ∧ 4096 ∣ p.size :=
  ⟨p.dvd_size (k := 8) (by decide), p.dvd_size (k := 12) (by decide)⟩

/-- A sector whose bytes of the range are all erased takes the data directly. -/
theorem store_of_erased {pBuffer : Ptr} {old new : Cells} {addr m : Nat}
    (h : Overlay (· &&& ·) p.size old new addr m pBuffer)
    (herased : ∀ k < m, old ((addr + k) % p.size) = 0xFF) :
    Overlay store p.size old new addr m pBuffer := by
  refine ⟨fun k hk => ?_, h.kept⟩
  rw [h.written k hk, herased k hk, ff_and]
  rfl

/-- A sector read, erased and written back with `m` new bytes at `off` is the
old sector with these bytes stored. -/
theorem store_of_rewrite {pBuffer buf : Ptr} {old new : Cells} {base off m : Nat}
    (hbase : 4096 ∣ base) (hfit : off + m ≤ 4096)
    (hbuf : ∀ k < 4096, buf k = old ((base + k) % p.size))
    (h : Overlay (· &&& ·) p.size (erase 4096 old (base % p.size)) new base 4096
      (copyLoop pBuffer off m buf)) :
    Overlay store p.size old new (base + off) m pBuffer := by
  have hsector : ∀ x < p.size, x / 4096 = base % p.size / 4096 ↔
      ∃ j < 4096, x = (base + j) % p.size := fun x hx =>
    Overlay.mem_sector_iff (by decide) (unit_dvd p).2 hbase hx
  have hwritten : ∀ k < 4096, new ((base + k) % p.size) = copyLoop pBuffer off m buf k := by
    intro k hk
    rw [h.written k hk, erase, if_pos ((hsector _ (Nat.mod_lt _ p.size_pos)).mpr ⟨k, hk, rfl⟩),
      ff_and]
  constructor
  · intro k hk
    rw [Nat.add_assoc, hwritten _ (by omega), copyLoop_eq, if_pos (by omega),
      Nat.add_sub_cancel_left]
    rfl
  · intro x hx hout
    by_cases hin : ∃ j < 4096, x = (base + j) % p.size
    · obtain ⟨j, hj, rfl⟩ := hin
      rw [hwritten j hj, copyLoop_eq, if_neg, hbuf j hj]
      rintro ⟨hle, hlt⟩
      exact hout (j - off) (by omega) (by rw [Nat.add_assoc, Nat.add_sub_cancel' hle])
    · rw [h.kept x hx fun k hk he => hin ⟨k, hk, he⟩, erase, if_neg]
      exact fun he => hin ((hsector x hx).mp he)

/-- The sector base the driver reads, erases and writes back. -/
theorem sector_base (a : Nat) :
    (UInt32.ofNat (a / 4096) * 4096).toNat % p.size = a / 4096 * 4096 % p.size := by
  rw [UInt32.toNat_mul, UInt32.toNat_ofNat', Nat.mod_mod_of_dvd _ p.size_dvd_word]
  change a / 4096 % 2 ^ 32 * 4096 % p.size = _
  rw [Nat.mul_mod, Nat.mod_mod_of_dvd _ p.size_dvd_word, ← Nat.mul_mod]

/-- One page program brings the bytes of its chunk to their cells, in order. -/
theorem programmed_page {pBuffer : Ptr} {a m : Nat} (hpage : a % 256 + m ≤ 256) :
    (ArrayOp.program (a % p.size) ((List.range m).map pBuffer)).programmed =
      (List.range m).map fun k => ((a + k) % p.size, pBuffer k) := by
  have hmod : a % p.size % 256 = a % 256 := Nat.mod_mod_of_dvd _ (unit_dvd p).1
  apply List.ext_getElem
  · simp [ArrayOp.programmed]
  · intro k hk hk'
    simp only [List.length_map, List.length_range] at hk'
    have hcell : a % p.size + k < p.size := by
      obtain ⟨q, hq⟩ := (unit_dvd p).1
      have hlt := Nat.mod_lt a p.size_pos
      omega
    simp only [ArrayOp.programmed, List.getElem_map, List.getElem_zipIdx, List.getElem_range,
      Nat.zero_add]
    rw [inPage_eq (by omega), ← Nat.mod_add_mod, Nat.mod_eq_of_lt hcell]

/-- `W25QXX_Write_NoCheck` up to `done` bytes: what the array holds, and the
programs that brought it there. -/
structure Programs (c c' : ArrayState) (addr done : Nat) (pBuffer : Ptr) : Prop where
  cells : Overlay (· &&& ·) p.size c.cells c'.cells addr done pBuffer
  trace : ∃ ops, c'.trace = c.trace ++ ops ∧ (∀ op ∈ ops, op.InPage) ∧
    ops.flatMap ArrayOp.programmed =
      (List.range done).map fun k => ((addr + k) % p.size, pBuffer k)

theorem Programs.nil (c : ArrayState) (addr : Nat) (pBuffer : Ptr) :
    Programs p c c addr 0 pBuffer :=
  ⟨Overlay.nil, [], by simp, by simp, rfl⟩

theorem Programs.snoc {c c' : ArrayState} {addr done m : Nat} {pBuffer : Ptr}
    (h : Programs p c c' addr done pBuffer) (hfit : done + m ≤ p.size)
    (hpage : (addr + done) % 256 + m ≤ 256) :
    Programs p c (c'.run (.program ((addr + done) % p.size) ((List.range m).map (pBuffer.add done))))
      addr (done + m) pBuffer := by
  have hmod : (addr + done) % p.size % 256 = (addr + done) % 256 :=
    Nat.mod_mod_of_dvd _ (unit_dvd p).1
  constructor
  · have hprogram := Overlay.of_program c'.cells (unit_dvd p).1
      (Nat.mod_lt (addr + done) p.size_pos) (by rw [hmod]; exact hpage) (pBuffer.add done)
    exact h.cells.append (hprogram.of_modEq (Nat.mod_modEq _ _).symm) hfit
  · obtain ⟨ops, htrace, hinside, hbytes⟩ := h.trace
    refine ⟨ops ++ [.program ((addr + done) % p.size) ((List.range m).map (pBuffer.add done))],
      ?_, ?_, ?_⟩
    · rw [ArrayState.run, htrace, List.append_assoc]
    · intro op hop
      rw [List.mem_append, List.mem_singleton] at hop
      rcases hop with hop | rfl
      · exact hinside op hop
      · simp only [ArrayOp.InPage, List.length_map, List.length_range, hmod]
        exact hpage
    · rw [List.flatMap_append, hbytes, List.flatMap_singleton, programmed_page p hpage,
        List.range_add, List.map_append, List.map_map]
      congr 1
      apply List.map_congr_left
      intro k _
      simp only [Function.comp_apply, Nat.add_assoc, Ptr.add]

include hw

theorem writeNoCheck_programs (pBuffer : Ptr) (addr : UInt32) (n : UInt16) (c : ArrayState) :
    ∃ c', Returns (fun fuel => w25qxxWriteNoCheck p.slave type fuel pBuffer addr n c) c' ∧
      Programs p c c' addr.toNat n.toNat pBuffer := by
  apply writeNoCheck_returns p.slave type (P := fun done c' =>
    Programs p c c' addr.toNat done pBuffer)
  · intro done m c₁ hP htotal hpage
    refine ⟨_, (Returns.pure _).step fun fuel => writePage_chip p hw _ _ _ _ _, ?_⟩
    rw [cell_of_virtual p]
    exact hP.snoc p (htotal.trans (count_le_size p n)) hpage
  · exact Programs.nil p c _ _

/-- Programming without a check combines the buffer with the old content by AND. -/
theorem writeNoCheck_cells (pBuffer : Ptr) (addr : UInt32) (n : UInt16) (c : ArrayState) :
    ∃ c', Returns (fun fuel => w25qxxWriteNoCheck p.slave type fuel pBuffer addr n c) c' ∧
      Overlay (· &&& ·) p.size c.cells c'.cells addr.toNat n.toNat pBuffer := by
  obtain ⟨c', hreturns, hprograms⟩ := writeNoCheck_programs p hw pBuffer addr n c
  exact ⟨c', hreturns, hprograms.cells⟩

/-- `W25QXX_Write_NoCheck` returns, and the buffer is ANDed into the addressed
cells; its bytes went there one after the other, in programs that stay inside
their page. -/
theorem writeNoCheck_ands (pBuffer : Ptr) (writeAddr : UInt32) (numByteToWrite : UInt16)
    (c : ArrayState) :
    ∃ c', Returns (fun fuel =>
        w25qxxWriteNoCheck p.slave type fuel pBuffer writeAddr numByteToWrite c) c' ∧
      (∀ k < numByteToWrite.toNat, c'.cells ((writeAddr.toNat + k) % p.size) =
        c.cells ((writeAddr.toNat + k) % p.size) &&& pBuffer k) ∧
      (∀ x < p.size, (∀ k < numByteToWrite.toNat, x ≠ (writeAddr.toNat + k) % p.size) →
        c'.cells x = c.cells x) ∧
      ∃ ops, c'.trace = c.trace ++ ops ∧ (∀ op ∈ ops, op.InPage) ∧
        ops.flatMap ArrayOp.programmed =
          (List.range numByteToWrite.toNat).map fun k =>
            ((writeAddr.toNat + k) % p.size, pBuffer k) := by
  obtain ⟨c', hreturns, hcells, htrace⟩ := writeNoCheck_programs p hw pBuffer writeAddr
    numByteToWrite c
  exact ⟨c', hreturns, hcells.written, hcells.kept, htrace⟩

/-- The sector as `W25QXX_Write` examines it, and what the check loop then says
about the `m` bytes of the range. -/
theorem writeSector_examines (a : Nat) (m : UInt16) (c : ArrayState)
    (hsector : a % 4096 + m.toNat ≤ 4096) :
    ∃ buf : Ptr, w25qxxRead p.slave type (UInt32.ofNat (a / 4096) * 4096) 4096 c = (buf, c) ∧
      (∀ k < 4096, buf k = c.cells ((a / 4096 * 4096 + k) % p.size)) ∧
      (checkLoop buf (a % 4096) m.toNat 0 < m.toNat ↔
        ∃ k < m.toNat, c.cells ((a + k) % p.size) ≠ 0xFF) := by
  have hread := read_chip p hw (UInt32.ofNat (a / 4096) * 4096) 4096 c
  rcases hr : w25qxxRead p.slave type (UInt32.ofNat (a / 4096) * 4096) 4096 c with ⟨buf, c₀⟩
  rw [hr] at hread
  obtain ⟨rfl, hbytes⟩ := hread
  have hbuf : ∀ k < 4096, buf k = c₀.cells ((a / 4096 * 4096 + k) % p.size) := by
    intro k hk
    rw [← Nat.mod_add_mod, ← sector_base p a, Nat.mod_add_mod]
    exact hbytes k hk
  refine ⟨buf, rfl, hbuf, ?_⟩
  have hle := checkLoop_le buf (a % 4096) m.toNat 0
  have hall := checkLoop_eq_iff buf (a % 4096) m.toNat 0
  have hcell : ∀ k < m.toNat, buf (a % 4096 + (0 + k)) = c₀.cells ((a + k) % p.size) := by
    intro k hk
    rw [Nat.zero_add, hbuf _ (by omega), ← Nat.add_assoc,
      show a / 4096 * 4096 + a % 4096 = a by omega]
  constructor
  · intro hused
    by_contra hnone
    have herased : checkLoop buf (a % 4096) m.toNat 0 = 0 + m.toNat :=
      hall.mpr fun k hk => by
        rw [hcell k hk]
        by_contra hff
        exact hnone ⟨k, hk, hff⟩
    omega
  · intro hused
    obtain ⟨k, hk, hff⟩ := hused
    by_contra hlast
    exact hff ((hcell k hk).symm.trans (hall.mp (by omega) k hk))

/-- A sector with a programmed cell of the range is erased and written back. -/
theorem writeSector_rewrites (pBuffer : Ptr) (a : Nat) (m : UInt16) (c : ArrayState)
    (hsector : a % 4096 + m.toNat ≤ 4096)
    (hused : ∃ k < m.toNat, c.cells ((a + k) % p.size) ≠ 0xFF) :
    ∃ buf : Ptr, (∀ k < 4096, buf k = c.cells ((a / 4096 * 4096 + k) % p.size)) ∧
      ∀ c', Returns (fun fuel => w25qxxWriteNoCheck p.slave type fuel
          (copyLoop pBuffer (a % 4096) m.toNat buf) (UInt32.ofNat (a / 4096) * 4096) 4096
          (c.run (.erase (a / 4096 * 4096 % p.size)))) c' →
        Returns (fun fuel => writeSector p.slave type fuel pBuffer (UInt32.ofNat a)
          (UInt32.ofNat (a / 4096)) (UInt16.ofNat (a % 4096)) m c) c' := by
  obtain ⟨buf, hr, hbuf, hcheck⟩ := writeSector_examines p hw a m c hsector
  refine ⟨buf, hbuf, fun c' hreturns => ?_⟩
  have herase : Returns (fun fuel => w25qxxEraseSector p.slave type fuel
      (UInt32.ofNat (a / 4096)) c) (c.run (.erase (a / 4096 * 4096 % p.size))) := by
    rw [← sector_base p a]
    exact (Returns.pure _).step fun fuel => eraseSector_chip p hw _ _ _
  refine (herase.bind (fun s fuel => w25qxxWriteNoCheck p.slave type fuel
    (copyLoop pBuffer (a % 4096) m.toNat buf) (UInt32.ofNat (a / 4096) * 4096) 4096 s)
    hreturns).congr fun fuel => ?_
  simp only [writeSector, hr, offset_toNat, hcheck.mpr hused, ↓reduceIte]
  rfl

/-- A sector whose bytes of the range are erased is programmed in place. -/
theorem writeSector_programs (pBuffer : Ptr) (a : Nat) (m : UInt16) (c : ArrayState)
    (hsector : a % 4096 + m.toNat ≤ 4096)
    (herased : ¬ ∃ k < m.toNat, c.cells ((a + k) % p.size) ≠ 0xFF) {c' : ArrayState}
    (hreturns : Returns (fun fuel =>
      w25qxxWriteNoCheck p.slave type fuel pBuffer (UInt32.ofNat a) m c) c') :
    Returns (fun fuel => writeSector p.slave type fuel pBuffer (UInt32.ofNat a)
      (UInt32.ofNat (a / 4096)) (UInt16.ofNat (a % 4096)) m c) c' := by
  obtain ⟨buf, hr, _, hcheck⟩ := writeSector_examines p hw a m c hsector
  refine hreturns.congr fun fuel => ?_
  simp only [writeSector, hr, offset_toNat, mt hcheck.mp herased, ↓reduceIte]

/-- One turn of the sector loop stores its part of the buffer, in both branches. -/
theorem writeSector_cells (pBuffer : Ptr) (a : Nat) (m : UInt16) (c : ArrayState)
    (hsector : a % 4096 + m.toNat ≤ 4096) :
    ∃ c', Returns (fun fuel => writeSector p.slave type fuel pBuffer (UInt32.ofNat a)
        (UInt32.ofNat (a / 4096)) (UInt16.ofNat (a % 4096)) m c) c' ∧
      Overlay store p.size c.cells c'.cells a m.toNat pBuffer := by
  by_cases hused : ∃ k < m.toNat, c.cells ((a + k) % p.size) ≠ 0xFF
  · obtain ⟨buf, hbuf, hwrite⟩ := writeSector_rewrites p hw pBuffer a m c hsector hused
    obtain ⟨c', hreturns, hcells⟩ := writeNoCheck_cells p hw
      (copyLoop pBuffer (a % 4096) m.toNat buf) (UInt32.ofNat (a / 4096) * 4096) 4096
      (c.run (.erase (a / 4096 * 4096 % p.size)))
    refine ⟨c', hwrite c' hreturns, ?_⟩
    have hover := hcells.of_modEq (sector_base p a).symm
    have ha : a / 4096 * 4096 + a % 4096 = a := by omega
    rw [← ha]
    exact store_of_rewrite p (Nat.dvd_mul_left _ _) hsector hbuf hover
  · obtain ⟨c', hreturns, hcells⟩ := writeNoCheck_cells p hw pBuffer (UInt32.ofNat a) m c
    refine ⟨c', writeSector_programs p hw pBuffer a m c hsector hused hreturns, ?_⟩
    refine store_of_erased p (hcells.of_modEq (cell_of_virtual p a).symm) fun k hk => ?_
    by_contra hff
    exact hused ⟨k, hk, hff⟩

/-- `W25QXX_Write` returns, and the buffer is then in the array at the addressed
cells, whatever the array held; every other cell has its old value. -/
theorem write_stores (pBuffer : Ptr) (writeAddr : UInt32) (numByteToWrite : UInt16)
    (c : ArrayState) :
    ∃ c', Returns (fun fuel =>
        w25qxxWrite p.slave type fuel pBuffer writeAddr numByteToWrite c) c' ∧
      (∀ k < numByteToWrite.toNat, c'.cells ((writeAddr.toNat + k) % p.size) = pBuffer k) ∧
      ∀ x < p.size, (∀ k < numByteToWrite.toNat, x ≠ (writeAddr.toNat + k) % p.size) →
        c'.cells x = c.cells x := by
  obtain ⟨c', hreturns, hcells⟩ := write_returns p.slave type (P := fun done c' =>
    Overlay store p.size c.cells c'.cells writeAddr.toNat done pBuffer)
    (n := numByteToWrite) (s := c) (by
      intro done m c₁ hP htotal hsector
      obtain ⟨c₂, hreturns, hcells⟩ := writeSector_cells p hw (pBuffer.add done)
        (writeAddr.toNat + done) m c₁ hsector
      exact ⟨c₂, hreturns, hP.append hcells (htotal.trans (count_le_size p numByteToWrite))⟩)
    Overlay.nil
  exact ⟨c', hreturns, hcells.written, hcells.kept⟩

end Array

/-- A write over the end of the array of a `W25Q128` full of zeros. -/
theorem write_stores_w25q128 :
    ∃ c', Returns (fun fuel => w25qxxWrite w25q128Part.slave w25q128 fuel
        (fun k => UInt8.ofNat k) 0xFFFFFFF0 26 ⟨fun _ => 0, []⟩) c' ∧
      (∀ k < 26, c'.cells ((4294967280 + k) % w25q128Part.size) = UInt8.ofNat k) ∧
      ∀ x < w25q128Part.size, (∀ k < 26, x ≠ (4294967280 + k) % w25q128Part.size) →
        c'.cells x = 0 :=
  write_stores w25q128Part rfl (fun k => UInt8.ofNat k) 0xFFFFFFF0 26 ⟨fun _ => 0, []⟩

/-- The cell 255 of a page and the first one of the next, over old content. -/
theorem writeNoCheck_ands_w25q128 :
    ∃ c', Returns (fun fuel => w25qxxWriteNoCheck w25q128Part.slave w25q128 fuel
        (fun _ => 0x3C) 0x1FF 2 ⟨fun _ => 0xF0, []⟩) c' ∧
      (∀ k < 2, c'.cells ((0x1FF + k) % w25q128Part.size) = 0xF0 &&& 0x3C) ∧
      (∀ x < w25q128Part.size, (∀ k < 2, x ≠ (0x1FF + k) % w25q128Part.size) →
        c'.cells x = 0xF0) ∧
      ∃ ops, c'.trace = [] ++ ops ∧ (∀ op ∈ ops, op.InPage) ∧
        ops.flatMap ArrayOp.programmed =
          (List.range 2).map fun k => ((0x1FF + k) % w25q128Part.size, 0x3C) :=
  writeNoCheck_ands w25q128Part rfl (fun _ => 0x3C) 0x1FF 2 ⟨fun _ => 0xF0, []⟩

end StmGateway.Flash.Write
