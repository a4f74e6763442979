import StmGateway.Flash.Driver

/-!
# Total rules for the two chunking loops

What `W25QXX_Write_NoCheck` and `W25QXX_Write` do to any device, given what
one page program or one sector write does to it. The rules speak of virtual
addresses: `WriteAddr + k` as a natural number, whose reduction modulo `2^32`
is the `uint32_t` the code computes. Every chunk the rules hand out lies inside
one page or one sector, which is where the remainder arithmetic is settled.
-/
namespace StmGateway.Flash.Chunks

open StmGateway.Lib Driver

variable {σ : Type} (dev : SpiSlave σ) (type : UInt16)

theorem ptr_add_add (p : Ptr) (m n : Nat) : (p.add m).add n = p.add (m + n) := by
  funext i
  simp only [Ptr.add, Nat.add_assoc]

theorem ptr_add_zero (p : Ptr) : p.add 0 = p := by
  funext i
  simp only [Ptr.add, Nat.zero_add]

theorem ofNat_add_toUInt32 (a : Nat) (m : UInt16) :
    UInt32.ofNat a + m.toUInt32 = UInt32.ofNat (a + m.toNat) := by
  apply UInt32.toNat_inj.mp
  simp only [UInt32.toNat_add, UInt32.toNat_ofNat', UInt16.toNat_toUInt32]
  omega

theorem ofNat_toNat (a : UInt32) : UInt32.ofNat a.toNat = a := by
  apply UInt32.toNat_inj.mp
  rw [UInt32.toNat_ofNat']
  exact Nat.mod_eq_of_lt a.toNat_lt

/-- The chunk after this one: a full one, or what is left. -/
def nextChunk (full left : UInt16) : UInt16 := if left > full then full else left

theorem nextChunk_le (full left : UInt16) :
    (nextChunk full left).toNat ≤ left.toNat ∧ (nextChunk full left).toNat ≤ full.toNat := by
  unfold nextChunk
  split
  · next h => exact ⟨(UInt16.lt_iff_toNat_lt.mp h).le, le_rfl⟩
  · next h => exact ⟨le_rfl, UInt16.le_iff_toNat_le.mp (UInt16.not_lt.mp h)⟩

theorem nextChunk_eq (full left : UInt16) :
    nextChunk full left = left ∨ nextChunk full left = full := by
  unfold nextChunk
  split
  · exact Or.inr rfl
  · exact Or.inl rfl

theorem sub_toNat {n m : UInt16} (h : m.toNat ≤ n.toNat) : (n - m).toNat = n.toNat - m.toNat :=
  UInt16.toNat_sub_of_le _ _ (UInt16.le_iff_toNat_le.mpr h)

/-- The size of the first chunk: what is left of the unit, or everything. -/
def firstChunk (n room : UInt16) : UInt16 := if n ≤ room then n else room

theorem firstChunk_le (n room : UInt16) :
    (firstChunk n room).toNat ≤ n.toNat ∧ (firstChunk n room).toNat ≤ room.toNat := by
  unfold firstChunk
  split
  · next h => exact ⟨le_rfl, UInt16.le_iff_toNat_le.mp h⟩
  · next h => exact ⟨(UInt16.lt_iff_toNat_lt.mp (UInt16.not_le.mp h)).le, le_rfl⟩

theorem firstChunk_eq (n room : UInt16) : firstChunk n room = n ∨ firstChunk n room = room := by
  unfold firstChunk
  split
  · exact Or.inl rfl
  · exact Or.inr rfl

section Loop

variable {loop : Nat → Nat → UInt16 → UInt16 → σ → Option σ}
  {body : Nat → Nat → UInt16 → σ → Option σ} {P : Nat → σ → Prop} {addr total : Nat}
  {full : UInt16}

/-- One chunk of `m` bytes at virtual address `addr + done` carries `P` on. -/
def ChunkStep (body : Nat → Nat → UInt16 → σ → Option σ) (P : Nat → σ → Prop)
    (addr total : Nat) (full : UInt16) : Prop :=
  ∀ (done : Nat) (m : UInt16) (s : σ), P done s → done + m.toNat ≤ total →
    (addr + done) % full.toNat + m.toNat ≤ full.toNat →
    ∃ s', Returns (fun fuel => body fuel done m s) s' ∧ P (done + m.toNat) s'

/-- The equation of a chunking loop. It may use that a chunk which is not the
last one ends its unit. -/
def ChunkLoop (loop : Nat → Nat → UInt16 → UInt16 → σ → Option σ)
    (body : Nat → Nat → UInt16 → σ → Option σ) (addr : Nat) (full : UInt16) : Prop :=
  ∀ (fuel done : Nat) (n m : UInt16) (s : σ),
    (n = m ∨ (addr + done) % full.toNat + m.toNat = full.toNat) →
    loop (fuel + 1) done n m s = (body fuel done m s).bind fun s' =>
      if n = m then some s'
      else loop fuel (done + m.toNat) (n - m) (nextChunk full (n - m)) s'

/-- The chunk of `m` bytes at `done` is all that the transfer has in its unit. -/
structure WholeUnit (addr total full done m : Nat) : Prop where
  pos : 0 < m
  starts : done = 0 ∨ (addr + done) % full = 0
  ends : done + m = total ∨ (addr + done) % full + m = full
  inside : (addr + done) % full + m ≤ full
  le : done + m ≤ total

theorem WholeUnit.mem_iff {addr total full done m k : Nat} (h : WholeUnit addr total full done m)
    (hk : k < total) : (addr + k) / full = (addr + done) / full ↔ done ≤ k ∧ k < done + m := by
  have hpos : 0 < full := by have := h.pos; have := h.inside; omega
  have hdone := Nat.div_add_mod (addr + done) full
  have hkey := Nat.div_add_mod (addr + k) full
  have hlt := Nat.mod_lt (addr + k) hpos
  constructor
  · intro he
    rw [he] at hkey
    constructor
    · rcases h.starts with h0 | h0 <;> omega
    · rcases h.ends with hend | hend <;> omega
  · intro hin
    have hdiff : addr + k = full * ((addr + done) / full) + ((addr + done) % full + (k - done)) := by
      omega
    have hsmall : (addr + done) % full + (k - done) < full := by have := h.inside; omega
    rw [hdiff, Nat.mul_add_div hpos, Nat.div_eq_of_lt hsmall, Nat.add_zero]

/-- A chunk that is all the transfer has in its unit carries `P` on. -/
def UnitStep (body : Nat → Nat → UInt16 → σ → Option σ) (P : Nat → σ → Prop)
    (addr total : Nat) (full : UInt16) : Prop :=
  ∀ (done : Nat) (m : UInt16) (s : σ), P done s → WholeUnit addr total full.toNat done m.toNat →
    ∃ s', Returns (fun fuel => body fuel done m s) s' ∧ P (done + m.toNat) s'

/-- The loop invariant: the transfer or a unit begins where the chunk does, and
the chunk finishes the one or the other. -/
theorem chunkLoop_returns (hfull : 0 < full.toNat) (heq : ChunkLoop loop body addr full)
    (step : UnitStep body P addr total full) :
    ∀ (left done : Nat) (n m : UInt16) (s : σ), n.toNat = left → done + left = total → P done s →
      0 < m.toNat → m.toNat ≤ n.toNat → (done = 0 ∨ (addr + done) % full.toNat = 0) →
      (addr + done) % full.toNat + m.toNat ≤ full.toNat →
      (n = m ∨ (addr + done) % full.toNat + m.toNat = full.toNat) →
      ∃ s', Returns (fun fuel => loop fuel done n m s) s' ∧ P total s' := by
  intro left
  induction left using Nat.strong_induction_on with
  | h left ih =>
    intro done n m s hn htotal hP hpos hle hstart hunit hend
    obtain ⟨s₁, hreturns, hP₁⟩ := step done m s hP
      ⟨hpos, hstart, hend.imp (fun h => by rw [← h]; omega) id, hunit, by omega⟩
    by_cases hlast : n = m
    · subst hlast
      refine ⟨s₁, ?_, by rwa [hn, htotal] at hP₁⟩
      refine (hreturns.bind (fun s' _ => some s') (Returns.pure s₁)).step fun fuel => ?_
      rw [heq fuel done n n s hend]
      simp only [↓reduceIte]
    · have hlt : m.toNat < n.toNat := by
        have hne : n.toNat ≠ m.toNat := fun h => hlast (UInt16.toNat_inj.mp h)
        omega
      have hsub := sub_toNat hle
      have hfills := hend.resolve_left hlast
      have hunit' : (addr + (done + m.toNat)) % full.toNat = 0 := by
        rw [← Nat.add_assoc, ← Nat.mod_add_mod, hfills, Nat.mod_self]
      obtain ⟨hnext, hnext'⟩ := nextChunk_le full (n - m)
      have hchunk := nextChunk_eq full (n - m)
      obtain ⟨s₂, hrest, hP₂⟩ := ih (n.toNat - m.toNat) (by omega) (done + m.toNat) (n - m)
        (nextChunk full (n - m)) s₁ hsub (by omega) hP₁
        (by rcases hchunk with h | h <;> rw [h] <;> omega) hnext (Or.inr hunit')
        (by rw [hunit']; omega)
        (by
          rw [hunit', Nat.zero_add]
          rcases hchunk with h | h
          · exact Or.inl h.symm
          · exact Or.inr (congrArg UInt16.toNat h))
      refine ⟨s₂, ?_, hP₂⟩
      refine (hreturns.bind (fun s' fuel => loop fuel (done + m.toNat) (n - m)
        (nextChunk full (n - m)) s') hrest).step fun fuel => ?_
      rw [heq fuel done n m s hend]
      simp only [hlast, ↓reduceIte]

/-- The loop as both functions enter it with something to transfer. -/
theorem chunkLoop_units (hfull : 0 < full.toNat) (heq : ChunkLoop loop body addr full)
    {n room : UInt16} (hn : 0 < n.toNat) (hroom : room.toNat = full.toNat - addr % full.toNat)
    (step : UnitStep body P addr n.toNat full) {s : σ} (hP : P 0 s) :
    ∃ s', Returns (fun fuel => loop fuel 0 n (firstChunk n room) s) s' ∧ P n.toNat s' := by
  have hlt : addr % full.toNat < full.toNat := Nat.mod_lt _ hfull
  obtain ⟨hle, hle'⟩ := firstChunk_le n room
  have hchunk := firstChunk_eq n room
  apply chunkLoop_returns hfull heq step n.toNat 0 n (firstChunk n room) s rfl (Nat.zero_add _) hP
    _ hle (Or.inl rfl)
  · rw [Nat.add_zero]; omega
  · rcases hchunk with h | h
    · exact Or.inl h.symm
    · rw [h, Nat.add_zero]; omega
  · rcases hchunk with h | h <;> rw [h] <;> omega

/-- The loop as both functions enter it, with the room left in the first unit. -/
theorem chunkLoop_entry (hfull : 0 < full.toNat) (heq : ChunkLoop loop body addr full)
    {n room : UInt16} (hroom : room.toNat = full.toNat - addr % full.toNat)
    (step : ChunkStep body P addr n.toNat full) {s : σ} (hP : P 0 s) :
    ∃ s', Returns (fun fuel => loop fuel 0 n (firstChunk n room) s) s' ∧ P n.toNat s' := by
  by_cases hn : 0 < n.toNat
  · exact chunkLoop_units hfull heq hn hroom
      (fun done m s hP h => step done m s hP h.le h.inside) hP
  · have hempty : firstChunk n room = n :=
      if_pos (UInt16.le_iff_toNat_le.mpr (by omega))
    have hlt : addr % full.toNat < full.toNat := Nat.mod_lt _ hfull
    obtain ⟨s', hreturns, hP'⟩ := step 0 n s hP (by omega) (by rw [Nat.add_zero]; omega)
    rw [Nat.zero_add] at hP'
    refine ⟨s', (hreturns.bind (fun s' _ => some s') (Returns.pure s')).step fun fuel => ?_, hP'⟩
    rw [hempty, heq fuel 0 n n s (Or.inl rfl)]
    simp only [↓reduceIte]

end Loop

/-- One page program at virtual address `addr + done`. -/
def pageBody (pBuffer : Ptr) (addr : Nat) (fuel done : Nat) (m : UInt16) (s : σ) : Option σ :=
  w25qxxWritePage dev type fuel (pBuffer.add done) (UInt32.ofNat (addr + done)) m s

/-- One sector write at virtual address `addr + done`. -/
def sectorBody (pBuffer : Ptr) (addr : Nat) (fuel done : Nat) (m : UInt16) (s : σ) : Option σ :=
  writeSector dev type fuel (pBuffer.add done) (UInt32.ofNat (addr + done))
    (UInt32.ofNat ((addr + done) / 4096)) (UInt16.ofNat ((addr + done) % 4096)) m s

theorem writeNoCheckLoop_chunks (pBuffer : Ptr) (addr : Nat) :
    ChunkLoop (fun fuel done n m s => writeNoCheckLoop dev type fuel (pBuffer.add done)
      (UInt32.ofNat (addr + done)) n m s) (pageBody dev type pBuffer addr) addr 256 := by
  intro fuel done n m s _
  simp only [writeNoCheckLoop, ptr_add_add, ofNat_add_toUInt32, Nat.add_assoc]
  rfl

/-- A sector that is not the last one ends on a boundary, so `secpos++` and
`secoff = 0` name the next virtual address. -/
theorem writeLoop_chunks (pBuffer : Ptr) (addr : Nat) :
    ChunkLoop (fun fuel done n m s => writeLoop dev type fuel (pBuffer.add done)
      (UInt32.ofNat (addr + done)) n (UInt32.ofNat ((addr + done) / 4096))
      (UInt16.ofNat ((addr + done) % 4096)) m s) (sectorBody dev type pBuffer addr) addr 4096 := by
  intro fuel done n m s hend
  simp only [writeLoop, ptr_add_add, ofNat_add_toUInt32, Nat.add_assoc]
  by_cases hlast : n = m
  · simp only [hlast, ↓reduceIte]
    rfl
  · have hfills : (addr + done) % 4096 + m.toNat = 4096 := hend.resolve_left hlast
    have hsec : UInt32.ofNat ((addr + (done + m.toNat)) / 4096) =
        UInt32.ofNat ((addr + done) / 4096) + 1 := by
      rw [show (addr + (done + m.toNat)) / 4096 = (addr + done) / 4096 + 1 by omega,
        UInt32.ofNat_add]
      rfl
    have hoff : UInt16.ofNat ((addr + (done + m.toNat)) % 4096) = 0 := by
      rw [show (addr + (done + m.toNat)) % 4096 = 0 by omega]
      rfl
    simp only [hlast, ↓reduceIte, hsec, hoff]
    rfl

/-- `W25QXX_Write_NoCheck` returns and programs the range page by page. -/
theorem writeNoCheck_returns {P : Nat → σ → Prop} {pBuffer : Ptr} {writeAddr : UInt32} {n : UInt16}
    {s : σ} (step : ChunkStep (pageBody dev type pBuffer writeAddr.toNat) P writeAddr.toNat n.toNat 256)
    (hP : P 0 s) :
    ∃ s', Returns (fun fuel => w25qxxWriteNoCheck dev type fuel pBuffer writeAddr n s) s' ∧
      P n.toNat s' := by
  have hroom : (256 - writeAddr % 256).toUInt16.toNat = 256 - writeAddr.toNat % 256 := by
    rw [UInt32.toNat_toUInt16, UInt32.toNat_sub_of_le _ _ (by
      rw [UInt32.le_iff_toNat_le, UInt32.toNat_mod]; change writeAddr.toNat % 256 ≤ 256; omega)]
    change (256 - writeAddr.toNat % 256) % 65536 = _
    omega
  have h := chunkLoop_entry (by decide) (writeNoCheckLoop_chunks dev type pBuffer writeAddr.toNat)
    hroom step hP
  simp only [Nat.add_zero, ptr_add_zero, ofNat_toNat] at h
  exact h

/-- `W25QXX_Write` enters its loop at the virtual address `WriteAddr`, with the
room left in the first sector. -/
theorem write_enters (pBuffer : Ptr) (writeAddr : UInt32) (n : UInt16) :
    ∃ room : UInt16, room.toNat = 4096 - writeAddr.toNat % 4096 ∧
      ∀ fuel s, w25qxxWrite dev type fuel pBuffer writeAddr n s =
        writeLoop dev type fuel (pBuffer.add 0) (UInt32.ofNat (writeAddr.toNat + 0)) n
          (UInt32.ofNat ((writeAddr.toNat + 0) / 4096))
          (UInt16.ofNat ((writeAddr.toNat + 0) % 4096)) (firstChunk n room) s := by
  have hoff : (writeAddr % 4096).toUInt16.toNat = writeAddr.toNat % 4096 := by
    rw [UInt32.toNat_toUInt16, UInt32.toNat_mod]
    change writeAddr.toNat % 4096 % 65536 = _
    omega
  have hoff' : UInt16.ofNat (writeAddr.toNat % 4096) = (writeAddr % 4096).toUInt16 := by
    apply UInt16.toNat_inj.mp
    rw [hoff, UInt16.toNat_ofNat']
    omega
  have hsec : UInt32.ofNat (writeAddr.toNat / 4096) = writeAddr / 4096 := by
    apply UInt32.toNat_inj.mp
    have := writeAddr.toNat_lt
    rw [UInt32.toNat_div, UInt32.toNat_ofNat', Nat.mod_eq_of_lt (by omega)]
    rfl
  refine ⟨4096 - (writeAddr % 4096).toUInt16, ?_, fun fuel s => ?_⟩
  · rw [UInt16.toNat_sub_of_le _ _ (by
      rw [UInt16.le_iff_toNat_le, hoff]; change writeAddr.toNat % 4096 ≤ 4096; omega), hoff]
    rfl
  · rw [Nat.add_zero, ptr_add_zero, ofNat_toNat, hoff', hsec]
    rfl

/-- `W25QXX_Write` returns and handles the range sector by sector. -/
theorem write_returns {P : Nat → σ → Prop} {pBuffer : Ptr} {writeAddr : UInt32} {n : UInt16}
    {s : σ}
    (step : ChunkStep (sectorBody dev type pBuffer writeAddr.toNat) P writeAddr.toNat n.toNat 4096)
    (hP : P 0 s) :
    ∃ s', Returns (fun fuel => w25qxxWrite dev type fuel pBuffer writeAddr n s) s' ∧
      P n.toNat s' := by
  obtain ⟨room, hroom, henter⟩ := write_enters dev type pBuffer writeAddr n
  obtain ⟨s', hreturns, hP'⟩ := chunkLoop_entry (by decide)
    (writeLoop_chunks dev type pBuffer writeAddr.toNat) hroom step hP
  exact ⟨s', hreturns.congr fun fuel => henter fuel s, hP'⟩

/-- Each pass of the loop has all the bytes of the range in its sector. -/
theorem write_returns_units {P : Nat → σ → Prop} {pBuffer : Ptr} {writeAddr : UInt32}
    {n : UInt16} {s : σ} (hn : 0 < n.toNat)
    (step : UnitStep (sectorBody dev type pBuffer writeAddr.toNat) P writeAddr.toNat n.toNat 4096)
    (hP : P 0 s) :
    ∃ s', Returns (fun fuel => w25qxxWrite dev type fuel pBuffer writeAddr n s) s' ∧
      P n.toNat s' := by
  obtain ⟨room, hroom, henter⟩ := write_enters dev type pBuffer writeAddr n
  obtain ⟨s', hreturns, hP'⟩ := chunkLoop_units (by decide)
    (writeLoop_chunks dev type pBuffer writeAddr.toNat) hn hroom step hP
  exact ⟨s', hreturns.congr fun fuel => henter fuel s, hP'⟩

end StmGateway.Flash.Chunks
