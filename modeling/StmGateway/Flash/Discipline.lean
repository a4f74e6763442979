import StmGateway.Flash.Write

/-!
# What a flash write erases

The array operations of `W25QXX_Write` in the order the chip carries them out.
The loop takes the sectors of the range one after the other; the operations of
one pass are that sector's turn. A turn erases its sector exactly when the
sector then holds a byte of the range that is not `0xFF`, and both branches
program erased cells of that sector only.
-/
namespace StmGateway.Flash.Discipline

open StmGateway.Lib StmGateway.Lib.NorArray Driver Chip Chunks Write

/-- The array after some operations. -/
def replay (cells : Cells) (ops : List ArrayOp) : Cells := ops.foldl ArrayOp.apply cells

theorem replay_append (cells : Cells) (ops ops' : List ArrayOp) :
    replay cells (ops ++ ops') = replay (replay cells ops) ops' := List.foldl_append

/-- Every byte goes to a cell that is erased when its operation starts. -/
def Blank : Cells → List ArrayOp → Prop
  | _, [] => True
  | cells, op :: ops => (∀ b ∈ op.programmed, cells b.1 = 0xFF) ∧ Blank (op.apply cells) ops

theorem blank_append (ops' : List ArrayOp) : ∀ (ops : List ArrayOp) (cells : Cells),
    Blank cells (ops ++ ops') ↔ Blank cells ops ∧ Blank (replay cells ops) ops' := by
  intro ops
  induction ops with
  | nil => intro cells; simp [Blank, replay]
  | cons op ops ih =>
    intro cells
    simp only [List.cons_append, Blank, ih, and_assoc]
    rfl

/-- The sector holds a byte of the range that is not erased. -/
def Used (cells : Cells) (addr n sector : Nat) : Prop :=
  ∃ k < n, (addr + k) / 4096 = sector ∧ cells (addr + k) ≠ 0xFF

instance (cells : Cells) (addr n sector : Nat) : Decidable (Used cells addr n sector) := by
  unfold Used; infer_instance

/-- One pass of the loop: its sector, and the operations it carried out. -/
structure Turn where
  sector : Nat
  ops : List ArrayOp

/-- The turn of a sector that was examined with the array at `cells`. -/
structure Turn.Disciplined (addr n : Nat) (cells : Cells) (t : Turn) : Prop where
  within : ∀ op ∈ t.ops, op.Within t.sector
  erases : t.ops.filterMap ArrayOp.erased = if Used cells addr n t.sector then [t.sector] else []
  blank : Blank cells t.ops

/-- Turns one after the other, each examining what the ones before it left. -/
def Disciplined (addr n : Nat) : Cells → List Turn → Prop
  | _, [] => True
  | cells, t :: turns => t.Disciplined addr n cells ∧ Disciplined addr n (replay cells t.ops) turns

section Traces

variable {addr n : Nat}

theorem disciplined_append (turns' : List Turn) : ∀ (turns : List Turn) (cells : Cells),
    Disciplined addr n cells (turns ++ turns') ↔ Disciplined addr n cells turns ∧
      Disciplined addr n (replay cells (turns.flatMap Turn.ops)) turns' := by
  intro turns
  induction turns with
  | nil => intro cells; simp [Disciplined, replay]
  | cons t turns ih =>
    intro cells
    simp only [List.cons_append, Disciplined, ih, and_assoc, List.flatMap_cons, replay_append]

theorem Disciplined.blank : ∀ (turns : List Turn) (cells : Cells), Disciplined addr n cells turns →
    Blank cells (turns.flatMap Turn.ops) := by
  intro turns
  induction turns with
  | nil => intro cells _; trivial
  | cons t turns ih =>
    intro cells h
    rw [List.flatMap_cons, blank_append]
    exact ⟨h.1.blank, ih _ h.2⟩

/-- No sector is erased in another one's turn. -/
theorem Disciplined.erased_sublist : ∀ (turns : List Turn) (cells : Cells),
    Disciplined addr n cells turns →
    ((turns.flatMap Turn.ops).filterMap ArrayOp.erased).Sublist (turns.map Turn.sector) := by
  intro turns
  induction turns with
  | nil => intro cells _; exact List.Sublist.slnil
  | cons t turns ih =>
    intro cells h
    rw [List.flatMap_cons, List.filterMap_append, h.1.erases, List.map_cons]
    split
    · exact (ih _ h.2).cons_cons _
    · exact (ih _ h.2).cons _

end Traces

/-! ## What an operation leaves alone -/

/-- A program leaves the cells it does not name alone. -/
theorem apply_of_not_mem {op : ArrayOp} (h : op.InPage) {cells : Cells} {x : Nat}
    (hx : ∀ b ∈ op.programmed, b.1 ≠ x) : op.apply cells x = cells x := by
  cases op with
  | program addr data =>
    rw [ArrayOp.apply, program_eq data cells addr h, dif_neg]
    intro hin
    obtain ⟨hle, hlt⟩ := hin
    refine hx (inPage 256 addr (x - addr), data[x - addr]) ?_ ?_
    · exact List.mem_map.mpr ⟨(data[x - addr], x - addr), by
        rw [List.mem_zipIdx_iff_getElem?]; exact List.getElem?_eq_getElem hlt, rfl⟩
    · have hpage : addr % 256 + data.length ≤ 256 := h
      rw [inPage_eq (by omega)]
      omega
  | erase addr => exact h.elim
  | eraseAll => exact h.elim

theorem apply_of_within {op : ArrayOp} {sector : Nat} (h : op.Within sector) {cells : Cells}
    {x : Nat} (hx : x / 4096 ≠ sector) : op.apply cells x = cells x := by
  cases op with
  | program addr data =>
    exact apply_of_not_mem h.1 fun b hb he => hx (by rw [← he]; exact h.2 b hb)
  | erase addr =>
    have hsector : addr / 4096 = sector := h
    rw [ArrayOp.apply, erase, if_neg (by rw [hsector]; exact hx)]
  | eraseAll => exact h.elim

theorem replay_of_within {x : Nat} : ∀ (ops : List ArrayOp) (cells : Cells),
    (∀ op ∈ ops, ∃ sector, op.Within sector ∧ x / 4096 ≠ sector) → replay cells ops x = cells x := by
  intro ops
  induction ops with
  | nil => intro cells _; rfl
  | cons op ops ih =>
    intro cells h
    obtain ⟨sector, hwithin, hx⟩ := h op List.mem_cons_self
    have hrest := ih (op.apply cells) fun o ho => h o (List.mem_cons_of_mem _ ho)
    exact hrest.trans (apply_of_within hwithin hx)

/-! ## Programs without a check -/

theorem erased_of_inPage {op : ArrayOp} (h : op.InPage) : op.erased = none := by
  cases op with
  | program addr data => rfl
  | erase addr => exact h.elim
  | eraseAll => exact h.elim

theorem within_of_inPage {op : ArrayOp} (h : op.InPage) {sector : Nat}
    (hsector : ∀ b ∈ op.programmed, b.1 / 4096 = sector) : op.Within sector := by
  cases op with
  | program addr data => exact ⟨h, hsector⟩
  | erase addr => exact h.elim
  | eraseAll => exact h.elim

/-- Programs that name no cell twice, and only erased ones, find them erased. -/
theorem blank_of_nodup : ∀ (ops : List ArrayOp) (cells : Cells), (∀ op ∈ ops, op.InPage) →
    ((ops.flatMap ArrayOp.programmed).map Prod.fst).Nodup →
    (∀ b ∈ ops.flatMap ArrayOp.programmed, cells b.1 = 0xFF) → Blank cells ops := by
  intro ops
  induction ops with
  | nil => intro cells _ _ _; trivial
  | cons op ops ih =>
    intro cells hpage hnodup hff
    rw [List.flatMap_cons, List.map_append, List.nodup_append] at hnodup
    obtain ⟨_, hrest, hdisjoint⟩ := hnodup
    rw [List.flatMap_cons] at hff
    refine ⟨fun b hb => hff b (List.mem_append_left _ hb), ?_⟩
    refine ih _ (fun o ho => hpage o (List.mem_cons_of_mem _ ho)) hrest fun b hb => ?_
    rw [apply_of_not_mem (hpage op List.mem_cons_self)]
    · exact hff b (List.mem_append_right _ hb)
    · intro b' hb' he
      exact hdisjoint _ (List.mem_map_of_mem hb') _ (List.mem_map_of_mem hb) he

/-! ## The driver's operations -/

/-- `c'` is `c` after the operations `ops`. -/
structure Replays (c c' : ArrayState) (ops : List ArrayOp) : Prop where
  trace : c'.trace = c.trace ++ ops
  cells : c'.cells = replay c.cells ops

namespace Replays

theorem nil (c : ArrayState) : Replays c c [] := ⟨(List.append_nil _).symm, rfl⟩

theorem run (c : ArrayState) (op : ArrayOp) : Replays c (c.run op) [op] := ⟨rfl, rfl⟩

theorem trans {c c' c'' : ArrayState} {ops ops' : List ArrayOp} (h : Replays c c' ops)
    (h' : Replays c' c'' ops') : Replays c c'' (ops ++ ops') := by
  constructor
  · rw [h'.trace, h.trace, List.append_assoc]
  · rw [h'.cells, h.cells, replay_append]

end Replays

/-- The write after `done` bytes: a turn for each sector so far, in order. -/
structure Turns (addr n done : Nat) (c c' : ArrayState) (turns : List Turn) : Prop where
  replays : Replays c c' (turns.flatMap Turn.ops)
  disciplined : Disciplined addr n c.cells turns
  ordered : (turns.map Turn.sector).Pairwise (· < ·)
  sectors : ∀ sector, sector ∈ turns.map Turn.sector ↔ ∃ k < done, (addr + k) / 4096 = sector

theorem Turns.nil (addr n : Nat) (c : ArrayState) : Turns addr n 0 c c [] := by
  refine ⟨Replays.nil c, trivial, List.Pairwise.nil, fun sector => ?_⟩
  constructor
  · intro h
    exact absurd h List.not_mem_nil
  · intro h
    obtain ⟨k, hk, _⟩ := h
    exact absurd hk (Nat.not_lt_zero k)

theorem Turns.snoc {addr n done m : Nat} {c c' c'' : ArrayState} {turns : List Turn}
    {ops : List ArrayOp} (h : Turns addr n done c c' turns) (hunit : WholeUnit addr n 4096 done m)
    (hops : Replays c' c'' ops)
    (ht : Turn.Disciplined addr n c'.cells ⟨(addr + done) / 4096, ops⟩) :
    Turns addr n (done + m) c c'' (turns ++ [⟨(addr + done) / 4096, ops⟩]) := by
  have hpos := hunit.pos
  have hinside := hunit.inside
  constructor
  · rw [List.flatMap_append, List.flatMap_singleton]
    exact h.replays.trans hops
  · rw [disciplined_append, ← h.replays.cells]
    exact ⟨h.disciplined, ht, trivial⟩
  · rw [List.map_append, List.pairwise_append]
    refine ⟨h.ordered, List.pairwise_singleton _ _, fun s hs s' hs' => ?_⟩
    obtain rfl := List.mem_singleton.mp hs'
    obtain ⟨k, hk, rfl⟩ := (h.sectors s).mp hs
    show (addr + k) / 4096 < (addr + done) / 4096
    rcases hunit.starts with h0 | h0 <;> omega
  · intro sector
    rw [List.map_append, List.mem_append, h.sectors, List.map_singleton, List.mem_singleton]
    constructor
    · intro hs
      rcases hs with hs | rfl
      · obtain ⟨k, hk, he⟩ := hs
        exact ⟨k, by omega, he⟩
      · exact ⟨done, by omega, rfl⟩
    · intro hs
      obtain ⟨k, hk, rfl⟩ := hs
      by_cases hlt : k < done
      · exact Or.inl ⟨k, hlt, rfl⟩
      · right
        show (addr + k) / 4096 = (addr + done) / 4096
        omega

theorem Turns.at_turn {addr n done : Nat} {c c' : ArrayState} {turns before after : List Turn}
    {t : Turn} (h : Turns addr n done c c' turns) (hsplit : turns = before ++ t :: after) :
    t.Disciplined addr n (replay c.cells (before.flatMap Turn.ops)) := by
  have hall := h.disciplined
  rw [hsplit, disciplined_append] at hall
  exact hall.2.1

/-- Nothing has touched a sector before its turn. -/
theorem Turns.untouched {addr n done : Nat} {c c' : ArrayState} {turns before after : List Turn}
    {t : Turn} (h : Turns addr n done c c' turns) (hsplit : turns = before ++ t :: after) {x : Nat}
    (hx : x / 4096 = t.sector) : replay c.cells (before.flatMap Turn.ops) x = c.cells x := by
  have hordered := h.ordered
  rw [hsplit, List.map_append, List.pairwise_append] at hordered
  apply replay_of_within
  intro op hop
  obtain ⟨t', ht', hop'⟩ := List.mem_flatMap.mp hop
  obtain ⟨before', after', rfl⟩ := List.append_of_mem ht'
  have hsplit' : turns = before' ++ t' :: (after' ++ t :: after) := by
    rw [hsplit, List.append_assoc, List.cons_append]
  refine ⟨t'.sector, (h.at_turn hsplit').within op hop', ?_⟩
  have hlt := hordered.2.2 t'.sector (List.mem_map_of_mem ht') t.sector List.mem_cons_self
  omega

section Array

variable (p : Part) {type : UInt16} (hw : p.addrWidth = sentWidth type)

theorem transact_replays (tx : List UInt8) (c : ArrayState) :
    ∃ ops, Replays c (p.slave.transact tx c).2 ops := by
  cases tx with
  | nil => exact ⟨[], Replays.nil c⟩
  | cons cmd rest =>
    simp only [Part.slave, Part.transact]
    split_ifs
    · exact ⟨[], Replays.nil c⟩
    · exact ⟨_, Replays.run c _⟩
    · exact ⟨_, Replays.run c _⟩
    · exact ⟨_, Replays.run c _⟩
    · exact ⟨[], Replays.nil c⟩
    · exact ⟨[], Replays.nil c⟩

theorem writeNoCheck_replays {pBuffer : Ptr} {addr : UInt32} {n : UInt16} {c c' : ArrayState}
    {fuel : Nat} (h : w25qxxWriteNoCheck p.slave type fuel pBuffer addr n c = some c') :
    ∃ ops, Replays c c' ops := by
  apply writeNoCheckLoop_preserves (I := fun s => ∃ ops, Replays c s ops) _ ⟨[], Replays.nil c⟩ h
  intro tx s hs
  obtain ⟨ops, hops⟩ := hs
  obtain ⟨ops', hops'⟩ := transact_replays p tx s
  exact ⟨ops ++ ops', hops.trans hops'⟩

theorem used_iff {addr n done m : Nat} (hin : addr + n ≤ p.size)
    (h : WholeUnit addr n 4096 done m) (cells : Cells) :
    Used cells addr n ((addr + done) / 4096) ↔
      ∃ k < m, cells ((addr + done + k) % p.size) ≠ 0xFF := by
  have hle := h.le
  constructor
  · intro hused
    obtain ⟨k, hk, hsector, hff⟩ := hused
    obtain ⟨hfrom, hto⟩ := (h.mem_iff hk).mp hsector
    refine ⟨k - done, by omega, ?_⟩
    rwa [Nat.mod_eq_of_lt (by omega), show addr + done + (k - done) = addr + k by omega]
  · intro hused
    obtain ⟨k, hk, hff⟩ := hused
    rw [Nat.mod_eq_of_lt (by omega), Nat.add_assoc] at hff
    exact ⟨done + k, by omega, (h.mem_iff (by omega)).mpr ⟨by omega, by omega⟩, hff⟩

/-- The sector of a cell lies inside the array. -/
theorem sector_fits {a : Nat} (ha : a < p.size) : a / 4096 * 4096 + 4096 ≤ p.size := by
  obtain ⟨q, hq⟩ := (unit_dvd p).2
  omega

include hw

/-- Over erased cells of one sector, `W25QXX_Write_NoCheck` has what it asks for. -/
theorem writeNoCheck_blank (pBuffer : Ptr) (addr : UInt32) (n : UInt16) (c : ArrayState)
    (hfit : addr.toNat + n.toNat ≤ p.size) (hsector : addr.toNat % 4096 + n.toNat ≤ 4096)
    (hff : ∀ k < n.toNat, c.cells (addr.toNat + k) = 0xFF) :
    ∃ c' ops, Returns (fun fuel => w25qxxWriteNoCheck p.slave type fuel pBuffer addr n c) c' ∧
      Replays c c' ops ∧ (∀ op ∈ ops, op.Within (addr.toNat / 4096)) ∧
      ops.filterMap ArrayOp.erased = [] ∧ Blank c.cells ops := by
  obtain ⟨c', hreturns, hprograms⟩ := writeNoCheck_programs p hw pBuffer addr n c
  obtain ⟨bound, hbound⟩ := hreturns
  obtain ⟨ops, hops⟩ := writeNoCheck_replays p (hbound bound le_rfl)
  obtain ⟨ops', htrace, hpage, hbytes⟩ := hprograms.trace
  obtain rfl : ops' = ops := List.append_cancel_left (htrace.symm.trans hops.trace)
  have hbytes' : ops'.flatMap ArrayOp.programmed =
      (List.range n.toNat).map fun k => (addr.toNat + k, pBuffer k) := by
    rw [hbytes]
    apply List.map_congr_left
    intro k hk
    rw [Nat.mod_eq_of_lt (by rw [List.mem_range] at hk; omega)]
  have hcell : ∀ b ∈ ops'.flatMap ArrayOp.programmed, ∃ k < n.toNat, b.1 = addr.toNat + k := by
    intro b hb
    rw [hbytes'] at hb
    obtain ⟨k, hk, rfl⟩ := List.mem_map.mp hb
    exact ⟨k, List.mem_range.mp hk, rfl⟩
  refine ⟨c', ops', ⟨bound, hbound⟩, hops, fun op hop => ?_, ?_, ?_⟩
  · refine within_of_inPage (hpage op hop) fun b hb => ?_
    obtain ⟨k, hk, he⟩ := hcell b (List.mem_flatMap.mpr ⟨op, hop, hb⟩)
    rw [he]
    omega
  · exact List.filterMap_eq_nil_iff.mpr fun op hop => erased_of_inPage (hpage op hop)
  · refine blank_of_nodup ops' c.cells hpage ?_ fun b hb => ?_
    · rw [hbytes', List.map_map]
      exact List.nodup_range.map fun i j h => Nat.add_left_cancel h
    · obtain ⟨k, hk, he⟩ := hcell b hb
      rw [he]
      exact hff k hk

/-- A turn at a sector with a programmed cell of the range starts with its erase. -/
theorem writeSector_turn_erases (pBuffer : Ptr) {addr n done : Nat} {m : UInt16} (c : ArrayState)
    (hin : addr + n ≤ p.size) (h : WholeUnit addr n 4096 done m.toNat)
    (hdirty : Used c.cells addr n ((addr + done) / 4096)) :
    ∃ c' ops, Returns (fun fuel => sectorBody p.slave type pBuffer addr fuel done m c) c' ∧
      Replays c c' ops ∧ Turn.Disciplined addr n c.cells ⟨(addr + done) / 4096, ops⟩ := by
  have hle := h.le
  have hpos := h.pos
  have hword : p.size ≤ 2 ^ 32 := Nat.le_of_dvd (by decide) p.size_dvd_word
  obtain ⟨buf, _, hwrite⟩ := writeSector_rewrites p hw (pBuffer.add done) (addr + done) m c
    h.inside ((used_iff p hin h c.cells).mp hdirty)
  have hfits := sector_fits p (a := addr + done) (by omega)
  have hbase : (UInt32.ofNat ((addr + done) / 4096) * 4096).toNat =
      (addr + done) / 4096 * 4096 := by
    rw [UInt32.toNat_mul, UInt32.toNat_ofNat']
    change (addr + done) / 4096 % 2 ^ 32 * 4096 % 2 ^ 32 = _
    omega
  rw [Nat.mod_eq_of_lt (show (addr + done) / 4096 * 4096 < p.size by omega)] at hwrite
  obtain ⟨c', ops, hreturns, hops, hwithin, herased, hblank⟩ := writeNoCheck_blank p hw
    (copyLoop (pBuffer.add done) ((addr + done) % 4096) m.toNat buf)
    (UInt32.ofNat ((addr + done) / 4096) * 4096) 4096
    (c.run (.erase ((addr + done) / 4096 * 4096))) (by rw [hbase]; exact hfits)
    (by rw [hbase, Nat.mul_mod_left]; exact le_rfl)
    (fun k hk => by
      have hk' : k < 4096 := hk
      rw [hbase]
      exact if_pos (by omega))
  rw [hbase, Nat.mul_div_cancel _ (by decide)] at hwithin
  refine ⟨c', .erase ((addr + done) / 4096 * 4096) :: ops, hwrite c' hreturns,
    (Replays.run c _).trans hops, ?_, ?_, ?_⟩
  · intro op hop
    rcases List.mem_cons.mp hop with rfl | hop
    · exact Nat.mul_div_cancel _ (by decide)
    · exact hwithin op hop
  · rw [if_pos hdirty, List.filterMap_cons, herased, ArrayOp.erased,
      Nat.mul_div_cancel _ (by decide)]
  · exact ⟨fun b hb => absurd hb List.not_mem_nil, hblank⟩

/-- A turn at any other sector programs erased cells only. -/
theorem writeSector_turn_programs (pBuffer : Ptr) {addr n done : Nat} {m : UInt16} (c : ArrayState)
    (hin : addr + n ≤ p.size) (h : WholeUnit addr n 4096 done m.toNat)
    (hclean : ¬ Used c.cells addr n ((addr + done) / 4096)) :
    ∃ c' ops, Returns (fun fuel => sectorBody p.slave type pBuffer addr fuel done m c) c' ∧
      Replays c c' ops ∧ Turn.Disciplined addr n c.cells ⟨(addr + done) / 4096, ops⟩ := by
  have hle := h.le
  have hpos := h.pos
  have hword : p.size ≤ 2 ^ 32 := Nat.le_of_dvd (by decide) p.size_dvd_word
  have hblankcells := mt (used_iff p hin h c.cells).mpr hclean
  have haddr : (UInt32.ofNat (addr + done)).toNat = addr + done := by
    rw [UInt32.toNat_ofNat', Nat.mod_eq_of_lt (by omega)]
  obtain ⟨c', ops, hreturns, hops, hwithin, herased, hblank⟩ := writeNoCheck_blank p hw
    (pBuffer.add done) (UInt32.ofNat (addr + done)) m c (by rw [haddr]; omega)
    (by rw [haddr]; exact h.inside)
    (fun k hk => by
      by_contra hff
      rw [haddr] at hff
      exact hblankcells ⟨k, hk, by rwa [Nat.mod_eq_of_lt (by omega)]⟩)
  rw [haddr] at hwithin
  exact ⟨c', ops, writeSector_programs p hw _ _ m c h.inside hblankcells hreturns, hops, hwithin,
    by rw [if_neg hclean, herased], hblank⟩

theorem writeSector_turn (pBuffer : Ptr) {addr n done : Nat} {m : UInt16} (c : ArrayState)
    (hin : addr + n ≤ p.size) (h : WholeUnit addr n 4096 done m.toNat) :
    ∃ c' ops, Returns (fun fuel => sectorBody p.slave type pBuffer addr fuel done m c) c' ∧
      Replays c c' ops ∧ Turn.Disciplined addr n c.cells ⟨(addr + done) / 4096, ops⟩ := by
  by_cases hdirty : Used c.cells addr n ((addr + done) / 4096)
  · exact writeSector_turn_erases p hw pBuffer c hin h hdirty
  · exact writeSector_turn_programs p hw pBuffer c hin h hdirty

theorem write_turns (pBuffer : Ptr) (writeAddr : UInt32) (n : UInt16) (c : ArrayState)
    (hn : 0 < n.toNat) (hin : writeAddr.toNat + n.toNat ≤ p.size) :
    ∃ c' turns, Returns (fun fuel => w25qxxWrite p.slave type fuel pBuffer writeAddr n c) c' ∧
      Turns writeAddr.toNat n.toNat n.toNat c c' turns := by
  obtain ⟨c', hreturns, turns, hturns⟩ := write_returns_units p.slave type
    (P := fun done c' => ∃ turns, Turns writeAddr.toNat n.toNat done c c' turns)
    (s := c) hn (by
      intro done m c₁ hP hunit
      obtain ⟨turns, hturns⟩ := hP
      obtain ⟨c₂, ops, hreturns, hops, ht⟩ := writeSector_turn p hw pBuffer c₁ hin hunit
      exact ⟨c₂, hreturns, _, hturns.snoc hunit hops ht⟩)
    ⟨[], Turns.nil _ _ c⟩
  exact ⟨c', turns, hreturns, hturns⟩

/-- `W25QXX_Write` returns, and its operations are the turns of the sectors that
hold a byte of the range, in order. A turn stays in its sector, which no earlier
turn has touched, and erases it once if it then holds a byte of the range that
is not `0xFF`, else not at all. Every byte is programmed into an erased cell. -/
theorem write_erase_discipline (pBuffer : Ptr) (writeAddr : UInt32) (numByteToWrite : UInt16)
    (c : ArrayState) (hn : 0 < numByteToWrite.toNat)
    (hin : writeAddr.toNat + numByteToWrite.toNat ≤ p.size) :
    ∃ c' turns, Returns (fun fuel =>
        w25qxxWrite p.slave type fuel pBuffer writeAddr numByteToWrite c) c' ∧
      c'.trace = c.trace ++ turns.flatMap Turn.ops ∧
      (turns.map Turn.sector).Pairwise (· < ·) ∧
      (∀ sector, sector ∈ turns.map Turn.sector ↔
        ∃ k < numByteToWrite.toNat, (writeAddr.toNat + k) / 4096 = sector) ∧
      (∀ before t after, turns = before ++ t :: after →
        (∀ op ∈ t.ops, op.Within t.sector) ∧
        (∀ x, x / 4096 = t.sector →
          replay c.cells (before.flatMap Turn.ops) x = c.cells x) ∧
        t.ops.filterMap ArrayOp.erased =
          if Used (replay c.cells (before.flatMap Turn.ops)) writeAddr.toNat
            numByteToWrite.toNat t.sector then [t.sector] else []) ∧
      ((turns.flatMap Turn.ops).filterMap ArrayOp.erased).Nodup ∧
      ∀ before op after, turns.flatMap Turn.ops = before ++ op :: after →
        ∀ b ∈ op.programmed, replay c.cells before b.1 = 0xFF := by
  obtain ⟨c', turns, hreturns, hturns⟩ := write_turns p hw pBuffer writeAddr numByteToWrite c hn hin
  refine ⟨c', turns, hreturns, hturns.replays.trace, hturns.ordered, hturns.sectors, ?_, ?_, ?_⟩
  · intro before t after hsplit
    have ht := hturns.at_turn hsplit
    exact ⟨ht.within, fun x hx => hturns.untouched hsplit hx, ht.erases⟩
  · exact hturns.ordered.imp (fun h => Nat.ne_of_lt h) |>.sublist
      (hturns.disciplined.erased_sublist _ _)
  · intro before op after hsplit
    have hblank := Disciplined.blank _ _ hturns.disciplined
    rw [hsplit, blank_append] at hblank
    exact hblank.2.1

end Array

/-- Four bytes over a sector boundary of a `W25Q128` whose only programmed cell is
the last one of the first sector. -/
theorem write_erase_discipline_w25q128 :
    ∃ c' turns, Returns (fun fuel => w25qxxWrite w25q128Part.slave w25q128 fuel
        (fun k => UInt8.ofNat k) 0xFFE 4 ⟨fun x => if x = 0xFFF then 0 else 0xFF, []⟩) c' ∧
      c'.trace = [] ++ turns.flatMap Turn.ops ∧
      (turns.map Turn.sector).Pairwise (· < ·) ∧
      (∀ sector, sector ∈ turns.map Turn.sector ↔ ∃ k < 4, (0xFFE + k) / 4096 = sector) ∧
      (∀ before t after, turns = before ++ t :: after →
        (∀ op ∈ t.ops, op.Within t.sector) ∧
        (∀ x, x / 4096 = t.sector →
          replay (fun x => if x = 0xFFF then 0 else 0xFF) (before.flatMap Turn.ops) x =
            if x = 0xFFF then 0 else 0xFF) ∧
        t.ops.filterMap ArrayOp.erased =
          if Used (replay (fun x => if x = 0xFFF then 0 else 0xFF) (before.flatMap Turn.ops))
            0xFFE 4 t.sector then [t.sector] else []) ∧
      ((turns.flatMap Turn.ops).filterMap ArrayOp.erased).Nodup ∧
      ∀ before op after, turns.flatMap Turn.ops = before ++ op :: after →
        ∀ b ∈ op.programmed,
          replay (fun x => if x = 0xFFF then 0 else 0xFF) before b.1 = 0xFF :=
  write_erase_discipline w25q128Part rfl (fun k => UInt8.ofNat k) 0xFFE 4
    ⟨fun x => if x = 0xFFF then 0 else 0xFF, []⟩ (by decide) (by decide)

end StmGateway.Flash.Discipline
