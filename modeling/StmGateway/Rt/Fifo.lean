import StmGateway.Rt.Ipc

/-!
# A mailbox is a bounded queue

Each stretch of a call takes effect at once, as an operation of a queue that holds
at most as many mails as the mailbox has room for: a call that returns `RT_EOK`
has put its mail at the back or taken the one at the front, one that is refused or
waits found the queue full or empty, and a call that returns with the error of its
thread has done nothing.
-/
namespace StmGateway.Rt.Fifo

open StmGateway.Lib
open StmGateway.Rt.Thread
open StmGateway.Rt.Clock (Clocked)
open StmGateway.Rt.Ipc
open StmGateway.Rt.ReadyQueue (bind_ok)

/-- The mails in the pool, the oldest first. -/
def mails {τ : Type} (mb : Mailbox τ) : List UInt32 :=
  Ring.contents mb.msgPool mb.size.toNat mb.outOffset.toNat mb.entry.toNat

/-- A queue, and what each thread that waits to send has to put there. -/
structure Queue (τ : Type) where
  mails : List UInt32
  pending : τ → Option UInt32

/-- The mail that the event may put into the queue. -/
def Queue.offer {τ : Type} (q : Queue τ) : Event τ → Option UInt32
  | .send _ value _ | .post value => some value
  | .proceed t => q.pending t
  | .recv _ _ | .reset | .kernel _ => none

/-- With room for `n` mails; `none` where the queue would have done otherwise. -/
def effect (n : Nat) (mails : List UInt32) (offer : Option UInt32) : Outcome → Option (List UInt32)
  | .sent value => if offer = some value ∧ mails.length < n then some (mails ++ [value]) else none
  | .received value => if mails.head? = some value then some mails.tail else none
  | .full | .waitsToSend => if mails.length = n then some mails else none
  | .empty | .waitsToReceive => if mails = [] then some mails else none
  | .failed _ | .none => some mails

variable {τ : Type}

def Queue.mailsAfter (n : Nat) (q : Queue τ) (l : Event τ × Outcome) : Option (List UInt32) :=
  match l.1 with
  | .reset => some []
  | _ => effect n q.mails (q.offer l.1) l.2

/-- What the threads wait to put after a stretch of a call of `t`. -/
def Queue.waits [DecidableEq τ] (q : Queue τ) (t : τ) (offer : Option UInt32) :
    Outcome → τ → Option UInt32
  | .none => q.pending
  | .waitsToSend => Function.update q.pending t offer
  | _ => Function.update q.pending t none

def Queue.pendingAfter [DecidableEq τ] (q : Queue τ) (l : Event τ × Outcome) :
    τ → Option UInt32 :=
  match l.1 with
  | .send t _ _ | .recv t _ | .proceed t => q.waits t (q.offer l.1) l.2
  | .kernel (.control t .close) => Function.update q.pending t none
  | .post _ | .reset | .kernel _ => q.pending

def Queue.next [DecidableEq τ] (n : Nat) (q : Queue τ) (l : Event τ × Outcome) :
    Option (Queue τ) := do
  let mails ← q.mailsAfter n l
  return { mails, pending := q.pendingAfter l }

/-- The offsets of the pool. -/
structure InPool (mb : Mailbox τ) : Prop where
  entry_le : mb.entry ≤ mb.size
  outOffset_lt : 0 < mb.size → mb.outOffset < mb.size
  inOffset : 0 < mb.size →
    mb.inOffset.toNat = (mb.outOffset.toNat + mb.entry.toNat) % mb.size.toNat

/-- The threads that wait left out. -/
def pool (mb : Mailbox τ) : (Nat → UInt32) × UInt16 × UInt16 × UInt16 × UInt16 × UInt8 :=
  (mb.msgPool, mb.size, mb.entry, mb.inOffset, mb.outOffset, mb.flag)

section Pool

variable {mb mb' : Mailbox τ}

theorem mails_congr (h : pool mb' = pool mb) : mails mb' = mails mb := by
  simp only [pool, Prod.mk.injEq] at h
  simp only [mails, h]

theorem InPool.congr (h : pool mb' = pool mb) (hmb : InPool mb) : InPool mb' := by
  simp only [pool, Prod.mk.injEq] at h
  obtain ⟨-, hsize, hentry, hin, hout, -⟩ := h
  exact ⟨by rw [hsize, hentry]; exact hmb.entry_le, by rw [hsize, hout]; exact hmb.outOffset_lt,
    by rw [hsize, hout, hentry, hin]; exact hmb.inOffset⟩

theorem length_mails : (mails mb).length = mb.entry.toNat := by simp [mails]

/-- One offset on, around the end of the pool. -/
theorem succ_offset {offset size : UInt16} (h : offset < size) :
    (if offset + 1 ≥ size then 0 else offset + 1).toNat = (offset.toNat + 1) % size.toNat := by
  have hsize := size.toNat_lt
  have hlt : offset.toNat < size.toNat := h
  have hadd : (offset + 1).toNat = offset.toNat + 1 := by
    rw [UInt16.toNat_add]
    simp only [UInt16.toNat_one]
    omega
  by_cases hend : offset + 1 ≥ size
  · have hle : size.toNat ≤ (offset + 1).toNat := hend
    rw [if_pos hend, show offset.toNat + 1 = size.toNat by omega, Nat.mod_self]
    rfl
  · have hlt' : (offset + 1).toNat < size.toNat := not_le.mp hend
    rw [if_neg hend, hadd, Nat.mod_eq_of_lt (hadd ▸ hlt')]

end Pool

section Frames

@[simp] theorem pool_withClock (s : System τ) (clock : Clocked τ) :
    pool (s.withClock clock).mb = pool s.mb := rfl

@[simp] theorem pool_setWaiting (mb : Mailbox τ) (l : List τ) (list : Waiters) :
    pool (mb.setWaiting l list) = pool mb := by
  cases list <;> rfl

/-- Nothing but the clock and the lists of threads that wait. -/
structure Waits (s s' : System τ) : Prop where
  pool : pool s'.mb = pool s.mb
  call : s'.call = s.call

theorem Waits.trans {s s₁ s' : System τ} (h : Waits s s₁) (h' : Waits s₁ s') : Waits s s' :=
  ⟨h'.pool.trans h.pool, h'.call.trans h.call⟩

variable [DecidableEq τ] {s s' : System τ} {t : τ} {list : Waiters}

theorem startTimer_waits {timeout : Int32} (h : s.startTimer t timeout = .ok s') :
    Waits s s' := by
  obtain ⟨⟨_, k⟩, -, h⟩ := bind_ok h
  obtain ⟨⟨_, clock⟩, -, h⟩ := bind_ok h
  cases h
  exact ⟨rfl, rfl⟩

theorem listSuspend_waits {flag : UInt8} (h : s.rtIpcListSuspend list t flag = .ok s') :
    Waits s s' := by
  obtain ⟨⟨_, clock⟩, -, h⟩ := bind_ok h
  cases h
  exact ⟨by rw [pool_setWaiting, pool_withClock], rfl⟩

theorem listResume_waits (h : s.rtIpcListResume list = .ok s') : Waits s s' := by
  rw [System.rtIpcListResume] at h
  split at h
  · cases h
    exact ⟨rfl, rfl⟩
  · obtain ⟨⟨_, clock⟩, -, h⟩ := bind_ok h
    cases h
    exact ⟨rfl, rfl⟩

theorem resumeEach_waits {l : List τ} (h : s.resumeEach l = .ok s') : Waits s s' := by
  induction l generalizing s with
  | nil =>
    cases h
    exact ⟨rfl, rfl⟩
  | cons t rest ih =>
    obtain ⟨⟨_, clock⟩, -, h⟩ := bind_ok h
    obtain ⟨hpool, hcall⟩ := ih (s := (s.setError t (-rtError)).withClock clock) h
    exact ⟨hpool, hcall⟩

theorem suspendCurrent_waits {timeout : Int32} (h : s.suspendCurrent list t timeout = .ok s') :
    Waits s s' := by
  obtain ⟨s₁, hsuspend, h⟩ := bind_ok h
  have hwaits := listSuspend_waits hsuspend
  split at h
  · exact hwaits.trans (startTimer_waits h)
  · cases h
    exact hwaits

end Frames

section Mails

variable {mb : Mailbox τ}

/-- The pool with one more mail. -/
def putMail (mb : Mailbox τ) (value : UInt32) : Mailbox τ :=
  { mb with
    msgPool := Function.update mb.msgPool mb.inOffset.toNat value
    inOffset := if mb.inOffset + 1 ≥ mb.size then 0 else mb.inOffset + 1
    entry := mb.entry + 1 }

/-- The pool with one mail less. -/
def takeMail (mb : Mailbox τ) : Mailbox τ :=
  { mb with
    outOffset := if mb.outOffset + 1 ≥ mb.size then 0 else mb.outOffset + 1
    entry := mb.entry - 1 }

/-- The mail goes to the back. -/
theorem putMail_mails (h : InPool mb) (hroom : mb.entry < mb.size) (value : UInt32) :
    InPool (putMail mb value) ∧ mails (putMail mb value) = mails mb ++ [value] := by
  have hlt : mb.entry.toNat < mb.size.toNat := hroom
  have hsize := mb.size.toNat_lt
  have hpos : 0 < mb.size := lt_of_le_of_lt (Nat.zero_le _) hlt
  have hentry : (mb.entry + 1).toNat = mb.entry.toNat + 1 := by
    rw [UInt16.toNat_add]
    simp only [UInt16.toNat_one]
    omega
  have hin := h.inOffset hpos
  have hinOffset : mb.inOffset < mb.size := by
    rw [UInt16.lt_iff_toNat_lt, hin]
    exact Nat.mod_lt _ hpos
  have hnext := succ_offset hinOffset
  refine ⟨⟨?_, h.outOffset_lt, fun _ => ?_⟩, ?_⟩
  · rw [UInt16.le_iff_toNat_le, putMail, hentry]
    exact hlt
  · rw [putMail, hnext, hin, hentry, Nat.mod_add_mod]
    rfl
  · rw [mails, putMail, hentry, hin]
    exact Ring.contents_put hlt value

/-- The mail comes from the front. -/
theorem takeMail_mails (h : InPool mb) (hsome : 0 < mb.entry) :
    InPool (takeMail mb) ∧ mails mb = mb.msgPool mb.outOffset.toNat :: mails (takeMail mb) := by
  have hpos : 0 < mb.entry.toNat := hsome
  have hle : mb.entry.toNat ≤ mb.size.toNat := h.entry_le
  have hsize : 0 < mb.size := hpos.trans_le hle
  have hout : mb.outOffset.toNat < mb.size.toNat := h.outOffset_lt hsize
  have hentry : (mb.entry - 1).toNat = mb.entry.toNat - 1 :=
    UInt16.toNat_sub_of_le _ _ (Nat.succ_le_of_lt hpos)
  have hnext := succ_offset (h.outOffset_lt hsize)
  refine ⟨⟨?_, fun _ => ?_, fun _ => ?_⟩, ?_⟩
  · rw [UInt16.le_iff_toNat_le, takeMail, hentry]
    exact (Nat.sub_le _ _).trans hle
  · rw [UInt16.lt_iff_toNat_lt, takeMail, hnext]
    exact Nat.mod_lt _ (hpos.trans_le hle)
  · rw [takeMail, hnext, hentry, h.inOffset hsize, Nat.mod_add_mod]
    exact congrArg (· % mb.size.toNat) (by omega)
  · rw [mails, mails, takeMail, hnext, hentry, ← Ring.contents_take hout]
    exact congrArg _ (Nat.sub_add_cancel hpos).symm

end Mails

section Calls

variable {s s' : System τ} {o : Outcome} {offer : Option UInt32}

/-- What a stretch of a call does to the pool, with its outcome. -/
structure Effect (s : System τ) (offer : Option UInt32) (o : Outcome) (s' : System τ) : Prop where
  inPool : InPool s'.mb
  size : s'.mb.size = s.mb.size
  mails : effect s.mb.size.toNat (mails s.mb) offer o = some (mails s'.mb)

theorem Effect.same (h : InPool s.mb) (hpool : pool s'.mb = pool s.mb)
    (ho : effect s.mb.size.toNat (Fifo.mails s.mb) offer o = some (Fifo.mails s.mb)) :
    Effect s offer o s' :=
  ⟨h.congr hpool, congrArg (fun p => p.2.1) hpool, by rw [ho, mails_congr hpool]⟩

theorem effect_full (h : s.mb.entry = s.mb.size) (ho : o = .full ∨ o = .waitsToSend) :
    effect s.mb.size.toNat (mails s.mb) offer o = some (mails s.mb) := by
  rcases ho with rfl | rfl <;> exact if_pos (by rw [length_mails, h])

theorem effect_empty (h : s.mb.entry = 0) (ho : o = .empty ∨ o = .waitsToReceive) :
    effect s.mb.size.toNat (mails s.mb) offer o = some (mails s.mb) := by
  have hnil : mails s.mb = [] := by rw [← List.length_eq_zero_iff, length_mails, h]; rfl
  rcases ho with rfl | rfl <;> exact if_pos hnil

variable [DecidableEq τ] {t : τ} {value : UInt32} {timeout : Int32}

/-- With room in the pool the counter cannot be at its limit. -/
theorem put_cases (hroom : s.mb.entry < s.mb.size) (hput : s.put value = .ok (s', o)) :
    { s with mb := putMail s.mb value }.rtIpcListResume .receivers = .ok s' ∧ o = .sent value := by
  have hmax : s.mb.entry < rtMbEntryMax := by
    have hnat : s.mb.entry.toNat < s.mb.size.toNat := hroom
    have hsize := s.mb.size.toNat_lt
    rw [UInt16.lt_iff_toNat_lt, show rtMbEntryMax.toNat = 65535 from rfl]
    omega
  rw [System.put] at hput
  simp only [if_pos hmax] at hput
  obtain ⟨s₁, hresume, hput⟩ := bind_ok hput
  cases hput
  exact ⟨hresume, rfl⟩

theorem take_cases (hsome : 0 < s.mb.entry) (htake : s.take = .ok (s', o)) :
    { s with mb := takeMail s.mb }.rtIpcListResume .senders = .ok s' ∧
      o = .received (s.mb.msgPool s.mb.outOffset.toNat) := by
  rw [System.take] at htake
  simp only [if_pos (show s.mb.entry > 0 from hsome)] at htake
  obtain ⟨s₁, hresume, htake⟩ := bind_ok htake
  cases htake
  exact ⟨hresume, rfl⟩

theorem put_effect (h : InPool s.mb) (hroom : s.mb.entry ≠ s.mb.size)
    (hput : s.put value = .ok (s', o)) :
    Effect s (some value) o s' ∧ o = .sent value ∧ s'.call = s.call := by
  have hlt : s.mb.entry < s.mb.size := UInt16.lt_of_le_of_ne h.entry_le hroom
  obtain ⟨hresume, rfl⟩ := put_cases hlt hput
  obtain ⟨hpool, hcall⟩ := listResume_waits hresume
  obtain ⟨hin, hmails⟩ := putMail_mails h hlt value
  refine ⟨⟨hin.congr hpool, congrArg (fun p => p.2.1) hpool, ?_⟩, rfl, hcall⟩
  rw [mails_congr hpool, hmails]
  exact if_pos ⟨rfl, by rw [length_mails]; exact hlt⟩

theorem take_effect (h : InPool s.mb) (hsome : s.mb.entry ≠ 0) (htake : s.take = .ok (s', o)) :
    Effect s offer o s' ∧ (∃ value, o = .received value) ∧ s'.call = s.call := by
  have hpos : 0 < s.mb.entry := UInt16.pos_iff_ne_zero.mpr hsome
  obtain ⟨hresume, rfl⟩ := take_cases hpos htake
  obtain ⟨hpool, hcall⟩ := listResume_waits hresume
  obtain ⟨hin, hmails⟩ := takeMail_mails h hpos
  refine ⟨⟨hin.congr hpool, congrArg (fun p => p.2.1) hpool, ?_⟩, ⟨_, rfl⟩, hcall⟩
  rw [mails_congr hpool, hmails]
  exact if_pos rfl

/-- The mail a call that waits will put. -/
def offered : Call → Option UInt32
  | .sending value _ _ => some value
  | .idle | .receiving _ _ => none

theorem sendLoop_effect (h : InPool s.mb) (hloop : s.sendLoop t value timeout = .ok (s', o)) :
    Effect s (some value) o s' ∧ ∃ call, s'.call = Function.update s.call t call ∧
      ∀ q : Queue τ, q.waits t (some value) o = Function.update q.pending t (offered call) := by
  rcases sendLoop_cases hloop with
    ⟨hfull, rfl, rfl⟩ | ⟨hfull, -, s₁, hs₁, rfl, rfl⟩ | ⟨hroom, hput⟩
  · exact ⟨.same h rfl (effect_full hfull (.inl rfl)), .idle, rfl, fun _ => rfl⟩
  · obtain ⟨hpool, hcall⟩ := suspendCurrent_waits hs₁
    refine ⟨.same h hpool (effect_full hfull (.inr rfl)), .sending value timeout s₁.clock.tick, ?_,
      fun _ => rfl⟩
    rw [System.setCall, hcall]
    rfl
  · obtain ⟨⟨hin, hsize, hmails⟩, rfl, hcall⟩ := put_effect (s := s.setCall t .idle) h hroom hput
    exact ⟨⟨hin, hsize, hmails⟩, .idle, hcall, fun _ => rfl⟩

theorem recvLoop_effect (h : InPool s.mb) (hloop : s.recvLoop t timeout = .ok (s', o)) :
    Effect s offer o s' ∧ ∃ call, s'.call = Function.update s.call t call ∧
      ∀ q : Queue τ, q.waits t offer o = Function.update q.pending t (offered call) := by
  rcases recvLoop_cases hloop with
    ⟨hempty, rfl, rfl⟩ | ⟨hempty, -, s₁, hs₁, rfl, rfl⟩ | ⟨hsome, htake⟩
  · exact ⟨.same h rfl (effect_empty hempty (.inl rfl)), .idle, rfl, fun _ => rfl⟩
  · obtain ⟨hpool, hcall⟩ := suspendCurrent_waits hs₁
    refine ⟨.same h hpool (effect_empty hempty (.inr rfl)), .receiving timeout s₁.clock.tick, ?_,
      fun _ => rfl⟩
    rw [System.setCall, hcall]
    rfl
  · have htaken : Effect (s.setCall t .idle) offer o s' ∧ (∃ value, o = .received value) ∧
        s'.call = (s.setCall t .idle).call := take_effect h hsome htake
    obtain ⟨⟨hin, hsize, hmails⟩, ⟨value, rfl⟩, hcall⟩ := htaken
    exact ⟨⟨hin, hsize, hmails⟩, .idle, hcall, fun _ => rfl⟩

end Calls

section Runs

variable {s₀ s s' : System τ} {n : Nat} {q : Queue τ} {l : Event τ × Outcome}
  {labels : List (Event τ × Outcome)}

/-- The mailbox holds the mails of the queue, and every thread the mail it waits with. -/
structure Holds (n : Nat) (s : System τ) (q : Queue τ) : Prop where
  inPool : InPool s.mb
  size : s.mb.size.toNat = n
  mails : q.mails = mails s.mb
  pending : ∀ t, q.pending t = offered (s.call t)

theorem init_holds {msgPool : Nat → UInt32} {size : UInt32} {flag : UInt8}
    (hmb : s₀.mb = rtMbInit msgPool size flag) (hidle : ∀ t, s₀.call t = .idle) :
    Holds size.toUInt16.toNat s₀ ⟨[], fun _ => none⟩ := by
  refine ⟨⟨?_, fun h => ?_, fun _ => ?_⟩, by rw [hmb]; rfl, by rw [hmb]; rfl, fun t => ?_⟩
  · rw [hmb]
    exact Nat.zero_le _
  · rw [hmb] at h ⊢
    exact h
  · rw [hmb]
    exact (Nat.zero_mod _).symm
  · rw [hidle]
    rfl

/-- The mail that went in with a stretch. -/
def accepted (l : Event τ × Outcome) : List UInt32 :=
  match l.2 with
  | .sent value => [value]
  | _ => []

/-- The mail that came out with a stretch. -/
def delivered (l : Event τ × Outcome) : List UInt32 :=
  match l.2 with
  | .received value => [value]
  | _ => []

theorem effect_conserves {mails mails' : List UInt32} {offer : Option UInt32}
    (h : effect n mails offer l.2 = some mails') :
    mails ++ accepted l = delivered l ++ mails' := by
  rw [accepted, delivered]
  generalize l.2 = o at h
  cases o with
  | sent value =>
    obtain ⟨-, h⟩ := Option.ite_none_right_eq_some.mp h
    cases h
    rfl
  | received value =>
    obtain ⟨hhead, h⟩ := Option.ite_none_right_eq_some.mp h
    cases h
    simpa using (List.cons_head?_tail hhead).symm
  | full | waitsToSend | empty | waitsToReceive =>
    obtain ⟨-, h⟩ := Option.ite_none_right_eq_some.mp h
    cases h
    exact List.append_nil _
  | failed | none =>
    cases h
    exact List.append_nil _

variable [DecidableEq τ]

/-- A stretch with an effect on the queue is followed by the queue. -/
theorem Holds.effect (h : Holds n s q)
    (hl : q.mailsAfter n l = Fifo.effect n q.mails (q.offer l.1) l.2)
    (heffect : Effect s (q.offer l.1) l.2 s')
    (hpending : ∀ t, q.pendingAfter l t = offered (s'.call t)) :
    ∃ q', q.next n l = some q' ∧ Holds n s' q' := by
  refine ⟨⟨Fifo.mails s'.mb, q.pendingAfter l⟩, ?_, heffect.inPool,
    (congrArg UInt16.toNat heffect.size).trans h.size, rfl, hpending⟩
  have hmails : q.mailsAfter n l = some (Fifo.mails s'.mb) := by
    rw [hl, ← heffect.mails, h.size, ← h.mails]
  rw [Queue.next, hmails]
  rfl

/-- One that leaves the system as it is. -/
theorem Holds.still (h : Holds n s q)
    (hl : q.mailsAfter n l = Fifo.effect n q.mails (q.offer l.1) l.2) (ho : l.2 = .none)
    (hpending : q.pendingAfter l = q.pending) :
    ∃ q', q.next n l = some q' ∧ Holds n s q' := by
  refine h.effect hl ?_ fun t => hpending ▸ h.pending t
  rw [ho]
  exact .same h.inPool rfl rfl

theorem Holds.setCall (h : Holds n s q) {t : τ} {c : Call}
    (hcall : s'.call = Function.update s.call t c)
    (hwaits : q.pendingAfter l = Function.update q.pending t (offered c)) (t' : τ) :
    q.pendingAfter l t' = offered (s'.call t') := by
  rw [hwaits, hcall]
  by_cases ht : t' = t
  · subst ht
    rw [Function.update_self, Function.update_self]
  · rw [Function.update_of_ne ht, Function.update_of_ne ht, h.pending]

/-- A call refused at once: the thread was in none, and is in none. -/
theorem Holds.refused (h : Holds n s q) {t : τ} (hidle : s.call t = .idle)
    (hwaits : q.pendingAfter l = Function.update q.pending t (offered .idle)) (t' : τ) :
    q.pendingAfter l t' = offered (s.call t') :=
  h.setCall (by rw [Function.update_eq_self_iff.mpr hidle.symm]) hwaits t'

theorem send_holds (h : Holds n s q) {t : τ} {value : UInt32} {timeout : Int32} {o : Outcome}
    (hstep : Step s (.send t value timeout, o) s') :
    ∃ q', q.next n (.send t value timeout, o) = some q' ∧ Holds n s' q' := by
  rcases step_send hstep with ⟨rfl, rfl | ⟨hidle, hfull, rfl⟩⟩ | ⟨-, -, hloop⟩
  · exact h.still rfl rfl rfl
  · exact h.effect rfl (.same h.inPool rfl (effect_full hfull (.inl rfl))) (h.refused hidle rfl)
  · obtain ⟨heffect, call, hcall, hwaits⟩ := sendLoop_effect h.inPool hloop
    exact h.effect rfl heffect (h.setCall hcall (hwaits q))

theorem recv_holds (h : Holds n s q) {t : τ} {timeout : Int32} {o : Outcome}
    (hstep : Step s (.recv t timeout, o) s') :
    ∃ q', q.next n (.recv t timeout, o) = some q' ∧ Holds n s' q' := by
  rcases step_recv hstep with ⟨rfl, rfl | ⟨hidle, hempty, rfl⟩⟩ | ⟨-, -, hloop⟩
  · exact h.still rfl rfl rfl
  · exact h.effect rfl (.same h.inPool rfl (effect_empty hempty (.inl rfl))) (h.refused hidle rfl)
  · obtain ⟨heffect, call, hcall, hwaits⟩ := recvLoop_effect h.inPool hloop
    exact h.effect rfl heffect (h.setCall hcall (hwaits q))

theorem proceed_holds (h : Holds n s q) {t : τ} {o : Outcome}
    (hstep : Step s (.proceed t, o) s') :
    ∃ q', q.next n (.proceed t, o) = some q' ∧ Holds n s' q' := by
  rcases step_proceed hstep with ⟨rfl, rfl⟩ |
    ⟨-, ⟨rfl, rfl, -⟩ | ⟨value, timeout, tickDelta, hsending, hloop⟩ | ⟨timeout, tickDelta, -, hloop⟩⟩
  · exact h.still rfl rfl rfl
  · exact h.effect rfl (.same h.inPool rfl rfl) (h.setCall (c := .idle) rfl rfl)
  · obtain ⟨heffect, call, hcall, hwaits⟩ := sendLoop_effect h.inPool hloop
    have hoffer : q.offer (.proceed t) = some value := by
      rw [Queue.offer, h.pending, hsending]
      rfl
    refine h.effect rfl (hoffer ▸ heffect) (h.setCall hcall ?_)
    rw [← hwaits q, ← hoffer]
    rfl
  · obtain ⟨heffect, call, hcall, hwaits⟩ := recvLoop_effect h.inPool hloop
    exact h.effect rfl heffect (h.setCall hcall (hwaits q))

theorem reset_holds (h : Holds n s q) {o : Outcome} (hstep : Step s (.reset, o) s') :
    ∃ q', q.next n (.reset, o) = some q' ∧ Holds n s' q' := by
  obtain ⟨rfl, s₁, s₂, hs₁, hs₂, rfl⟩ := step_reset hstep
  obtain ⟨hpool, hcall⟩ := (resumeEach_waits hs₁).trans (resumeEach_waits hs₂)
  have hsize : s₂.mb.size = s.mb.size := congrArg (fun p => p.2.1) hpool
  refine ⟨{ q with mails := [] }, rfl, ⟨Nat.zero_le _, fun h => h, fun _ => ?_⟩,
    (congrArg UInt16.toNat hsize).trans h.size, rfl, fun t => ?_⟩
  · exact (Nat.zero_mod _).symm
  · rw [h.pending, hcall]

/-- The kernel takes a thread out of its call, or leaves the mailbox as it is. -/
theorem kernel_holds (h : Holds n s q) {e : Clock.Event τ} {o : Outcome}
    (hstep : Step s (.kernel e, o) s') :
    ∃ q', q.next n (.kernel e, o) = some q' ∧ Holds n s' q' := by
  obtain ⟨rfl, ⟨t, tick, rfl, rfl⟩ | ⟨-, clock, -, rfl⟩⟩ := step_kernel hstep
  · exact h.still rfl rfl rfl
  · cases e with
    | control t cmd =>
      cases cmd with
      | startup => exact h.effect rfl (.same h.inPool rfl rfl) h.pending
      | close => exact h.effect rfl (.same h.inPool rfl rfl) (h.setCall (c := .idle) rfl rfl)
    | init | changePriority | suspend | resume | sleep | elapse =>
      exact h.effect rfl (.same h.inPool rfl rfl) h.pending

theorem step_holds (h : Holds n s q) (hstep : Step s l s') :
    ∃ q', q.next n l = some q' ∧ Holds n s' q' := by
  obtain ⟨e, o⟩ := l
  cases e with
  | send t value timeout => exact send_holds h hstep
  | recv t timeout => exact recv_holds h hstep
  | proceed t => exact proceed_holds h hstep
  | post value =>
    rcases step_post hstep with ⟨rfl, hfull, rfl⟩ | ⟨hroom, hput⟩
    · exact h.effect rfl (.same h.inPool rfl (effect_full hfull (.inl rfl))) h.pending
    · obtain ⟨heffect, -, hcall⟩ := put_effect h.inPool hroom hput
      exact h.effect rfl heffect fun t => by rw [hcall, ← h.pending]; rfl
  | reset => exact reset_holds h hstep
  | kernel e =>
    exact kernel_holds h hstep

/-- Without a reset what goes in comes out, in the same order. -/
theorem next_conserves {q' : Queue τ} (hl : ∀ l ∈ labels, l.1 ≠ .reset)
    (h : labels.foldlM (Queue.next n) q = some q') :
    q.mails ++ labels.flatMap accepted = labels.flatMap delivered ++ q'.mails := by
  induction labels generalizing q with
  | nil =>
    cases h
    exact List.append_nil _
  | cons l labels ih =>
    obtain ⟨q₁, hnext, h⟩ := Option.bind_eq_some_iff.mp h
    obtain ⟨mails', hmails, hq₁⟩ := Option.bind_eq_some_iff.mp hnext
    cases hq₁
    have hrest := ih (fun l hl' => hl l (List.mem_cons_of_mem _ hl')) h
    have heffect : effect n q.mails (q.offer l.1) l.2 = some mails' := by
      rw [← hmails, Queue.mailsAfter]
      cases he : l.1 with
      | reset => exact absurd he (hl l List.mem_cons_self)
      | send | recv | proceed | post | kernel => rfl
    calc q.mails ++ (l :: labels).flatMap accepted
      _ = delivered l ++ mails' ++ labels.flatMap accepted := by
        rw [List.flatMap_cons, ← List.append_assoc, effect_conserves heffect]
      _ = delivered l ++ (labels.flatMap delivered ++ q'.mails) := by
        rw [List.append_assoc, hrest]
      _ = (l :: labels).flatMap delivered ++ q'.mails := by
        rw [List.flatMap_cons, List.append_assoc]

/-- The mailbox is a queue of at most `size` mails: in every run the outcome of
each stretch is the queue's, every sender puts the mail it was called with, and the
pool holds the mails of the queue. As long as there is no reset, what has gone in
has come out in the same order, or is still there. -/
theorem run_fifo {msgPool : Nat → UInt32} {size : UInt32} {flag : UInt8}
    (hmb : s₀.mb = rtMbInit msgPool size flag) (hidle : ∀ t, s₀.call t = .idle)
    (hrun : Runs Step s₀ labels s) :
    (∃ q, labels.foldlM (Queue.next size.toUInt16.toNat) ⟨[], fun _ => none⟩ = some q ∧
      q.mails = mails s.mb ∧ ∀ t, q.pending t = offered (s.call t)) ∧
    (mails s.mb).length ≤ size.toUInt16.toNat ∧
    ((∀ l ∈ labels, l.1 ≠ .reset) →
      labels.flatMap accepted = labels.flatMap delivered ++ mails s.mb) := by
  have hfollow : ∃ q, labels.foldlM (Queue.next size.toUInt16.toNat) ⟨[], fun _ => none⟩ = some q ∧
      Holds size.toUInt16.toNat s q :=
    hrun.follow (init_holds hmb hidle) fun _ _ _ _ h hstep => step_holds h hstep
  obtain ⟨q, hq, hs⟩ := hfollow
  refine ⟨⟨q, hq, hs.mails, hs.pending⟩, ?_, fun hreset => ?_⟩
  · rw [length_mails, ← hs.size]
    exact hs.inPool.entry_le
  · rw [← hs.mails]
    exact next_conserves hreset hq

end Runs

/-- A mail for a thread that waits for it. -/
theorem run_fifo_handover : ∃ s : System Nat,
    Runs Step ⟨Alarms.reset, rtMbInit (fun _ => 0) 4 rtIpcFlagFifo, fun _ => .idle⟩
      [(.kernel (.init 0 "ec20" 22 20), .none), (.kernel (.control 0 .startup), .none),
        (.recv 0 (-1), .waitsToReceive), (.post 7, .sent 7), (.proceed 0, .received 7)] s ∧
      mails s.mb = [] := by
  have hrun : ∃ s : System Nat,
      Runs Step ⟨Alarms.reset, rtMbInit (fun _ => 0) 4 rtIpcFlagFifo, fun _ => .idle⟩
        [(.kernel (.init 0 "ec20" 22 20), .none), (.kernel (.control 0 .startup), .none),
          (.recv 0 (-1), .waitsToReceive), (.post 7, .sent 7), (.proceed 0, .received 7)] s :=
    ⟨_, .cons rfl (.cons rfl (.cons rfl (.cons rfl (.cons rfl .init))))⟩
  obtain ⟨s, hrun⟩ := hrun
  have hconserved : [7] = [7] ++ mails s.mb := (run_fifo rfl (fun _ => rfl) hrun).2.2 (by simp)
  exact ⟨s, hrun, (List.append_right_eq_self.mp hconserved.symm)⟩

end StmGateway.Rt.Fifo
