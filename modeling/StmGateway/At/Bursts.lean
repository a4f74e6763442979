import StmGateway.At.Delivery
import StmGateway.At.Statements

/-!
# Answers in several bursts

Two runs of a getter that differ in how the same answer is split into bursts,
and in when the polls fall, agree as long as no poll takes a finished frame that
holds some of the parameters and not yet the "OK", and no byte arrives inside a
poll that takes one. A poll that does drops them, and may drop such a byte.
-/
namespace StmGateway.At.Bursts

open StmGateway.Lib StmGateway.At.Parameter StmGateway.At.Setters StmGateway.At.Getters
open StmGateway.At.Link StmGateway.At.Delivery StmGateway.At.Statements
open StmGateway.Uart.RxBuffer (RxFrame Holds holds_zero zero atkIde01UartRxGetFrame)

/-- How many parameters the query reads up to. -/
def needs : Query → Nat
  | .searchMac _ => 2
  | .uart _ stop data parity => if parity then 4 else if data then 3 else if stop then 2 else 1
  | .remotelinkinfo _ _ port | .locallinkinfo _ _ port => if port then 2 else 1
  | _ => 1

/-- The parameters that go through a local array, with its size. -/
def locals : Query → List (Nat × Nat)
  | .ethmod _ => [(0, 14)]
  | .echo _ | .dhcp _ | .cloudlinken _ | .netlksta _ => [(0, 4)]
  | .uart .. => [(0, 7), (1, 2), (2, 2), (3, 5)]
  | .uartpacktime _ | .uartpacklen _ | .linknum _ => [(0, 6)]
  | _ => []

/-- No local array overflows. -/
def Fits (q : Query) (values : List (List UInt8)) : Prop :=
  ∀ r ∈ locals q, (values.getD r.1 []).length < r.2

variable {send send' : Send} {stack stack' : Stack} {fuel fuel' : Nat}
variable {values : List (List UInt8)} {β : Type}

theorem queryOne_agree {cmd : Cmd} {decode : List UInt8 → Option (Status × Option β)} {num : UInt8}
    (i : Nat) (hnum : num = UInt8.ofNat (i + 1))
    (h : ∀ cmd, Delivers (send cmd) stack fuel values)
    (h' : ∀ cmd, Delivers (send' cmd) stack' fuel' values) (hi : i < values.length) :
    queryOne send cmd num stack fuel decode = queryOne send' cmd num stack' fuel' decode := by
  rw [queryOne_delivered num i hnum (h _) hi, queryOne_delivered num i hnum (h' _) hi]

theorem getText_agree {cmd : Cmd} {dst : Bool} (h : ∀ cmd, Delivers (send cmd) stack fuel values)
    (h' : ∀ cmd, Delivers (send' cmd) stack' fuel' values) (hi : 0 < values.length) :
    getText cmd send stack fuel dst = getText cmd send' stack' fuel' dst := by
  unfold getText
  split
  · rfl
  · exact queryOne_agree 0 rfl h h' hi

theorem getEnum_agree {cmd : Cmd} {dst : Bool} {size : Nat} {table : List (String × β)}
    (h : ∀ cmd, Delivers (send cmd) stack fuel values)
    (h' : ∀ cmd, Delivers (send' cmd) stack' fuel' values) (hi : 0 < values.length) :
    getEnum size table cmd send stack fuel dst = getEnum size table cmd send' stack' fuel' dst := by
  unfold getEnum
  split
  · rfl
  · exact queryOne_agree 0 rfl h h' hi

theorem getNumber_agree {cmd : Cmd} {dst : Bool} {size : Nat}
    (h : ∀ cmd, Delivers (send cmd) stack fuel values)
    (h' : ∀ cmd, Delivers (send' cmd) stack' fuel' values) (hi : 0 < values.length) :
    getNumber size cmd send stack fuel dst = getNumber size cmd send' stack' fuel' dst := by
  unfold getNumber
  split
  · rfl
  · exact queryOne_agree 0 rfl h h' hi

theorem lt_of_needs_uart {b s d p : Bool} {n : Nat} (h : needs (.uart b s d p) ≤ n) :
    (b = true → 0 < n) ∧ (s = true → 1 < n) ∧ (d = true → 2 < n) ∧ (p = true → 3 < n) := by
  unfold needs at h
  grind

theorem lt_of_needs_linkinfo {ip port : Bool} {n : Nat} (h : (if port then 2 else 1) ≤ n) :
    (ip = true → 0 < n) ∧ (port = true → 1 < n) := by
  grind

theorem getUart_agree {b s d p : Bool} (h : ∀ cmd, Delivers (send cmd) stack fuel values)
    (h' : ∀ cmd, Delivers (send' cmd) stack' fuel' values)
    (hi : needs (.uart b s d p) ≤ values.length) :
    atkIde01GetUart send stack fuel b s d p = atkIde01GetUart send' stack' fuel' b s d p := by
  obtain ⟨buf, hsend, hcopy⟩ := h (ascii "AT+UART?")
  obtain ⟨buf', hsend', hcopy'⟩ := h' (ascii "AT+UART?")
  obtain ⟨hb, hs, hd, hp⟩ := lt_of_needs_uart hi
  unfold atkIde01GetUart
  split
  · rfl
  · simp only [query, queryCmd, hsend, hsend', Option.bind_eq_bind, Option.bind_some]
    rw [uartField_delivered 1 0 rfl hcopy hb, uartField_delivered 1 0 rfl hcopy' hb]
    simp only [uartField_delivered 2 1 rfl hcopy hs, uartField_delivered 2 1 rfl hcopy' hs,
      uartField_delivered 3 2 rfl hcopy hd, uartField_delivered 3 2 rfl hcopy' hd,
      uartField_delivered 4 3 rfl hcopy hp, uartField_delivered 4 3 rfl hcopy' hp]

theorem getLinkinfo_agree {name : String} {num : UInt8} {ip port : Bool}
    (h : ∀ cmd, Delivers (send cmd) stack fuel values)
    (h' : ∀ cmd, Delivers (send' cmd) stack' fuel' values)
    (hi : (if port then 2 else 1) ≤ values.length) :
    getLinkinfo name send stack fuel num ip port =
      getLinkinfo name send' stack' fuel' num ip port := by
  obtain ⟨buf, hsend, hcopy⟩ := h (textCmd 20 name (decimal num.toNat)).text
  obtain ⟨buf', hsend', hcopy'⟩ := h' (textCmd 20 name (decimal num.toNat)).text
  obtain ⟨hip, hport⟩ := @lt_of_needs_linkinfo ip port _ hi
  unfold getLinkinfo
  split
  · rfl
  · simp only [query, hsend, hsend', Option.bind_eq_bind, Option.bind_some]
    rw [linkField_delivered 1 0 rfl hcopy hip, linkField_delivered 1 0 rfl hcopy' hip]
    simp only [linkField_delivered 2 1 rfl hcopy hport, linkField_delivered 2 1 rfl hcopy' hport]

/-- The result of a getter is made of what was delivered. -/
theorem run_agree {q : Query} (h : ∀ cmd, Delivers (send cmd) stack fuel values)
    (h' : ∀ cmd, Delivers (send' cmd) stack' fuel' values) (hi : needs q ≤ values.length) :
    q.run send stack fuel = q.run send' stack' fuel' := by
  cases q with
  | searchMac dst =>
    simp only [Query.run, atkIde01SearchMac]
    split
    · rfl
    · exact queryOne_agree 1 rfl h h' hi
  | clouddomainLen dst =>
    simp only [Query.run, atkIde01GetClouddomainLen]
    split
    · rfl
    · exact queryOne_agree 0 rfl h h' hi
  | uart b s d p => exact getUart_agree h h' hi
  | remotelinkinfo num ip port => exact getLinkinfo_agree h h' hi
  | locallinkinfo num ip port => exact getLinkinfo_agree h h' hi
  | ethmod | echo | dhcp | cloudlinken | netlksta => exact getEnum_agree h h' hi
  | uartpacktime | uartpacklen | linknum => exact getNumber_agree h h' hi
  | version => exact show getText _ send stack fuel true = getText _ send' stack' fuel' true from
      getText_agree h h' hi
  | _ => exact getText_agree h h' hi

theorem matchText_isSome {size : Nat} {table : List (String × β)} {text : List UInt8}
    (h : text.length < size) : (matchText size table text).isSome := by
  simp only [matchText, localText, h, ↓reduceIte, Option.bind_eq_bind, Option.bind_some]
  split <;> rfl

theorem numberText_isSome {size : Nat} {text : List UInt8} (h : text.length < size) :
    (numberText size text).isSome := by
  simp [numberText, localText, h]

theorem queryOne_isSome {cmd : Cmd} {decode : List UInt8 → Option (Status × Option β)}
    (num : UInt8) (i : Nat) (hnum : num = UInt8.ofNat (i + 1))
    (h : ∀ cmd, Delivers (send cmd) stack fuel values) (hi : i < values.length)
    (hdecode : (decode (values.getD i [])).isSome) :
    (queryOne send cmd num stack fuel decode).isSome := by
  rw [queryOne_delivered num i hnum (h _) hi]
  simpa [List.getElem?_eq_getElem hi] using hdecode

theorem getText_isSome {cmd : Cmd} {dst : Bool} (h : ∀ cmd, Delivers (send cmd) stack fuel values)
    (hi : 0 < values.length) : (getText cmd send stack fuel dst).isSome := by
  unfold getText
  split
  · rfl
  · exact queryOne_isSome 1 0 rfl h hi rfl

theorem getEnum_isSome {cmd : Cmd} {dst : Bool} {size : Nat} {table : List (String × β)}
    (h : ∀ cmd, Delivers (send cmd) stack fuel values) (hi : 0 < values.length)
    (hfits : (values.getD 0 []).length < size) :
    (getEnum size table cmd send stack fuel dst).isSome := by
  unfold getEnum
  split
  · rfl
  · exact queryOne_isSome 1 0 rfl h hi (matchText_isSome hfits)

theorem getNumber_isSome {cmd : Cmd} {dst : Bool} {size : Nat}
    (h : ∀ cmd, Delivers (send cmd) stack fuel values) (hi : 0 < values.length)
    (hfits : (values.getD 0 []).length < size) :
    (getNumber size cmd send stack fuel dst).isSome := by
  unfold getNumber
  split
  · rfl
  · exact queryOne_isSome 1 0 rfl h hi (numberText_isSome hfits)

theorem uartField_isSome {buf : Nat → UInt8} {size : Nat} {dst : Bool}
    (table : List (String × β)) (num : UInt8) (i : Nat) (hnum : num = UInt8.ofNat (i + 1))
    (hcopy : ∀ i, (hi : i < values.length) →
      copyParameter buf (UInt8.ofNat (i + 1)) stack fuel = some (.eok, values[i]))
    (hi : dst = true → i < values.length) (hfits : (values.getD i []).length < size) :
    ∃ r, uartField buf stack fuel dst num size table = some r := by
  rw [uartField_delivered num i hnum hcopy hi, ← Option.isSome_iff_exists]
  split
  · exact matchText_isSome hfits
  · rfl

theorem getUart_isSome {b s d p : Bool} (h : ∀ cmd, Delivers (send cmd) stack fuel values)
    (hi : needs (.uart b s d p) ≤ values.length) (hfits : Fits (.uart b s d p) values) :
    (atkIde01GetUart send stack fuel b s d p).isSome := by
  obtain ⟨buf, hsend, hcopy⟩ := h (ascii "AT+UART?")
  obtain ⟨hb, hs, hd, hp⟩ := lt_of_needs_uart hi
  simp only [Fits, locals, List.forall_mem_cons] at hfits
  obtain ⟨hfitb, hfits, hfitd, hfitp, _⟩ := hfits
  obtain ⟨rb, hrb⟩ := uartField_isSome baudrateTable 1 0 rfl hcopy hb hfitb
  obtain ⟨rs, hrs⟩ := uartField_isSome stopTable 2 1 rfl hcopy hs hfits
  obtain ⟨rd, hrd⟩ := uartField_isSome dataTable 3 2 rfl hcopy hd hfitd
  obtain ⟨rp, hrp⟩ := uartField_isSome parityTable 4 3 rfl hcopy hp hfitp
  unfold atkIde01GetUart
  split
  · rfl
  · simp only [query, queryCmd, hsend, hrb, hrs, hrd, hrp, Option.bind_eq_bind, Option.bind_some,
      Option.pure_def]
    repeat' split
    all_goals rfl

theorem getLinkinfo_isSome {name : String} {num : UInt8} {ip port : Bool}
    (h : ∀ cmd, Delivers (send cmd) stack fuel values)
    (hi : (if port then 2 else 1) ≤ values.length) :
    (getLinkinfo name send stack fuel num ip port).isSome := by
  obtain ⟨buf, hsend, hcopy⟩ := h (textCmd 20 name (decimal num.toNat)).text
  obtain ⟨hip, hport⟩ := @lt_of_needs_linkinfo ip port _ hi
  unfold getLinkinfo
  split
  · rfl
  · simp only [query, hsend, Option.bind_eq_bind, Option.bind_some]
    rw [linkField_delivered 1 0 rfl hcopy hip]
    simp only [linkField_delivered 2 1 rfl hcopy hport]
    cases ip <;> cases port <;> rfl

/-- With room in its local arrays a getter returns. -/
theorem run_isSome {q : Query} (h : ∀ cmd, Delivers (send cmd) stack fuel values)
    (hi : needs q ≤ values.length) (hfits : Fits q values) : (q.run send stack fuel).isSome := by
  have hone {size : Nat} (hlocals : locals q = [(0, size)]) : (values.getD 0 []).length < size :=
    hfits (0, size) (by simp [hlocals])
  cases q with
  | searchMac dst =>
    simp only [Query.run, atkIde01SearchMac]
    split
    · rfl
    · exact queryOne_isSome 2 1 rfl h hi rfl
  | clouddomainLen dst =>
    simp only [Query.run, atkIde01GetClouddomainLen]
    split
    · rfl
    · exact queryOne_isSome 1 0 rfl h hi rfl
  | uart b s d p => exact getUart_isSome h hi hfits
  | remotelinkinfo num ip port => exact getLinkinfo_isSome h hi
  | locallinkinfo num ip port => exact getLinkinfo_isSome h hi
  | ethmod | echo | dhcp | cloudlinken | netlksta => exact getEnum_isSome h hi (hone rfl)
  | uartpacktime | uartpacklen | linknum => exact getNumber_isSome h hi (hone rfl)
  | version => exact show (getText _ send stack fuel true).isSome from getText_isSome h hi
  | _ => exact getText_isSome h hi

/-- A call that starts. -/
def sending : Call := ⟨.firstLen, atkIde01AtTimeout⟩

/-- `atk_ide01_send_at_cmd` one statement at a time, on what comes for each
command, and on success the frame that a getter then fetches. -/
def sendMoves (f : RxFrame) (line : List UInt8 → List Move) : Send := fun cmd => do
  let (ret, f) ← callLoop (some okAck) sending f (line cmd)
  if ret ≠ .eok then return (ret, f.buf)
  let (got, f) ← atkIde01UartRxGetFrame f
  if got then return (.eok, f.buf) else none

variable {a : Answer} {f f' : RxFrame} {earlier earlier' : List UInt8}
variable {before before' : List Event} {moves moves' : List Move}

/-- Where no byte comes inside a poll, a call that succeeds on its schedule of
polls gets the same frame. -/
theorem sendMoves_eq {cmd : List UInt8} {buf : Nat → UInt8}
    (hcalm : Calm (some okAck) sending f moves)
    (hret : (callLoop (some okAck) sending f moves).isSome)
    (hsend : sendVia f (fun _ => schedule (some okAck) sending f moves) cmd = some (.eok, buf)) :
    sendMoves f (fun _ => moves) cmd = some (.eok, buf) := by
  obtain ⟨⟨st, g⟩, hcall⟩ := Option.isSome_iff_exists.mp hret
  obtain ⟨g', hvia, hframe⟩ := callLoop_sendAtCmd (by decide) hcalm hcall
  simp only [sendVia, sending, hvia, Option.bind_eq_bind, Option.bind_some] at hsend
  by_cases hst : st = .eok
  · rw [hframe hst] at hsend
    simpa [sendMoves, hcall] using hsend
  · simp [hst] at hsend

/-- So a quiet run delivers the parameters of the answer. -/
theorem delivers_moves {cmd : List UInt8} {quiet : Nat} (hquiet : Quiet a quiet)
    (hf : Holds f earlier) (hcalm : Calm (some okAck) sending f moves)
    (hret : (callLoop (some okAck) sending f moves).isSome)
    (hbrings : Brings a before (schedule (some okAck) sending f moves))
    (hclean : Undisturbed quiet a.core.length 0 false (schedule (some okAck) sending f moves))
    (stack : Stack) :
    ∃ bound, ∀ fuel, bound ≤ fuel →
      Delivers (sendMoves f (fun _ => moves) cmd) stack fuel a.values := by
  obtain ⟨bound, hbound⟩ := @delivers_undisturbed a f earlier
    (fun _ => schedule (some okAck) sending f moves) cmd before quiet hquiet hf hbrings hclean stack
  refine ⟨bound, fun fuel hle => ?_⟩
  obtain ⟨buf, hsend, hcopy⟩ := hbound fuel hle
  exact ⟨buf, sendMoves_eq hcalm hret hsend, hcopy⟩

/-- For every query, answer, split and placement of the polls: if no byte comes
inside a poll of a finished frame, and no poll takes a finished frame behind the
quiet start of the lead and before the "OK", the getter ends as it does when the
answer comes in one burst. -/
theorem split_agrees (q : Query) (hneeds : needs q ≤ a.params.length)
    {quiet : Nat} (hquiet : Quiet a quiet) (hf : Holds f earlier) (hf' : Holds f' earlier')
    (hcalm : Calm (some okAck) sending f moves)
    (hret : (callLoop (some okAck) sending f moves).isSome)
    (hcalm' : Calm (some okAck) sending f' moves')
    (hret' : (callLoop (some okAck) sending f' moves').isSome)
    (hbrings : Brings a before (schedule (some okAck) sending f moves))
    (hclean : Undisturbed quiet a.core.length 0 false (schedule (some okAck) sending f moves))
    (hbrings' : Brings a before' (schedule (some okAck) sending f' moves'))
    (hburst : .idle ∉ before') (stack stack' : Stack) :
    ∃ r, (∃ bound, ∀ fuel, bound ≤ fuel →
        q.run (sendMoves f fun _ => moves) stack fuel = r ∧
        q.run (sendMoves f' fun _ => moves') stack' fuel = r) ∧
      (Fits q a.values → r.isSome) := by
  have hneeds' : needs q ≤ a.values.length := by simpa [Answer.values] using hneeds
  have hclean' : Undisturbed 0 a.core.length 0 false (schedule (some okAck) sending f' moves') := by
    obtain ⟨after, hsplit⟩ := hbrings'.split
    rw [hsplit]
    apply burst_undisturbed hburst
    rw [hbrings'.arrived_eq, Nat.zero_add]
    exact a.core_le
  obtain ⟨m, hm⟩ := @delivers_moves a f earlier before moves [] quiet hquiet hf hcalm hret hbrings
    hclean stack
  obtain ⟨n, hn⟩ := @delivers_moves a f' earlier' before' moves' [] 0 (quiet_zero a) hf' hcalm' hret'
    hbrings' hclean' stack'
  have hagree : ∀ fuel fuel', m ≤ fuel → n ≤ fuel' →
      q.run (sendMoves f fun _ => moves) stack fuel =
        q.run (sendMoves f' fun _ => moves') stack' fuel' :=
    fun fuel fuel' hle hle' => run_agree (fun _ => hm fuel hle) (fun _ => hn fuel' hle') hneeds'
  refine ⟨q.run (sendMoves f fun _ => moves) stack m, ⟨max m n, fun fuel hle => ⟨?_, ?_⟩⟩, ?_⟩
  · rw [hagree fuel n (by omega) le_rfl, hagree m n le_rfl le_rfl]
  · exact (hagree m fuel le_rfl (by omega)).symm
  · exact run_isSome (fun _ => hm m le_rfl) hneeds'

/-- The answer to `AT+NETMASK?`. -/
def netmask : Answer where
  lead := ascii "AT+NETMASK?\r\nNETMASK"
  params := [([], ascii "255.255.255.0")]
  gap := ascii "\r\n"
  tail := ascii "\r\n"
  nul := by decide
  equals := by decide
  quotes := by decide
  room := by decide

/-- A burst that the line closes. -/
def closed (text : String) : List Move := (ascii text).map .byte ++ [.idle]

/-- The call takes so many statements. -/
def statements (n : Nat) : List Move := List.replicate n .thread

/-- The echo in a burst of its own, and dropped. -/
theorem split_agrees_netmask :
    ∃ r, (∃ bound, ∀ fuel, bound ≤ fuel →
        Query.run (sendMoves zero fun _ => statements 3 ++ closed "AT+NETMASK?\r\n" ++ statements 6 ++
          closed "NETMASK=\"255.255.255.0\"\r\nOK\r\n" ++ statements 3) (fun _ => (0, 0)) fuel
          (.netmask true) = r ∧
        Query.run (sendMoves zero fun _ => statements 3 ++
          closed "AT+NETMASK?\r\nNETMASK=\"255.255.255.0\"\r\nOK\r\n" ++ statements 3)
          (fun _ => (0, 0)) fuel (.netmask true) = r) ∧
      (Fits (.netmask true) netmask.values → r.isSome) := by
  refine @split_agrees netmask zero zero [] []
    (burst "AT+NETMASK?\r\n" ++ [Event.idle, Event.poll] ++
      burst "NETMASK=\"255.255.255.0\"\r\nOK\r\n")
    (burst "AT+NETMASK?\r\nNETMASK=\"255.255.255.0\"\r\nOK\r\n") _ _ (.netmask true) (by decide)
    netmask.lead.length ⟨le_rfl, by decide⟩ holds_zero holds_zero (by decide) (by decide) (by decide)
    (by decide) ⟨⟨[], rfl⟩, rfl, by decide⟩ (by decide) ⟨⟨[], rfl⟩, rfl, by decide⟩ ?_ _ _
  intro h
  simp [burst] at h

/-- A poll between the parameter and the "OK" drops the parameter. -/
theorem netmask_dropped :
    ∃ before before' moves moves',
      Calm (some okAck) sending zero moves ∧ Calm (some okAck) sending zero moves' ∧
      Brings netmask before (schedule (some okAck) sending zero moves) ∧
      Brings netmask before' (schedule (some okAck) sending zero moves') ∧ .idle ∉ before' ∧
      (Query.run (sendMoves zero fun _ => moves) (fun _ => (0, 0)) 300 (.netmask true)).map
        Prod.fst = some .error ∧
      (Query.run (sendMoves zero fun _ => moves') (fun _ => (0, 0)) 300 (.netmask true)).map
        Prod.fst = some .eok := by
  refine ⟨burst "AT+NETMASK?\r\nNETMASK=\"255.255.255.0\"\r\n" ++ [Event.idle, Event.poll] ++
      burst "OK\r\n", burst "AT+NETMASK?\r\nNETMASK=\"255.255.255.0\"\r\nOK\r\n",
    statements 3 ++ closed "AT+NETMASK?\r\nNETMASK=\"255.255.255.0\"\r\n" ++ statements 6 ++
      closed "OK\r\n" ++ statements 3,
    statements 3 ++ closed "AT+NETMASK?\r\nNETMASK=\"255.255.255.0\"\r\nOK\r\n" ++ statements 3,
    by decide, by decide, ⟨⟨[], rfl⟩, rfl, by decide⟩, ⟨⟨[], rfl⟩, rfl, by decide⟩, ?_, by decide,
    by decide⟩
  intro h
  simp [burst] at h

/-- So is a `=` that arrives between `rt_strstr` and the restart of a poll that
was free to drop what it found. -/
theorem equals_dropped :
    ∃ before moves, Brings netmask before (schedule (some okAck) sending zero moves) ∧
      Undisturbed netmask.lead.length netmask.core.length 0 false
        (schedule (some okAck) sending zero moves) ∧
      (Query.run (sendMoves zero fun _ => moves) (fun _ => (0, 0)) 300 (.netmask true)).map
        Prod.fst = some .error := by
  refine ⟨burst "AT+NETMASK?\r\nNETMASK" ++ [Event.idle, Event.poll] ++
      burst "=\"255.255.255.0\"\r\nOK\r\n",
    statements 3 ++ closed "AT+NETMASK?\r\nNETMASK" ++ statements 3 ++ [.byte 0x3d] ++
      statements 3 ++ closed "\"255.255.255.0\"\r\nOK\r\n" ++ statements 3,
    ⟨⟨[], rfl⟩, rfl, by decide⟩, by decide, by decide⟩

end StmGateway.At.Bursts
