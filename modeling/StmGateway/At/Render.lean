import StmGateway.At.Setters

/-!
# Room for a command line

`rt_sprintf` writes to the `cmd` array of its caller without a bound. The arrays
are as long as a command with the argument they were meant for; of the functions
that take a text only `atk_ide01_set_atkyundevid` looks at its length.
-/
namespace StmGateway.At.Render

open StmGateway.Lib StmGateway.At.Parameter StmGateway.At.Setters

/-- What `atk_ide01_enter_at_mode` formats once `AT+SEARCH?` is answered. -/
def intoCmd (mac : List UInt8) : Cmd := textCmd 32 "AT+AT_INTO" mac

def atkIde01ExitAtMode (mac : List UInt8) : Except Status Cmd := .ok (textCmd 32 "AT+AT_EXIT" mac)

/-- `none` is the NULL pointer. -/
def atkIde01Ping : Option (List UInt8) → Except Status Cmd
  | none => .error .einval
  | some domain => .ok (textCmd 64 "AT+PING" domain)

/-- The functions that format a text into a local array. -/
inductive Function where
  | netmask
  | mac
  | gateway
  | dns
  | localport
  | remoteport
  | remoteip
  | staticip
  | moduname
  | xcomport
  | cloudport
  | clouddomain
  | atklinkpwd
  | atkyundevid
  | multcastip
  | multcastport
  | ping
  | enterAtMode
  | exitAtMode
  deriving DecidableEq

/-- What the function formats from its argument, or the status it refuses it with. -/
def Function.cmd : Function → List UInt8 → Except Status Cmd
  | .netmask => atkIde01SetNetmask
  | .mac => atkIde01SetMac
  | .gateway => atkIde01SetGateway
  | .dns => atkIde01SetDns
  | .localport => atkIde01SetLocalport
  | .remoteport => atkIde01SetRemoteport
  | .remoteip => atkIde01SetRemoteip
  | .staticip => atkIde01SetStaticip
  | .moduname => atkIde01SetModuname
  | .xcomport => atkIde01SetXcomport
  | .cloudport => atkIde01SetCloudport
  | .clouddomain => atkIde01SetClouddomain
  | .atklinkpwd => atkIde01SetAtklinkpwd
  | .atkyundevid => atkIde01SetAtkyundevid
  | .multcastip => atkIde01SetMultcastip
  | .multcastport => atkIde01SetMultcastport
  | .ping => fun domain => atkIde01Ping (some domain)
  | .enterAtMode => fun mac => .ok (intoCmd mac)
  | .exitAtMode => atkIde01ExitAtMode

/-- The stores of `rt_sprintf` from index `i` on, with the terminator; a store
outside the array is `none`. -/
def rtSprintf (size : Nat) : List UInt8 → Nat → (Nat → UInt8) → Option (Nat → UInt8)
  | [], i, cmd => if i < size then some (Function.update cmd i 0) else none
  | b :: text, i, cmd =>
    if i < size then rtSprintf size text (i + 1) (Function.update cmd i b) else none

/-- The command with its terminator is no longer than its array. -/
def Fits (cmd : Cmd) : Prop := cmd.text.length + 1 ≤ cmd.size

/-- The argument is refused before anything is formatted, or the command fits. -/
def RefusedOrFits (f : Function) (arg : List UInt8) : Prop :=
  match f.cmd arg with
  | .error status => status ≠ .eok
  | .ok cmd => Fits cmd

/-- The length of argument the array has room for. -/
def Function.Admits : Function → Nat → Prop
  | .netmask, n | .gateway, n | .dns, n | .remoteip, n | .staticip, n | .multcastip, n
  | .multcastport, n => n ≤ 15
  | .localport, n | .remoteport, n | .xcomport, n | .cloudport, n => n ≤ 5
  | .mac, n => n ≤ 17
  | .enterAtMode, n | .exitAtMode, n => n ≤ 18
  | .moduname, n => n ≤ 49
  | .clouddomain, n => n ≤ 45
  | .ping, n => n ≤ 53
  | .atklinkpwd, n => n ≤ 8
  | .atkyundevid, _ => True

theorem rtSprintf_isSome (size : Nat) : ∀ (text : List UInt8) (i : Nat) (cmd : Nat → UInt8),
    (rtSprintf size text i cmd).isSome ↔ i + text.length < size := by
  intro text
  induction text with
  | nil =>
    intro i cmd
    simp [rtSprintf]
  | cons b text ih =>
    intro i cmd
    rw [rtSprintf, List.length_cons]
    split
    · rw [ih]
      omega
    · simp only [Option.isSome_none, Bool.false_eq_true, false_iff]
      omega

/-- What is stored is the text with its terminator, from its index on. -/
theorem rtSprintf_stores (size : Nat) : ∀ (text : List UInt8) (i : Nat) (cmd : Nat → UInt8),
    i + text.length < size → ∃ cmd', rtSprintf size text i cmd = some cmd' ∧
      ReadsAt cmd' i text ∧ cmd' (i + text.length) = 0 ∧ ∀ j < i, cmd' j = cmd j := by
  intro text
  induction text with
  | nil =>
    intro i cmd hlt
    refine ⟨Function.update cmd i 0, if_pos hlt, ReadsAt.nil _ _, Function.update_self _ _ _,
      fun j hj => Function.update_of_ne (by omega) _ _⟩
  | cons b text ih =>
    intro i cmd hlt
    rw [List.length_cons, ← Nat.add_assoc] at hlt ⊢
    obtain ⟨cmd', hrun, hread, hnul, hbelow⟩ := ih (i + 1) (Function.update cmd i b) (by omega)
    refine ⟨cmd', ?_, readsAt_cons.mpr ⟨?_, hread⟩, ?_, fun j hj => ?_⟩
    · rw [rtSprintf, if_pos (by omega)]
      exact hrun
    · rw [hbelow i (Nat.lt_succ_self i), Function.update_self]
    · rw [Nat.add_right_comm] at hnul
      exact hnul
    · rw [hbelow j (by omega), Function.update_of_ne (by omega)]

/-- A command fits where `rt_sprintf` stores nothing outside the array. -/
theorem fits_iff_stores (cmd : Cmd) (stack : Nat → UInt8) :
    Fits cmd ↔ (rtSprintf cmd.size cmd.text 0 stack).isSome := by
  rw [rtSprintf_isSome, Fits]
  omega

theorem textCmd_fits_iff (size : Nat) (name : String) (arg : List UInt8) :
    Fits (textCmd size name arg) ↔ (ascii name).length + arg.length + 4 ≤ size := by
  simp only [Fits, textCmd, List.length_append, List.length_cons, List.length_nil]
  omega

theorem refusedOrFits_text {f : Function} {size : Nat} {name : String} {n : Nat}
    {arg : List UInt8} (hcmd : f.cmd arg = .ok (textCmd size name arg))
    (hsize : size = (ascii name).length + n + 4) : RefusedOrFits f arg ↔ arg.length ≤ n := by
  rw [RefusedOrFits, hcmd]
  simp only [textCmd_fits_iff, hsize]
  omega

/-- The device id is refused unless it has the 20 bytes its array is made for. -/
theorem refusedOrFits_atkyundevid (arg : List UInt8) : RefusedOrFits .atkyundevid arg := by
  by_cases hlen : arg.length = 20
  · have hcmd : Function.cmd .atkyundevid arg = .ok (textCmd 38 "AT+ATKYUNDEVID" arg) :=
      if_neg (not_not.mpr hlen)
    exact (refusedOrFits_text hcmd (n := 20) rfl).mpr hlen.le
  · have hcmd : Function.cmd .atkyundevid arg = .error .einval := if_pos hlen
    rw [RefusedOrFits, hcmd]
    decide

/-- Each function refuses its argument or formats a command that fits, exactly
when the argument has no more bytes than its array has room for. -/
theorem refusedOrFits_iff (f : Function) (arg : List UInt8) :
    RefusedOrFits f arg ↔ f.Admits arg.length := by
  cases f with
  | atkyundevid => exact iff_of_true (refusedOrFits_atkyundevid arg) trivial
  | _ => exact refusedOrFits_text rfl rfl

/-- A name of 50 letters: the command takes 65 bytes of an array of 64. -/
theorem moduname_overflows :
    0 ∉ List.replicate 50 (0x41 : UInt8) ∧
      ¬ RefusedOrFits .moduname (List.replicate 50 0x41) := by
  refine ⟨by decide, ?_⟩
  show ¬ (textCmd 64 "AT+MODUNAME" (List.replicate 50 0x41)).text.length + 1 ≤ 64
  decide

end StmGateway.At.Render
