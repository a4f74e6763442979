import StmGateway.Lib.CString
import StmGateway.Lib.Fuel

/-!
# Quoted parameters of an AT answer

`atk_ide01_get_parameter` of `atk_net.c`. It looks for the first `=` and then
counts quotes, with an 8-bit index, so its loops are fuelled.
-/
namespace StmGateway.At.Parameter

open StmGateway.Lib

/-- `ATK_IDE01_EOK` and the error codes. -/
inductive Status where
  | eok
  | error
  | etimeout
  | einval
  deriving DecidableEq

/-- The first loop: up to the terminator or a `=`. -/
def seekEquals (src : Nat → UInt8) : Nat → UInt8 → Option UInt8
  | 0, _ => none
  | fuel + 1, i =>
    if src i.toNat ≠ 0 ∧ src i.toNat ≠ 0x3d then seekEquals src fuel (i + 1) else some i

/-- The variables of the second loop; `opened` and `recording` are the two bits
of `param_flag`. -/
structure Scan where
  srcIndex : UInt8
  paramNum : UInt8
  opened : Bool
  recording : Bool
  paramIndex : UInt16
  paramLen : UInt16

/-- The second loop; `wantLen` says that `param_len` is not NULL. -/
def scanQuotes (src : Nat → UInt8) (wantLen : Bool) : Nat → Scan → Option Scan
  | 0, _ => none
  | fuel + 1, s =>
    if src s.srcIndex.toNat = 0 then
      some s
    else if src s.srcIndex.toNat = 0x22 then
      if s.opened = false then
        if s.paramNum = 1 then
          let s := { s with
            opened := true, recording := true, paramIndex := s.srcIndex.toUInt16 + 1 }
          if wantLen then scanQuotes src wantLen fuel { s with srcIndex := s.srcIndex + 1 }
          else some s
        else
          scanQuotes src wantLen fuel { s with opened := true, srcIndex := s.srcIndex + 1 }
      else
        let s := { s with opened := false, paramNum := s.paramNum - 1 }
        if s.recording then some { s with paramLen := s.srcIndex.toUInt16 - s.paramIndex }
        else scanQuotes src wantLen fuel { s with srcIndex := s.srcIndex + 1 }
    else
      scanQuotes src wantLen fuel { s with srcIndex := s.srcIndex + 1 }

/-- `atk_ide01_get_parameter`. `paramIndex` and `paramLen` are the objects the
caller points to, `none` for NULL; the local variables start with what is on the
stack. The result has the objects as they are left. -/
def atkIde01GetParameter (src : Nat → UInt8) (paramNum : UInt8) (paramIndex paramLen : Option UInt16)
    (stackIndex stackLen : UInt16) (fuel : Nat) :
    Option (Status × Option UInt16 × Option UInt16) :=
  if paramNum = 0 then
    some (.einval, paramIndex, paramLen)
  else do
    let i ← seekEquals src fuel 0
    if src i.toNat ≠ 0x3d then
      return (.einval, paramIndex, paramLen)
    let s ← scanQuotes src paramLen.isSome fuel ⟨i, paramNum, false, false, stackIndex, stackLen⟩
    return (.eok, paramIndex.map fun _ => s.paramIndex, paramLen.map fun _ => s.paramLen)

section Composition

variable {src : Nat → UInt8} {paramNum : UInt8} {paramIndex paramLen : Option UInt16}
  {stackIndex stackLen : UInt16} {i : UInt8}

/-- From a `=` on the scan decides what is stored. -/
theorem getParameter_eok (hnum : paramNum ≠ 0) (hseek : Returns (fun fuel => seekEquals src fuel 0) i)
    (hequals : src i.toNat = 0x3d) {s : Scan}
    (hscan : Returns (fun fuel => scanQuotes src paramLen.isSome fuel
      ⟨i, paramNum, false, false, stackIndex, stackLen⟩) s) :
    Returns (atkIde01GetParameter src paramNum paramIndex paramLen stackIndex stackLen)
      (.eok, paramIndex.map fun _ => s.paramIndex, paramLen.map fun _ => s.paramLen) := by
  obtain ⟨m, hm⟩ := hseek
  obtain ⟨n, hn⟩ := hscan
  refine ⟨max m n, fun fuel hle => ?_⟩
  have hi : seekEquals src fuel 0 = some i := hm fuel (by omega)
  have hs : scanQuotes src paramLen.isSome fuel ⟨i, paramNum, false, false, stackIndex, stackLen⟩ =
      some s := hn fuel (by omega)
  rw [atkIde01GetParameter, if_neg hnum, hi, Option.bind_eq_bind, Option.bind_some,
    if_neg (not_not.mpr hequals), hs]
  rfl

/-- Without one nothing is. -/
theorem getParameter_einval (hnum : paramNum ≠ 0)
    (hseek : Returns (fun fuel => seekEquals src fuel 0) i) (hequals : src i.toNat ≠ 0x3d) :
    Returns (atkIde01GetParameter src paramNum paramIndex paramLen stackIndex stackLen)
      (.einval, paramIndex, paramLen) := by
  obtain ⟨m, hm⟩ := hseek
  refine ⟨m, fun fuel hle => ?_⟩
  have hi : seekEquals src fuel 0 = some i := hm fuel hle
  rw [atkIde01GetParameter, if_neg hnum, hi, Option.bind_eq_bind, Option.bind_some, if_pos hequals]
  rfl

end Composition

theorem index_succ {i : Nat} : UInt8.ofNat i + 1 = UInt8.ofNat (i + 1) := by
  rw [UInt8.ofNat_add]
  rfl

theorem index_toNat {i : Nat} (h : i ≤ 255) : (UInt8.ofNat i).toNat = i := by
  rw [UInt8.toNat_ofNat', Nat.mod_eq_of_lt (by omega)]

end StmGateway.At.Parameter
