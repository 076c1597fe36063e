import Netepoll.Lib.CString

/-! `getEnvVal` and `expandEnvStr` (expandEnvStr.c) on arrays of bytes. The lengths that
`strlen`, `strspn` and `index` give are converted to `int`, as the code does; a sum that is
not an `int` has no result. -/

namespace Netepoll

open CString

/-- `__ENV_NAME_SIZE` -/
def envNameSize : Nat := 100

/-- `__ENV_VALUE_SIZE` -/
def envValueSize : Nat := 256

/-- Underscore, digits and letters, the bytes of `__ENV_CHR`. -/
def envChr (c : UInt8) : Bool :=
  c == 95 || (48 ≤ c && c ≤ 57) || (65 ≤ c && c ≤ 90) || (97 ≤ c && c ≤ 122)

/-- `__ENV_CHR` -/
def envChars : List UInt8 :=
  [95, 48, 49, 50, 51, 52, 53, 54, 55, 56, 57,
    65, 66, 67, 68, 69, 70, 71, 72, 73, 74, 75, 76, 77, 78, 79, 80, 81, 82, 83, 84, 85, 86,
    87, 88, 89, 90, 97, 98, 99, 100, 101, 102, 103, 104, 105, 106, 107, 108, 109, 110, 111,
    112, 113, 114, 115, 116, 117, 118, 119, 120, 121, 122]

theorem envChr_iff (c : UInt8) : envChr c = true ↔ c ∈ envChars := by
  have hsame : envChr c = envChars.contains c :=
    forall_byte (P := fun c => envChr c = envChars.contains c) (by decide +kernel) c
  rw [hsame, List.contains_iff_mem]

/-- What `getenv` finds for a name. -/
abbrev Environ := List UInt8 → Option Text

/-- A pointer to the value of the name in the array, or a null pointer. -/
def getenv (env : Environ) (name : Block) : Option (Option Block) :=
  (load name).map fun s => (env s).map Text.block

/-- What `getEnvVal` copies to `EnvVal`: a pointer to it, or a null pointer for nothing. -/
def envText (envStr : Block) (nameLen : Nat) (value : Option Block) :
    Option (Option Block) := do
  let len ← strlen envStr
  let word := envStr.drop (nameLen + 2)
  if nameLen = len then some value
  -- ":-"
  else if ← memcmpEq (envStr.drop nameLen) [58, 45] then some (value.or (some word))
  -- ":+"
  else if ← memcmpEq (envStr.drop nameLen) [58, 43] then some (value.map fun _ => word)
  else some value

/-- `strncpy(EnvVal, p, Size)` where `p` is not a null pointer. -/
def copyText (envVal : Block) (size : Nat) : Option Block → Option Block
  | none => some envVal
  | some p => strncpy envVal p size

/-- The return value and `EnvVal`. -/
def getEnvVal (env : Environ) (envStr envVal : Block) (size : Nat) : Option (Int × Block) := do
  let nameLen := toInt (← strspn envChr envStr)
  if nameLen > envNameSize then
    some (-1, envVal)
  -- `memcpy` of almost 2^64 bytes
  else if nameLen < 0 then none
  else
    let envName ← memcpy (zeros (envNameSize + 1)) 0 envStr nameLen.toNat
    let value ← getenv env envName
    let text ← envText envStr nameLen.toNat value
    let envVal ← copyText envVal size text
    some (toInt (← strlen envVal), envVal)

/-- The variables of `expandEnvStr` that live from one turn of its loop to the next. -/
structure Expand where
  i : Nat
  pos : Nat
  outBuf : Block
  deriving DecidableEq

inductive Scan where
  /-- `env_name` and the new `i` -/
  | name (envName : Block) (i : Nat)
  | unmatched
  | tooLong
  deriving DecidableEq

/-- `env_name` after its `memcpy`, where `i` is the index behind the name or body. -/
def copyName (src : Block) (nameLen i : Int) : Option Scan :=
  if nameLen > envNameSize then some .tooLong
  -- `memcpy` of almost 2^64 bytes, or an `i` that is not an `int`
  else if nameLen < 0 ∨ intMax < i then none
  else
    (memcpy (zeros (envNameSize + 1)) 0 src nameLen.toNat).map fun envName =>
      .name envName i.toNat

/-- The name after a `$`, or the body between the braces. -/
def scanName (inBuf : Block) (i : Nat) : Option Scan := do
  let c ← inBuf[i]?
  if c ≠ 123 then
    let nameLen := toInt (← strspn envChr (inBuf.drop i))
    copyName (inBuf.drop i) nameLen (i + nameLen)
  else
    match ← index 125 (inBuf.drop i) with
    | none => some .unmatched
    | some tmp =>
      let nameLen := toInt ((tmp : Int) - 1)
      copyName (inBuf.drop (i + 1)) nameLen (i + (nameLen + 2))

/-- One turn of the loop: it goes on, or the function returns. -/
inductive Turn where
  | next (e : Expand)
  | leave (code : Int)
  deriving DecidableEq

def expandTurn (env : Environ) (inBuf : Block) (bufSize : Int) (e : Expand) : Option Turn := do
  let c ← inBuf[e.i]?
  if c ≠ 36 then
    let outBuf ← poke e.outBuf e.pos c
    some (.next ⟨e.i + 1, e.pos + 1, outBuf⟩)
  else
    match ← scanName inBuf (e.i + 1) with
    | .tooLong => some (.leave (-1))
    | .unmatched => some (.leave 0)
    | .name envName i =>
      let (valLen, envVal) ← getEnvVal env envName (zeros (envValueSize + 1)) envValueSize
      if valLen < 0 then some (.leave (-1))
      -- `pos+val_len` is an `int`
      else if intMax < e.pos + valLen then none
      else if bufSize ≤ e.pos + valLen then some (.leave 0)
      else
        let outBuf ← memcpy e.outBuf e.pos envVal valLen.toNat
        some (.next ⟨i, e.pos + valLen.toNat, outBuf⟩)

/-- The loop, at most `fuel` turns of it. -/
def expandLoop (env : Environ) (inBuf : Block) (len bufSize : Int) :
    Nat → Expand → Option (Int × Expand)
  | 0, e => if (e.i : Int) < len ∧ (e.pos : Int) < bufSize then none else some (0, e)
  | fuel + 1, e =>
    if (e.i : Int) < len ∧ (e.pos : Int) < bufSize then do
      match ← expandTurn env inBuf bufSize e with
      | .next e' => expandLoop env inBuf len bufSize fuel e'
      | .leave code => some (code, e)
    else some (0, e)

/-- The return value, and the variables at the return: `OutBuf` holds `pos` new bytes. -/
def expandEnvStr (env : Environ) (inBuf outBuf : Block) (bufSize : Int) :
    Option (Int × Expand) := do
  let len := toInt (← strlen inBuf)
  expandLoop env inBuf len bufSize len.toNat ⟨0, 0, outBuf⟩

end Netepoll
