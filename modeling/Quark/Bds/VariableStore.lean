import Mathlib.Data.List.AList
import Quark.Machine.LittleEndian
import Quark.Base.Efi

/-!
# The UEFI variable store

The boot manager keeps its options in UEFI variables. The variable services are those of the UEFI
specification: a variable is named by a string and a GUID, a variable that is set is found with the
data that it was set to, and setting it to no data deletes it.

Strings are lists of `CHAR16`, without the terminating zero.
-/

namespace Quark.Bds

open Machine

abbrev Char16 := BitVec 16

/-- A string literal `L"…"`. -/
def wide (s : List Char) : List Char16 := s.map fun c => BitVec.ofNat 16 c.toNat

/-- `mHexStr[d]` of the print library. -/
def hexDigit (d : Nat) : Char16 := BitVec.ofNat 16 (if d < 10 then 0x30 + d else 0x41 + (d - 10))

/-- What `%04x` prints for a `UINTN`: its hexadecimal digits, and leading zeros up to four digits. -/
def printHex4 (n : Nat) : List Char16 :=
  let digit := fun k => n / 16 ^ k % 16
  (([7, 6, 5, 4].map digit).dropWhile (· = 0) ++ [3, 2, 1, 0].map digit).map hexDigit

/-- `UnicodeSPrint (Buffer, BufferSize, L"…%04x", n)` into a buffer with room for `room` characters and
a zero. -/
def unicodeSPrint (room : Nat) (text : List Char) (n : Nat) : List Char16 :=
  (wide text ++ printHex4 n).take room

structure VariableId where
  vendorGuid : BitVec 128
  name : List Char16
  deriving DecidableEq, Repr

abbrev gEfiGlobalVariableGuid : BitVec 128 := 0x8BE4DF6193CA11D2AA0D00E098032B8C#128

abbrev VariableStore := AList fun _ : VariableId => List Byte

/-- A variable of the vendor `gEfiGlobalVariableGuid`. -/
def global (name : List Char16) : VariableId := ⟨gEfiGlobalVariableGuid, name⟩

def VariableStore.data (store : VariableStore) (id : VariableId) : List Byte :=
  (store.lookup id).getD []

/-- `EfiBootManagerGetVariableAndSize`. The buffer is `NULL`, and its size 0, if there is no such
variable. -/
def efiBootManagerGetVariableAndSize (name : List Char16) : Exec VariableStore (List Byte) := do
  let store ← .get
  pure (store.data (global name))

/-- `gRT->SetVariable`. -/
def setVariable (id : VariableId) (data : List Byte) : Exec VariableStore EfiStatus := do
  let store ← .get
  if data = [] then do
    if (store.lookup id).isSome then do
      .modify fun store => store.erase id
      pure .success
    else
      pure .notFound
  else do
    .modify fun store => store.insert id data
    pure .success

/-- A value that is only there if no read goes past the end of memory that is mapped. -/
def inBounds {σ α : Type} : Option α → Exec σ α
  | some a => pure a
  | none => .halt .outOfBounds

/-- The array of `UINT16` that a buffer is: a last byte without a partner is not part of it. -/
def uint16s : List Byte → List Nat
  | lo :: hi :: rest => leValue [lo, hi] :: uint16s rest
  | _ => []

end Quark.Bds
