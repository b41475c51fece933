import Diffsecp.Buffer
import Diffsecp.Ecdsa.Target
import Diffsecp.Interact.Checked
import Diffsecp.Interact.Structure

/-!
# Ecdsa — Buffer

`target_ecdsa` on the arrays C gives it: `der`, and the `body` of a built
encoding, without contents at first and with every access checked. The
checked program is never stopped, and does what `targetEcdsa` does on lists.
-/

namespace Diffsecp

open Interact

variable {T : Types}

/-- A program of the harness that is stopped at an access outside an array,
a load of a byte never stored, or a size below zero. -/
abbrev CheckedHarness (T : Types) := Checked ReaderOp (LibCall T) UInt8

/-- `a - b` of sizes, which must not wrap around. -/
def sizeSub? (a b : ℕ) : Option ℕ := if b ≤ a then some (a - b) else none

/-! ## Building a DER encoding -/

/-- `reader_take` of `n` bytes into an array at `i`. -/
def readerTakeInto {m : ℕ} (b : Buf UInt8 m) (i n : ℕ) :
    CheckedHarness T (Buf UInt8 m) := do
  let bytes ← Checked.step (readerTake n)
  Checked.check (b.storeList? i bytes.toList)

/-- `ecdsa_der_len` writing at `out`, with the number of octets. -/
def ecdsaDerLenInto {m : ℕ} (b : Buf UInt8 m) (out len : ℕ) (longForm : Bool) :
    Option (Buf UInt8 m × ℕ) :=
  if len < 128 ∧ longForm = false then do
    let b ← b.store? out (UInt8.ofNat len)
    pure (b, 1)
  else if len < 256 then do
    let b ← b.store? out 0x81
    let b ← b.store? (out + 1) (UInt8.ofNat len)
    pure (b, 2)
  else do
    let b ← b.store? out 0x82
    let b ← b.store? (out + 1) (UInt8.ofNat (len >>> 8))
    let b ← b.store? (out + 2) (UInt8.ofNat len)
    pure (b, 3)

/-- Integer `i` of the two, from `body + n` on. -/
def ecdsaDerIntegerInto {m : ℕ} (flags i : ℕ) (body : Buf UInt8 m) (n : ℕ) :
    CheckedHarness T (Buf UInt8 m × ℕ) := do
  let len ← Checked.step readerU8
  let body ← Checked.check (body.store? n 0x02)
  let n := n + 1
  let (body, octets) ← Checked.check
    (ecdsaDerLenInto body n len ((flags >>> (1 + i)) &&& 1 ≠ 0))
  let n := n + octets
  let body ← readerTakeInto body n len
  pure (body, n + len)

/-- The size of `body`. -/
def ecdsaBodySize : ℕ := 2 * (3 + 255) + 3

/-- The sequence around the first `n` bytes of `body`, its length short by
`shortBy`. -/
def ecdsaDerSequenceInto (flags : ℕ) (der : Buf UInt8 ecdsaDerMax)
    (body : Buf UInt8 ecdsaBodySize) (n shortBy : ℕ) :
    CheckedHarness T (Buf UInt8 ecdsaDerMax × ℕ) := do
  let der ← Checked.check (der.store? 0 0x30)
  let len ← Checked.check (sizeSub? n shortBy)
  let (der, octets) ← Checked.check (ecdsaDerLenInto der 1 len (flags &&& 1 ≠ 0))
  let pos := 1 + octets
  let bytes ← Checked.check (body.loadList? 0 n)
  let der ← Checked.check (der.storeList? pos bytes)
  pure (der, pos + n)

/-- `ecdsa_der_build`, with the length it returns. -/
def ecdsaDerBuildInto (der : Buf UInt8 ecdsaDerMax) :
    CheckedHarness T (Buf UInt8 ecdsaDerMax × ℕ) := do
  let flags ← Checked.step readerU8
  let body : Buf UInt8 ecdsaBodySize := Buf.uninit _
  let shortBy := (flags >>> 3) &&& 3
  let (body, n) ← ecdsaDerIntegerInto flags 0 body 0
  let (body, n) ← ecdsaDerIntegerInto flags 1 body n
  let (body, n, shortBy) ← (if flags &&& 32 ≠ 0 then do
      let body ← readerTakeInto body n shortBy
      pure (body, n + shortBy, 0)
    else pure (body, n, shortBy))
  ecdsaDerSequenceInto flags der body n shortBy

/-! ## The target -/

/-- The arrays the mutations work on, and how much of `der` is written. -/
structure EcdsaMemory where
  msg : Bytes 32
  pkser : List UInt8
  sig64 : Bytes 64
  der : Buf UInt8 ecdsaDerMax
  derlen : ℕ

/-- The key and the signature; nothing is written to `der` yet. -/
def ecdsaInputInto (mode : ℕ) : CheckedHarness T EcdsaMemory := do
  let st ← Checked.step (ecdsaInput mode)
  pure ⟨st.msg, st.pkser, st.sig64, Buf.uninit _, 0⟩

/-- The encoding the mutations start from. `signature_serialize_der` writes
at the start of `der` and leaves in `derlen` the length it reports. -/
def ecdsaEncodeInto (mode : ℕ) (m : EcdsaMemory) : CheckedHarness T EcdsaMemory :=
  if mode &&& EcdsaMode.derBuild ≠ 0 then do
    let (der, derlen) ← ecdsaDerBuildInto m.der
    pure { m with der := der, derlen := derlen }
  else if mode &&& EcdsaMode.der ≠ 0 then do
    let (ret, sig) ← Checked.step (secpEcdsa (.signatureParseCompact m.sig64))
    if ret ≠ 0 then do
      let (ret, bytes, len) ← Checked.step
        (secpEcdsa (.signatureSerializeDer ecdsaDerMax sig))
      let der ← Checked.check (m.der.storeList? 0 bytes)
      Checked.step (transcriptInt ret)
      pure { m with der := der, derlen := len }
    else pure m
  else pure m

/-- One mutation: a byte of `der` is loaded and stored back, or room is made
for a new one by `memmove`. -/
def ecdsaMutateInto (which pos mask : ℕ) (m : EcdsaMemory) : Option EcdsaMemory :=
  match which with
  | 0 => some { m with sig64 := flipByte m.sig64 pos mask }
  | 1 => some { m with msg := flipByte m.msg pos mask }
  | 2 => some { m with
        pkser := m.pkser.modify (pos % m.pkser.length) (· ^^^ UInt8.ofNat mask) }
  | 3 =>
      if m.derlen > 0 then do
        let byte ← m.der.load? (pos % m.derlen)
        let der ← m.der.store? (pos % m.derlen) (byte ^^^ UInt8.ofNat mask)
        pure { m with der := der }
      else some m
  | _ => do
      let pos := pos % (m.derlen + 1)
      let count ← sizeSub? m.derlen pos
      let der ← m.der.moveList? (pos + 1) pos count
      let der ← der.store? pos (UInt8.ofNat mask)
      pure { m with der := der, derlen := m.derlen + 1 }

def ecdsaMutationsInto : ℕ → EcdsaMemory → CheckedHarness T EcdsaMemory
  | 0, m => pure m
  | count + 1, m => do
      let which ← Checked.step readerU8
      let pos ← Checked.step readerU8
      let mask ← Checked.step readerU8
      let m ← Checked.check (ecdsaMutateInto (which % 5) pos mask m)
      ecdsaMutationsInto count m

/-- Trailing bytes, or the whole encoding outside DER mode. -/
def ecdsaTailInto (m : EcdsaMemory) : CheckedHarness T EcdsaMemory := do
  let tail ← Checked.step readerLeft
  let der ← readerTakeInto m.der m.derlen tail
  pure { m with der := der, derlen := m.derlen + tail }

/-- Both parsers are given the first `derlen` bytes of `der`, which nothing
writes any more. -/
def ecdsaRecordFrom (m : EcdsaMemory) : CheckedHarness T Unit := do
  let der ← Checked.check (m.der.loadList? 0 m.derlen)
  Checked.step (ecdsaRecord ⟨m.msg, m.pkser, m.sig64, der⟩)

/-- `target_ecdsa` on its arrays. -/
def targetEcdsaChecked : CheckedHarness T Unit := do
  let mode ← Checked.step readerU8
  let m ← ecdsaInputInto mode
  let m ← ecdsaEncodeInto mode m
  let nmut ← Checked.step readerU8
  let m ← ecdsaMutationsInto (nmut % 8) m
  let m ← ecdsaTailInto m
  ecdsaRecordFrom m

end Diffsecp
