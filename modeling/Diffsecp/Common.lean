import Diffsecp.Secp.Public

/-!
# Common

What several targets do alike: recording a public key, and the loop that
perturbs what a target signed or read.
-/

namespace Diffsecp

open Interact

variable {T : Types} {α : Type}

/-- The serialization of a public key, 33 bytes or 65. -/
def recordPubkey (compressed : Bool) (pk : T.Pubkey) : Harness T Unit := do
  let (_, ser) ← secpKey (.ecPubkeySerialize pk compressed)
  transcriptBytes ser

/-- Both serializations. -/
def recordPubkeyBoth (pk : T.Pubkey) : Harness T Unit := do
  recordPubkey true pk
  recordPubkey false pk

/-- `b[pos % n] ^= mask`. -/
def flipByte {n : Nat} [NeZero n] (b : Bytes n) (pos mask : Nat) : Bytes n :=
  let i := Fin.ofNat n pos
  b.set i.val (b[i] ^^^ UInt8.ofNat mask) i.isLt

/-- `count` mutations, each a kind below `kinds`, a position and a mask. -/
def mutations (kinds : Nat) (mutate : Nat → Nat → Nat → α → α) : Nat → α → Harness T α
  | 0, a => pure a
  | count + 1, a => do
      let which ← readerU8
      let pos ← readerU8
      let mask ← readerU8
      mutations kinds mutate count (mutate (which % kinds) pos mask a)

/-- Up to seven mutations. -/
def mutateUpTo7 (kinds : Nat) (mutate : Nat → Nat → Nat → α → α) (a : α) :
    Harness T α := do
  let nmut ← readerU8
  mutations kinds mutate (nmut % 8) a

/-- `n` arrays of `size` bytes. -/
def readerTakes (size : Nat) : (n : Nat) → Harness T (Vector (Bytes size) n)
  | 0 => pure #v[]
  | n + 1 => do
      let bs ← readerTakes size n
      let b ← readerTake size
      pure (bs.push b)

/-- `size` bytes of a buffer from `start` on. -/
def bytesAt (buf : List UInt8) (start size : Nat) : Bytes size :=
  Vector.ofFn fun i => buf.getD (start + i.val) 0

end Diffsecp
