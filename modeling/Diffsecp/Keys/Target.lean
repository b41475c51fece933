import Diffsecp.Secp.Public

/-!
# Keys — Target

`src/targets/keys.c`: key operations as wallets use them, driven as a
register machine over the public API. Secret keys are plain bytes and any
value is a legal argument, but an invalid pubkey or keypair object is an
illegal one, so a pubkey register that fails an op is emptied and skipped by
the ops that read it.
-/

namespace Diffsecp

open Interact

/-- `KEYS_MAX_OPS`. -/
def keysMaxOps : Nat := 64

inductive KeysOp where
  | seckeyLoad
  | seckeyNegate
  | seckeyTweakAdd
  | seckeyTweakMul
  | pubkeyCreate
  | pubkeyParse
  | pubkeyNegate
  | pubkeyTweakAdd
  | pubkeyTweakMul
  | pubkeyCombine
  | pubkeyCmp
  | pubkeySort
  | keypairTweak
  | xonly
  | ecdh
  deriving DecidableEq, Repr

/-- `KEYS_OP_COUNT`. -/
def keysOpCount : Nat := 15

/-- The cast of `op` to `enum keys_op`; a number at or past `KEYS_OP_COUNT`
has no case of its own. -/
def KeysOp.cast : Nat → KeysOp
  | 0 => .seckeyLoad
  | 1 => .seckeyNegate
  | 2 => .seckeyTweakAdd
  | 3 => .seckeyTweakMul
  | 4 => .pubkeyCreate
  | 5 => .pubkeyParse
  | 6 => .pubkeyNegate
  | 7 => .pubkeyTweakAdd
  | 8 => .pubkeyTweakMul
  | 9 => .pubkeyCombine
  | 10 => .pubkeyCmp
  | 11 => .pubkeySort
  | 12 => .keypairTweak
  | 13 => .xonly
  | _ => .ecdh

variable {T : Types}

structure KeysReg (T : Types) where
  sk : Bytes 32
  pk : T.Pubkey
  pkOk : Int32

abbrev KeysRegs (T : Types) := Fin 4 → KeysReg T

/-- cmp functions only promise the sign of their result. -/
def keysSign (c : Int32) : Int32 := (if 0 < c then 1 else 0) - (if c < 0 then 1 else 0)

def keysRecordPubkey (pk : T.Pubkey) : Harness T Unit := do
  let (_, ser) ← secpKey (.ecPubkeySerialize pk true)
  transcriptBytes ser

def keysRecordPubkeys : List T.Pubkey → Harness T Unit
  | [] => pure ()
  | pk :: pks => do
      keysRecordPubkey pk
      keysRecordPubkeys pks

def keysRecordReg (reg : KeysReg T) : Harness T Unit := do
  transcriptBytes reg.sk.toList
  transcriptInt reg.pkOk
  if reg.pkOk ≠ 0 then keysRecordPubkey reg.pk else pure ()

/-- The tweak: 32 input bytes, or `b`'s secret key with bit 6 of the
selector. -/
def keysTakeTweak (sel : Nat) (b : KeysReg T) : Harness T (Bytes 32) :=
  if sel &&& 64 ≠ 0 then pure b.sk else readerTake 32

/-- A seckey op that fails leaves some unspecified value, so zero it
instead. -/
def keysSeckeyResult (sk : Bytes 32) (ret : Int32) : Harness T (Bytes 32) := do
  transcriptInt ret
  pure (if ret = 0 then zeroBytes 32 else sk)

/-- The raw shared point, to compare more than the default hash. -/
def keysEcdhXy (x32 y32 : Bytes 32) : Option (Bytes 64) := some (x32 ++ y32)

def keysEcdhReject (_x32 _y32 : Bytes 32) : Option (Bytes 32) := none

/-- The default hash, passed as NULL or by name, then the raw point, hashed
again by the exported default outside any context. A hash function that fails
fails the ECDH. -/
def keysEcdh (a b : KeysReg T) (named : Bool) : Harness T Unit := do
  let (ret, hashed) ← secpKey
    (.ecdh a.pk b.sk (if named then .sha256 else .null : EcdhHashFn 32))
  transcriptInt ret
  (if ret ≠ 0 then transcriptBytes hashed.toList else pure ())
  let (ret, xy) ← secpKey (.ecdh a.pk b.sk (.harness keysEcdhXy))
  transcriptInt ret
  (if ret ≠ 0 then do
      transcriptBytes xy.toList
      let (ret, hashed) ← secpKey
        (.ecdhHashFunctionSha256 (xy.extract 0 32) (xy.extract 32 64))
      transcriptInt ret
      transcriptBytes hashed.toList
    else pure ())
  let (ret, _) ← secpKey (.ecdh a.pk b.sk (.harness keysEcdhReject))
  transcriptInt ret

/-- Taproot key-path signing tweaks the keypair; the result lands in `d`. -/
def keysKeypairTweak (d a : KeysReg T) (tweak : Bytes 32) : Harness T (KeysReg T) := do
  let (ret, keypair) ← secpKey (.keypairCreate a.sk)
  transcriptInt ret
  if ret = 0 then
    pure d
  else
    let (_, xonly, parity) ← secpKey (.keypairXonlyPub keypair)
    let (_, ser) ← secpKey (.xonlyPubkeySerialize xonly)
    transcriptInt parity
    transcriptBytes ser.toList
    let (ret, keypair) ← secpKey (.keypairXonlyTweakAdd keypair tweak)
    transcriptInt ret
    if ret ≠ 0 then
      let (_, sk) ← secpKey (.keypairSec keypair)
      let (_, pk) ← secpKey (.keypairPub keypair)
      pure ⟨sk, pk, 1⟩
    else
      pure d

/-- x-only views of `a` and `b`, their order, and `a`'s x-only tweak into
`d`. -/
def keysXonly (d a b : KeysReg T) (tweak : Bytes 32) : Harness T (KeysReg T) :=
  if a.pkOk = 0 then
    pure d
  else do
    let (_, xa, parity) ← secpKey (.xonlyPubkeyFromPubkey a.pk)
    let (_, ser) ← secpKey (.xonlyPubkeySerialize xa)
    transcriptInt parity
    transcriptBytes ser.toList
    (if b.pkOk ≠ 0 then do
        -- its parity is optional
        let (_, xb, _) ← secpKey (.xonlyPubkeyFromPubkey b.pk)
        transcriptInt (keysSign (← secpKey (.xonlyPubkeyCmp xa xb)))
      else pure ())
    let (ret, tweaked) ← secpKey (.xonlyPubkeyTweakAdd xa tweak)
    transcriptInt ret
    pure (if ret ≠ 0 then { d with pk := tweaked, pkOk := 1 } else d)

/-- The pubkeys of the valid registers `pick` holds of. -/
def keysPtrs (reg : KeysRegs T) (pick : Fin 4 → Bool) : List T.Pubkey :=
  ((List.finRange 4).filter fun j => pick j && (reg j).pkOk ≠ 0).map fun j => (reg j).pk

def keysSort (reg : KeysRegs T) : Harness T Unit :=
  let ptrs := keysPtrs reg fun _ => true
  if ptrs.length = 0 then
    pure ()
  else do
    let (ret, ptrs) ← secpKey (.ecPubkeySort ptrs.get)
    transcriptInt ret
    -- equal keys may swap places, so record keys rather than register numbers
    keysRecordPubkeys (List.ofFn ptrs)

/-- The `switch` of `target_keys`: the op builds its result from the copy
`res` of `d`, so `d` may alias `a` or `b`. -/
def keysSwitch (reg : KeysRegs T) (res a b : KeysReg T) (sel : Nat) :
    KeysOp → Harness T (KeysReg T)
  | .seckeyLoad => do
      let sk ← readerTake 32
      transcriptInt (← secpKey (.ecSeckeyVerify sk))
      pure { res with sk := sk }
  | .seckeyNegate => do
      let (ret, sk) ← secpKey (.ecSeckeyNegate a.sk)
      let sk ← keysSeckeyResult sk ret
      pure { res with sk := sk }
  | .seckeyTweakAdd => do
      let tweak ← keysTakeTweak sel b
      let (ret, sk) ← secpKey (.ecSeckeyTweakAdd a.sk tweak)
      let sk ← keysSeckeyResult sk ret
      pure { res with sk := sk }
  | .seckeyTweakMul => do
      let tweak ← readerTake 32
      let (ret, sk) ← secpKey (.ecSeckeyTweakMul a.sk tweak)
      let sk ← keysSeckeyResult sk ret
      pure { res with sk := sk }
  | .pubkeyCreate => do
      let (ret, pk) ← secpKey (.ecPubkeyCreate a.sk)
      pure { res with pk := pk, pkOk := ret }
  | .pubkeyParse => do
      -- 33 or 65 bytes, or with bit 1 any length below 64
      let flags ← readerU8
      let n := if flags &&& 2 ≠ 0 then flags >>> 2 else if flags &&& 1 ≠ 0 then 65 else 33
      let ser ← readerTake n
      let (ret, pk) ← secpKey (.ecPubkeyParse ser.toList)
      pure { res with pk := pk, pkOk := ret }
  | .pubkeyNegate =>
      if a.pkOk ≠ 0 then do
        let (ret, pk) ← secpKey (.ecPubkeyNegate a.pk)
        pure { res with pk := pk, pkOk := ret }
      else
        pure res
  | .pubkeyTweakAdd => do
      let tweak ← keysTakeTweak sel b
      if a.pkOk ≠ 0 then
        let (ret, pk) ← secpKey (.ecPubkeyTweakAdd a.pk tweak)
        pure { res with pk := pk, pkOk := ret }
      else
        pure res
  | .pubkeyTweakMul => do
      let tweak ← readerTake 32
      if a.pkOk ≠ 0 then
        let (ret, pk) ← secpKey (.ecPubkeyTweakMul a.pk tweak)
        pure { res with pk := pk, pkOk := ret }
      else
        pure res
  | .pubkeyCombine => do
      -- sums the valid registers the mask picks; a zero sum fails
      let flags ← readerU8
      let ptrs := keysPtrs reg fun j => (flags >>> j.val) &&& 1 ≠ 0
      if ptrs.length > 0 then
        let (ret, pk) ← secpKey (.ecPubkeyCombine ptrs)
        pure { res with pk := pk, pkOk := ret }
      else
        pure res
  | .pubkeyCmp => do
      (if a.pkOk ≠ 0 ∧ b.pkOk ≠ 0 then do
          transcriptInt (keysSign (← secpKey (.ecPubkeyCmp a.pk b.pk)))
        else pure ())
      pure res
  | .pubkeySort => do
      keysSort reg
      pure res
  | .keypairTweak => do
      let tweak ← readerTake 32
      keysKeypairTweak res a tweak
  | .xonly => do
      let tweak ← readerTake 32
      keysXonly res a b tweak
  | .ecdh => do
      (if a.pkOk ≠ 0 then keysEcdh a b (sel &&& 128 ≠ 0) else pure ())
      pure res

/-- Failed ops leave the object invalid; never pass it on. -/
def keysClear (res : KeysReg T) : KeysReg T :=
  if res.pkOk = 0 then { res with pk := T.zeroPubkey } else res

/-- One round of the loop of `target_keys`. -/
def keysStep (reg : KeysRegs T) : Harness T (KeysRegs T) := do
  let op ← readerU8
  let op := op % keysOpCount
  let sel ← readerU8
  let d := selReg sel 0
  transcriptU8 op
  let res ← keysSwitch reg (reg d) (reg (selReg sel 1)) (reg (selReg sel 2)) sel
    (KeysOp.cast op)
  let reg := Function.update reg d (keysClear res)
  keysRecordReg (reg d)
  pure reg

def keysInit : KeysRegs T := fun _ => ⟨zeroBytes 32, T.zeroPubkey, 0⟩

/-- The first `n` ops of `target_keys`. -/
def keysOps (n : Nat) : Harness T (KeysRegs T) := Prog.loop readerMore keysStep n keysInit

def targetKeys : Harness T (KeysRegs T) := keysOps keysMaxOps

/-- The run of `m + n` ops goes on from where the run of `m` ops ends. -/
theorem run_keysOps_add {σ : Type} (lib : Build T σ) (m n : Nat)
    (r : List UInt8) (s : σ) : (keysOps (m + n)).run reader lib r s =
      (keysOps m >>= Prog.loop readerMore keysStep n).run reader lib r s :=
  Prog.run_loop_add (readerMore_peeks lib) m n keysInit r s

end Diffsecp
