import Diffsecp.Common

/-!
# Ellswift — Target

`src/targets/ellswift.c`: ElligatorSwift decoding, encoding and the x-only
ECDH both peers run. Flags pick the expensive steps.
-/

namespace Diffsecp

open Interact

namespace EllswiftFlag

/-- Party 0 creates its encoding with auxrnd. -/
def aux0 : Nat := 1 <<< 0
def aux1 : Nat := 1 <<< 1
/-- The responder sends the fuzzed encoding instead. -/
def fuzzPeer : Nat := 1 <<< 2
/-- Re-encode the fuzzed encoding's point with rnd. -/
def encode : Nat := 1 <<< 3
/-- Hash with the fuzzed prefix instead of the BIP324 tag. -/
def fuzzPrefix : Nat := 1 <<< 4
/-- Also derive the bare shared x (`ellswiftRawX`). -/
def raw : Nat := 1 <<< 5
/-- Invert an x for a chosen u (`ellswiftInv`). -/
def inv : Nat := 1 <<< 6

end EllswiftFlag

/-- Where `ellswiftInv` takes x and u from. -/
inductive EllswiftInvKind where
  /-- The fuzzed encoding's x and a fuzzed u. -/
  | fuzzed
  /-- s = x - u is zero, so r is too. -/
  | uIsX
  /-- x = u + s for the nonzero s that zeroes r (`ellswiftXRZero`). -/
  | rZero
  deriving DecidableEq, Repr

/-- `ELLSWIFT_INV_KINDS`. -/
def ellswiftInvKinds : Nat := 3

/-- The kind numbered `(mode >> 3) % ELLSWIFT_INV_KINDS`. -/
def EllswiftInvKind.cast : Nat → EllswiftInvKind
  | 1 => .uIsX
  | 2 => .rZero
  | _ => .fuzzed

variable {T : Types}

/-- A custom hash function that returns the shared x itself. -/
def ellswiftXdhRaw (x32 : Bytes 32) (_ellA64 _ellB64 : Bytes 64) :
    Option (Bytes 32) := some x32

/-- Party 0's bare shared x, through a custom hash function, then hashed by
the exported `hashfp` outside any context. -/
def ellswiftRawX (ellA64 ellB64 : Bytes 64) (seckey : Bytes 32)
    (hashfp : EllswiftXdhHashFn) (data : Bytes 64) : Harness T Unit := do
  let (ret, x) ← secpEllswift (.xdh ellA64 ellB64 seckey 0 (.harness ellswiftXdhRaw) none)
  transcriptInt ret
  if ret ≠ 0 then do
    transcriptBytes x.toList
    let (ret, shared) ← secpEllswift (.xdhHashFunction hashfp x ellA64 ellB64 (some data))
    transcriptInt ret
    transcriptBytes shared.toList
  else pure ()

/-- `SECP256K1_B`. -/
def secpB : Int := 7

/-- x = u + s for s = -4(u^3 + 7)/(3u^2), which zeroes
r = sqrt(-s(4(u^3 + 7) + 3u^2 s)). Half the time x is not on the curve. -/
def ellswiftXRZero (u : T.Fe) : Harness T T.Fe := do
  let u2 ← secpFe (.sqr .u2 .u u)
  let num ← secpFe (.mul .num .u2 .u u2 u)
  let num ← secpFe (.addInt num secpB)
  let num ← secpFe (.mulIntUnchecked num 4)
  let den ← secpFe (.mulIntUnchecked u2 3)
  let den ← secpFe (.invVar .den .den den)
  let x ← secpFe (.mul .x .num .den num den)
  let x ← secpFe (.negateUnchecked .x .x x 1)
  let x ← secpFe (.add .x .u x u)
  secpFe (.normalizeVar x)

/-- The encoder's inverse map, called directly for a chosen u. -/
def ellswiftInv (mode : Nat) (u32 : Bytes 32) (pk : T.Pubkey) : Harness T Unit := do
  let u ← secpFe (.setB32Mod u32)
  let zero ← secpFe (.normalizesToZeroVar u)
  -- the inverse is undefined for u = 0
  let u ← (if zero ≠ 0 then secpFe (.setInt 1) else pure u)
  let (_, p) ← secpKey (.pubkeyLoad pk)
  let x := p.x
  let (x, u) ← (match EllswiftInvKind.cast ((mode >>> 3) % ellswiftInvKinds) with
    | .uIsX => pure (x, x)
    | .rZero => do
        let x ← ellswiftXRZero u
        pure (x, u)
    | .fuzzed => pure (x, u))
  let ret ← secpGroup (.geXOnCurveVar x)
  transcriptInt ret
  if ret = 0 then
    pure ()
  else do
    let (ret, res) ← secpEllswift (.xswiftecInvVar x u (Int32.ofNat (mode &&& 7)))
    transcriptInt ret
    if ret ≠ 0 then do
      let res ← secpFe (.normalizeVar res)
      let b32 ← secpFe (.getB32 res)
      transcriptBytes b32.toList
    else pure ()

def ellswiftRecordPubkey (pk : T.Pubkey) : Harness T Unit := recordPubkey true pk

/-- The party's own encoding, or `fallback` if its key is invalid. -/
def ellswiftOwnEncoding (seckey : Bytes 32) (aux : Option (Bytes 32))
    (fallback : Bytes 64) :
    Harness T (Bytes 64) := do
  let (ret, ell64) ← secpEllswift (.create seckey aux)
  transcriptInt ret
  if ret ≠ 0 then do
    transcriptBytes ell64.toList
    pure ell64
  else
    pure fallback

/-- A party's session secret. -/
def ellswiftSecret (ellA64 ellB64 : Bytes 64) (seckey : Bytes 32) (party : Int32)
    (hashfp : EllswiftXdhHashFn) (data : Bytes 64) : Harness T Unit := do
  let (ret, shared) ← secpEllswift (.xdh ellA64 ellB64 seckey party hashfp (some data))
  transcriptInt ret
  if ret ≠ 0 then transcriptBytes shared.toList else pure ()

def targetEllswift : Harness T Unit := do
  let flags ← readerU8
  let ell ← readerTake 64
  let rnd ← readerTake 32
  let seckey0 ← readerTake 32
  let aux0 ← readerTake 32
  let seckey1 ← readerTake 32
  let aux1 ← readerTake 32
  let data ← readerTake 64
  let invMode ← readerU8
  let invU ← readerTake 32
  -- every 64-byte string decodes to a point
  let (ret, pk) ← secpEllswift (.decode ell)
  transcriptInt ret
  ellswiftRecordPubkey pk
  (if flags &&& EllswiftFlag.inv ≠ 0 then ellswiftInv invMode invU pk else pure ())
  (if flags &&& EllswiftFlag.encode ≠ 0 then do
      let (ret, ours0) ← secpEllswift (.encode pk rnd)
      transcriptInt ret
      transcriptBytes ours0.toList
      let (ret, pk) ← secpEllswift (.decode ours0)
      transcriptInt ret
      ellswiftRecordPubkey pk
    else pure ())
  let ours0 ← ellswiftOwnEncoding seckey0
    (if flags &&& EllswiftFlag.aux0 ≠ 0 then some aux0 else none) ell
  let ours1 ← (if flags &&& EllswiftFlag.fuzzPeer ≠ 0 then
      pure ell
    else
      ellswiftOwnEncoding seckey1
        (if flags &&& EllswiftFlag.aux1 ≠ 0 then some aux1 else none) ell)
  -- both peers derive the session secret; with honest encodings they agree
  let hashfp : EllswiftXdhHashFn :=
    if flags &&& EllswiftFlag.fuzzPrefix ≠ 0 then .xdhPrefix else .xdhBip324
  ellswiftSecret ours0 ours1 seckey0 0 hashfp data
  ellswiftSecret ours0 ours1 seckey1 1 hashfp data
  if flags &&& EllswiftFlag.raw ≠ 0 then ellswiftRawX ours0 ours1 seckey0 hashfp data
    else pure ()

end Diffsecp
