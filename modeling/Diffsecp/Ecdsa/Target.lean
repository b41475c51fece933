import Diffsecp.Common

/-!
# Ecdsa — Target

`src/targets/ecdsa.c`: pubkey parsing, strict and lax DER, low-S
normalization and verification. Signing yields valid signatures that the
mutations then perturb; constructed keys reach what no signer can.
-/

namespace Diffsecp

open Interact

/-! ## The mode byte -/

namespace EcdsaMode

def sign : Nat := 1 <<< 0
def compressed : Nat := 1 <<< 1
/-- Sign with extra nonce data. -/
def ndata : Nat := 1 <<< 2
/-- Without `sign`, construct the key from R. -/
def construct : Nat := 1 <<< 3
/-- DER-encode sig64, so mutations reach the strict parser. -/
def der : Nat := 1 <<< 4
/-- Build a DER encoding from fuzzed integers instead. -/
def derBuild : Nat := 1 <<< 5
/-- With `sign`, sign through `ecdsaNonce`. -/
def nonce : Nat := 1 <<< 6

end EcdsaMode

/-- `enum ecdsa_r`. -/
inductive EcdsaR where
  | infinity
  | fromX
  | aboveOrder
  deriving DecidableEq, Repr

/-- The kind numbered `(kind >> 1) % ECDSA_R_COUNT`. -/
def EcdsaR.cast : Nat → EcdsaR
  | 0 => .infinity
  | 1 => .fromX
  | _ => .aboveOrder

/-- `ECDSA_R_COUNT`. -/
def ecdsaRCount : Nat := 3

variable {T : Types}

/-! ## Building a DER encoding -/

/-- DER length octets for `len`: the short form, unless `longForm` asks for
the long one, which DER forbids below 128. -/
def ecdsaDerLen (len : Nat) (longForm : Bool) : List UInt8 :=
  if len < 128 ∧ longForm = false then [UInt8.ofNat len]
  else if len < 256 then [0x81, UInt8.ofNat len]
  else [0x82, UInt8.ofNat (len >>> 8), UInt8.ofNat len]

/-- Integer `i` of the two. -/
def ecdsaDerInteger (flags i : Nat) : Harness T (List UInt8) := do
  let len ← readerU8
  let bytes ← readerTake len
  pure (0x02 :: ecdsaDerLen len ((flags >>> (1 + i)) &&& 1 ≠ 0) ++ bytes.toList)

/-- A DER signature built from two fuzzed integers of up to 255 bytes. Flags
pick long-form lengths (bit 0 the sequence's, bits 1 and 2 the integers') and
a sequence length short by bits 3-4, or with bit 5 that many input bytes after
the integers, inside the sequence. -/
def ecdsaDerBuild : Harness T (List UInt8) := do
  let flags ← readerU8
  let shortBy := (flags >>> 3) &&& 3
  let int0 ← ecdsaDerInteger flags 0
  let int1 ← ecdsaDerInteger flags 1
  let body := int0 ++ int1
  let (body, shortBy) ← (if flags &&& 32 ≠ 0 then do
      let inside ← readerTake shortBy
      pure (body ++ inside.toList, 0)
    else pure (body, shortBy))
  pure (0x30 :: ecdsaDerLen (body.length - shortBy) (flags &&& 1 ≠ 0) ++ body)

/-! ## Recording -/

def ecdsaRecordPubkey (pk : T.Pubkey) : Harness T Unit := recordPubkeyBoth pk

def ecdsaRecordSig (sig : T.EcdsaSig) : Harness T Unit := do
  let (ret, der, len) ← secpEcdsa (.signatureSerializeDer 72 sig)
  transcriptInt ret
  (if ret ≠ 0 then do
      transcriptBytes der
      -- a byte too small fails, and reports the size it needs
      let (ret, _, len) ← secpEcdsa (.signatureSerializeDer (len - 1) sig)
      transcriptInt ret
      transcriptU32 (UInt32.ofNat len)
    else pure ())
  let (_, compact) ← secpEcdsa (.signatureSerializeCompact sig)
  transcriptBytes compact.toList

/-- Records normalization and, when a pubkey is available, verification. -/
def ecdsaRecordChecks (sig : T.EcdsaSig) (msg : Bytes 32) (pk : Option T.Pubkey) :
    Harness T Unit := do
  ecdsaRecordSig sig
  let (ret, low) ← secpEcdsa (.signatureNormalize true sig)
  transcriptInt ret
  -- without an output, it only tells whether s is high
  let (ret, _) ← secpEcdsa (.signatureNormalize false sig)
  transcriptInt ret
  ecdsaRecordSig low
  match pk with
  | none => pure ()
  | some pk => do
      transcriptInt (← secpEcdsa (.verify sig msg pk))
      transcriptInt (← secpEcdsa (.verify low msg pk))

/-! ## Constructing the key from R -/

/-- The x coordinate of a finite R: for `aboveOrder`, n plus the low 128 bits
of `x32`, which stays below p. -/
def ecdsaRx (kind : EcdsaR) (x32 : Bytes 32) : Harness T (Option T.Fe) :=
  if kind = .aboveOrder then do
    let b32 : Bytes 32 := Vector.ofFn fun i => if i.val < 16 then 0 else x32[i]
    let x ← secpFe (.setB32Mod b32)
    let order ← secpEcdsa .constOrderAsFe
    let x ← secpFe (.add .x .orderAsFe x order)
    let x ← secpFe (.normalizeVar x)
    pure (some x)
  else do
    let (ret, x) ← secpFe (.setB32Limit x32)
    pure (if ret ≠ 0 then some x else none)

/-- R with the r of the signature, which is x(R) mod n unless R is infinity;
`none` where R is not a valid point. -/
def ecdsaRPoint (kind : EcdsaR) (odd : Int32) (x32 : Bytes 32) (r : T.Scalar) :
    Harness T (Option (Gej T × T.Scalar)) :=
  if kind = .infinity then do
    let rj ← secpGroup .gejSetInfinity
    pure (some (rj, r))
  else do
    match ← ecdsaRx kind x32 with
    | none => pure none
    | some x => do
        let (ret, ge) ← secpGroup (.geSetXoVar x odd)
        if ret = 0 then
          pure none
        else do
          let rj ← secpGroup (.gejSetGe ge)
          let b32 ← secpFe (.getB32 x)
          let (r, _) ← secpScalar (.setB32 b32)
          pure (some (rj, r))

/-- Sets `pkser` to P = r^-1 (s*R - z*G), so verifying `sig64` on `msg`
against P recomputes exactly R, and `sig64`'s r to x(R) mod n unless R is
infinity. Returns 0 when R or P is not a valid point, with `pkser` and `sig64`
as they were. -/
def ecdsaConstruct (pkser : List UInt8) (pklen : Nat) (sig64 : Bytes 64) (msg : Bytes 32)
    (kind : EcdsaR) (odd : Int32) (x32 : Bytes 32) :
    Harness T (Int32 × List UInt8 × Bytes 64) := do
  let (r, _) ← secpScalar (.setB32 (sig64.extract 0 32))
  let (s, _) ← secpScalar (.setB32 (sig64.extract 32 64))
  let (z, _) ← secpScalar (.setB32 msg)
  match ← ecdsaRPoint kind odd x32 r with
  | none => pure (0, pkser, sig64)
  | some (rj, r) => do
      -- a zero r has no inverse and makes P infinity
      let rinv ← secpScalar (.inverseVar .rinv .r r)
      let na ← secpScalar (.mul .na .s .rinv s rinv)
      let zr ← secpScalar (.mul .zr .zs .rinv z rinv)
      let ng ← secpScalar (.negate .ng .zr zr)
      let pj ← secpGroup (.ecmult rj na (some ng))
      let inf ← secpGroup (.gejIsInfinity pj)
      if inf ≠ 0 then
        pure (0, pkser, sig64)
      else do
        let (ge, _) ← secpGroup (.geSetGej pj)
        let pk ← secpKey (.pubkeySave ge)
        let (_, pkser) ← secpKey (.ecPubkeySerialize pk (pklen = 33))
        -- reduced, so the signature parses
        let r32 ← secpScalar (.getB32 r)
        let s32 ← secpScalar (.getB32 s)
        pure (1, pkser, r32 ++ s32)

/-! ## Signing through a nonce function -/

namespace EcdsaNonceFlag

/-- Pick `msg` so the first fixed nonce gives s = 0. -/
def zeroS : Nat := 1 <<< 4
/-- RFC6979 attempts pass an algorithm name. -/
def algo : Nat := 1 <<< 5
/-- The exported RFC6979 pointer, which signing treats as the default. -/
def default : Nat := 1 <<< 6

end EcdsaNonceFlag

/-- The first `nFixed` attempts return fuzzed nonces, the attempt numbered
`failAt` fails the signing, and the rest come from the exported RFC6979
function. -/
structure EcdsaNonce where
  fixed : Fin 2 → Bytes 32
  nFixed : Fin 3
  failAt : Nat
  algo16 : Option (Bytes 16)
  ndata : Option (Bytes 32)

def ecdsaNonce (n : EcdsaNonce) (msg32 key32 : Bytes 32) (counter : Nat) :
    Prog NoCall Rfc6979Call UInt8 (Int32 × Bytes 32) :=
  if counter = n.failAt then
    pure (0, zeroBytes 32)
  else if h : counter < n.nFixed then
    pure (1, n.fixed ⟨counter, by omega⟩)
  else
    Prog.invoke (.nonceFunctionRfc6979 msg32 key32 n.algo16 n.ndata counter)

/-- `"diffsecp/ecdsa16"`. -/
def ecdsaAlgo16 : Bytes 16 :=
  #v[0x64, 0x69, 0x66, 0x66, 0x73, 0x65, 0x63, 0x70, 0x2f, 0x65, 0x63, 0x64, 0x73,
    0x61, 0x31, 0x36]

/-- Sets the message to -r*d for r = x(k*G) mod n, so signing with nonce k
computes s = k^-1 (msg + r*d) = 0 and must retry. -/
def ecdsaZeroS (msg seckey k32 : Bytes 32) : Harness T (Int32 × Bytes 32) := do
  let (ret, kg) ← secpKey (.ecPubkeyCreate k32)
  if ret = 0 then
    pure (0, msg)
  else do
    let (_, ser) ← secpKey (.ecPubkeySerialize kg true)
    let (r, _) ← secpScalar (.setB32 (bytesAt ser 1 32))
    let (d, _) ← secpScalar (.setB32 seckey)
    let r ← secpScalar (.mul .r .r .d r d)
    let r ← secpScalar (.negate .r .r r)
    let msg ← secpScalar (.getB32 r)
    pure (1, msg)

/-- The configuration in a flags byte: bits 0-1 the number of fixed nonces,
bits 2-3 the attempt that fails, then `EcdsaNonceFlag`. -/
def ecdsaNonceOf (flags : Nat) (fixed0 fixed1 : Bytes 32) (ndata : Option (Bytes 32)) :
    EcdsaNonce where
  fixed i := if i = 0 then fixed0 else fixed1
  nFixed := Fin.ofNat 3 (flags &&& 3)
  failAt := (flags >>> 2) &&& 3
  algo16 := if flags &&& EcdsaNonceFlag.algo ≠ 0 then some ecdsaAlgo16 else none
  ndata := ndata

/-- Signs through `ecdsaNonce`, or through the exported RFC6979 pointer; the
message may change. -/
def ecdsaSignNonce (msg seckey : Bytes 32) (ndata : Option (Bytes 32)) :
    Harness T (Int32 × T.EcdsaSig × Bytes 32) := do
  let flags ← readerU8
  let fixed0 ← readerTake 32
  let fixed1 ← readerTake 32
  if flags &&& EcdsaNonceFlag.default ≠ 0 then do
    let (ok, sig) ← secpEcdsa (.sign msg seckey (.rfc6979 ndata))
    pure (ok, sig, msg)
  else do
    let n := ecdsaNonceOf flags fixed0 fixed1 ndata
    let msg ← (if flags &&& EcdsaNonceFlag.zeroS ≠ 0 then do
        let (ret, msg) ← ecdsaZeroS msg seckey fixed0
        transcriptInt ret
        pure msg
      else pure msg)
    let (ok, sig) ← secpEcdsa (.sign msg seckey (.harness (ecdsaNonce n)))
    pure (ok, sig, msg)

/-! ## The target -/

/-- The buffers the mutations work on. `pkser` holds `pklen` bytes and `der`
`derlen`. -/
structure EcdsaBuffers where
  msg : Bytes 32
  pkser : List UInt8
  sig64 : Bytes 64
  der : List UInt8

/-- With `sign`: a key, and where it is valid a signature of it. -/
def ecdsaSignInput (mode : Nat) (st : EcdsaBuffers) : Harness T EcdsaBuffers := do
  let seckey ← readerTake 32
  let (ok, pk) ← secpKey (.ecPubkeyCreate seckey)
  transcriptInt ok
  if ok = 0 then
    pure st
  else do
    let (_, pkser) ← secpKey (.ecPubkeySerialize pk (mode &&& EcdsaMode.compressed ≠ 0))
    let ndata ← (if mode &&& EcdsaMode.ndata ≠ 0 then do
        let ndata ← readerTake 32
        pure (some ndata)
      else pure none)
    let (ok, sig, msg) ← (if mode &&& EcdsaMode.nonce ≠ 0 then
        ecdsaSignNonce st.msg seckey ndata
      else do
        let (ok, sig) ← secpEcdsa (.sign st.msg seckey (.null ndata))
        pure (ok, sig, st.msg))
    transcriptInt ok
    if ok = 0 then
      pure { st with msg := msg, pkser := pkser }
    else do
      let (_, sig64) ← secpEcdsa (.signatureSerializeCompact sig)
      transcriptBytes sig64.toList
      pure { st with msg := msg, pkser := pkser, sig64 := sig64 }

/-- The length of the serialized key. -/
def ecdsaPklen (mode : Nat) : Nat := if mode &&& EcdsaMode.compressed ≠ 0 then 33 else 65

/-- The key and the signature, by one of the three ways. -/
def ecdsaInput (mode : Nat) : Harness T EcdsaBuffers := do
  let msg ← readerTake 32
  let pklen := ecdsaPklen mode
  let st : EcdsaBuffers := ⟨msg, List.replicate pklen 0, zeroBytes 64, []⟩
  if mode &&& EcdsaMode.sign ≠ 0 then
    ecdsaSignInput mode st
  else if mode &&& EcdsaMode.construct ≠ 0 then do
    let kind ← readerU8
    let x32 ← readerTake 32
    let sig64 ← readerTake 64
    let (ret, pkser, sig64) ← ecdsaConstruct st.pkser pklen sig64 msg
      (EcdsaR.cast ((kind >>> 1) % ecdsaRCount)) (Int32.ofNat (kind &&& 1)) x32
    transcriptInt ret
    pure { st with pkser := pkser, sig64 := sig64 }
  else do
    let pkser ← readerTake pklen
    let sig64 ← readerTake 64
    pure { st with pkser := pkser.toList, sig64 := sig64 }

/-- `ECDSA_DER_MAX`. -/
def ecdsaDerMax : Nat := 4 + 2 * (3 + 255) + 3 + 8 + inputMax

/-- The encoding the mutations start from: a built one, `sig64`'s, or none. -/
def ecdsaEncode (mode : Nat) (st : EcdsaBuffers) : Harness T EcdsaBuffers :=
  if mode &&& EcdsaMode.derBuild ≠ 0 then do
    let der ← ecdsaDerBuild
    pure { st with der := der }
  else if mode &&& EcdsaMode.der ≠ 0 then do
    let (ret, sig) ← secpEcdsa (.signatureParseCompact st.sig64)
    if ret ≠ 0 then do
      let (ret, der, _) ← secpEcdsa (.signatureSerializeDer ecdsaDerMax sig)
      transcriptInt ret
      pure { st with der := der }
    else pure st
  else pure st

/-- One mutation. Inserting reaches padding and long-form lengths, which XOR
cannot. -/
def ecdsaMutate (which pos mask : Nat) (st : EcdsaBuffers) : EcdsaBuffers :=
  match which with
  | 0 => { st with sig64 := flipByte st.sig64 pos mask }
  | 1 => { st with msg := flipByte st.msg pos mask }
  | 2 => { st with
        pkser := st.pkser.modify (pos % st.pkser.length) (· ^^^ UInt8.ofNat mask) }
  | 3 =>
      if st.der.length > 0 then
        { st with der := st.der.modify (pos % st.der.length) (· ^^^ UInt8.ofNat mask) }
      else st
  | _ =>
      { st with der := st.der.insertIdx (pos % (st.der.length + 1)) (UInt8.ofNat mask) }

/-- Trailing bytes, or the whole encoding outside DER mode. -/
def ecdsaTail (st : EcdsaBuffers) : Harness T EcdsaBuffers := do
  let tail ← readerLeft
  let rest ← readerTake tail
  pure { st with der := st.der ++ rest.toList }

/-- A parsed signature is checked. -/
def ecdsaRecordParsed (q : EcdsaCall T (Int32 × T.EcdsaSig)) (msg : Bytes 32)
    (pk : Option T.Pubkey) :
    Harness T Unit := do
  let (ok, sig) ← secpEcdsa q
  transcriptInt ok
  if ok ≠ 0 then ecdsaRecordChecks sig msg pk else pure ()

/-- The key, and the signature by each of the three parsers. -/
def ecdsaRecord (st : EcdsaBuffers) : Harness T Unit := do
  let (pkOk, pk) ← secpKey (.ecPubkeyParse st.pkser)
  transcriptInt pkOk
  (if pkOk ≠ 0 then ecdsaRecordPubkey pk else pure ())
  let pk := if pkOk ≠ 0 then some pk else none
  ecdsaRecordParsed (.signatureParseCompact st.sig64) st.msg pk
  ecdsaRecordParsed (.signatureParseDer st.der) st.msg pk
  ecdsaRecordParsed (.signatureParseDerLax st.der) st.msg pk

def targetEcdsa : Harness T Unit := do
  let mode ← readerU8
  let st ← ecdsaInput mode
  let st ← ecdsaEncode mode st
  let st ← mutateUpTo7 5 ecdsaMutate st
  let st ← ecdsaTail st
  ecdsaRecord st

end Diffsecp
