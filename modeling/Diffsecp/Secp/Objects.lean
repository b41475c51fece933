import Diffsecp.Interact.History
import Diffsecp.Secp.Public

/-!
# Secp — Objects

The opaque objects that pass between a target and libsecp: which a call is
handed, and which it gives when it succeeds. The API checks their magic, so
handing it one that no successful call gave is an illegal argument.
-/

namespace Diffsecp

open Interact

inductive LibObject (T : Types) where
  | pubkey (pk : T.Pubkey)
  | xonly (pk : T.XonlyPubkey)
  | keypair (kp : T.Keypair)
  | keyaggCache (cache : T.KeyaggCache)
  | secnonce (slot : Fin 3) (nonce : T.Secnonce)
  | pubnonce (nonce : T.Pubnonce)
  | aggnonce (nonce : T.Aggnonce)
  | session (session : T.Session)
  | partialSig (sig : T.PartialSig)
  | label (label : T.SpLabel)
  | summary (summary : T.SpSummary)

variable {T : Types}

/-- What a call that answers `ret` gives: nothing when it fails. -/
def ifOk (ret : Int32) (xs : List (LibObject T)) : List (LibObject T) :=
  if ret ≠ 0 then xs else []

theorem mem_ifOk {ret : Int32} {xs : List (LibObject T)} {x : LibObject T} :
    x ∈ ifOk ret xs ↔ ret ≠ 0 ∧ x ∈ xs := by
  rw [ifOk]
  split
  · simp_all
  · simp_all

theorem mem_ifOk_self {ret : Int32} (h : ret ≠ 0) (x : LibObject T) : x ∈ ifOk ret [x] :=
  mem_ifOk.mpr ⟨h, List.mem_singleton.mpr rfl⟩

theorem mem_ifOk_one (x : LibObject T) : x ∈ ifOk 1 [x] := mem_ifOk_self (by decide) x

/-! ## The objects a call is handed -/

def KeyCall.handed {β : Type} : KeyCall T β → List (LibObject T)
  | .ecPubkeySerialize pk _ | .ecPubkeyNegate pk | .ecPubkeyTweakAdd pk _
  | .ecPubkeyTweakMul pk _
  | .xonlyPubkeyFromPubkey pk | .ecdh pk _ _ | .pubkeyLoad pk => [.pubkey pk]
  | .ecPubkeyCombine ins => ins.map .pubkey
  | .ecPubkeyCmp pk0 pk1 => [.pubkey pk0, .pubkey pk1]
  | .ecPubkeySort pks => List.ofFn fun i => .pubkey (pks i)
  | .keypairSec kp | .keypairPub kp | .keypairXonlyPub kp | .keypairXonlyTweakAdd kp _ =>
      [.keypair kp]
  | .xonlyPubkeySerialize pk | .xonlyPubkeyTweakAdd pk _
  | .xonlyPubkeyTweakAddCheck _ _ pk _ => [.xonly pk]
  | .xonlyPubkeyCmp pk1 pk2 => [.xonly pk1, .xonly pk2]
  | _ => []

def SchnorrsigCall.handed {β : Type} : SchnorrsigCall T β → List (LibObject T)
  | .sign32 _ kp _ | .signCustom _ kp _ => [.keypair kp]
  | .verify _ _ pk => [.xonly pk]

def MusigCall.handed {β : Type} : MusigCall T β → List (LibObject T)
  | .pubkeyAgg _ pks => pks.map .pubkey
  | .pubkeyGet cache | .pubkeyEcTweakAdd _ cache _ | .pubkeyXonlyTweakAdd _ cache _
  | .keyaggCacheLoad cache => [.keyaggCache cache]
  | .nonceGen _ _ _ pk _ cache _ => .pubkey pk :: cache.toList.map .keyaggCache
  | .nonceGenCounter _ _ kp _ cache _ => .keypair kp :: cache.toList.map .keyaggCache
  | .pubnonceSerialize nonce => [.pubnonce nonce]
  | .nonceAgg nonces => nonces.map .pubnonce
  | .aggnonceSerialize nonce => [.aggnonce nonce]
  | .nonceProcess nonce _ cache => [.aggnonce nonce, .keyaggCache cache]
  | .partialSign slot secnonce kp cache session =>
      [.secnonce slot secnonce, .keypair kp, .keyaggCache cache, .session session]
  | .partialSigSerialize sig => [.partialSig sig]
  | .partialSigVerify sig nonce pk cache session =>
      [.partialSig sig, .pubnonce nonce, .pubkey pk, .keyaggCache cache, .session session]
  | .partialSigAgg session sigs => .session session :: sigs.map .partialSig
  | _ => []

def SpCall.handed {β : Type} : SpCall T β → List (LibObject T)
  | .recipientLabelSerialize label => [.label label]
  | .recipientCreateLabeledSpendPubkey pk label => [.pubkey pk, .label label]
  | .senderCreateOutputs recipients _ kps _ =>
      (List.ofFn fun i => .pubkey (recipients i).scanPubkey) ++
        (List.ofFn fun i => .pubkey (recipients i).spendPubkey) ++ kps.map .keypair
  | .recipientPrevoutsSummaryCreate _ xonly pks => xonly.map .xonly ++ pks.map .pubkey
  | .recipientScanOutputs tx _ summary pk _ =>
      tx.map .xonly ++ [.summary summary, .pubkey pk]
  | _ => []

/-- Of the modules that the two protocols use. -/
def LibCall.handed {β : Type} : LibCall T β → List (LibObject T)
  | .key q => q.handed
  | .schnorrsig q => q.handed
  | .musig q => q.handed
  | .sp q => q.handed
  | _ => []

/-! ## The objects a call gives -/

def KeyCall.given : {β : Type} → KeyCall T β → β → List (LibObject T)
  | _, .ecPubkeyCreate _, (ret, pk) | _, .ecPubkeyParse _, (ret, pk)
  | _, .ecPubkeyNegate _, (ret, pk)
  | _, .ecPubkeyTweakAdd _ _, (ret, pk) | _, .ecPubkeyTweakMul _ _, (ret, pk)
  | _, .ecPubkeyCombine _, (ret, pk)
  | _, .keypairPub _, (ret, pk) | _, .xonlyPubkeyTweakAdd _ _, (ret, pk) =>
      ifOk ret [.pubkey pk]
  | _, .keypairCreate _, (ret, kp) | _, .keypairXonlyTweakAdd _ _, (ret, kp) =>
      ifOk ret [.keypair kp]
  | _, .keypairXonlyPub _, (ret, pk, _) | _, .xonlyPubkeyFromPubkey _, (ret, pk, _) =>
      ifOk ret [.xonly pk]
  | _, .xonlyPubkeyParse _, (ret, pk) => ifOk ret [.xonly pk]
  | _, _, _ => []

def MusigCall.given : {β : Type} → MusigCall T β → β → List (LibObject T)
  | _, .pubkeyAgg true _, (ret, pk, cache) => ifOk ret [.xonly pk, .keyaggCache cache]
  | _, .pubkeyGet _, (ret, pk) => ifOk ret [.pubkey pk]
  | _, .pubkeyEcTweakAdd output _ _, (ret, pk, cache)
  | _, .pubkeyXonlyTweakAdd output _ _, (ret, pk, cache) =>
      ifOk ret (.keyaggCache cache :: if output then [.pubkey pk] else [])
  | _, .nonceGen slot _ _ _ _ _ _, (ret, secnonce, pubnonce)
  | _, .nonceGenCounter slot _ _ _ _ _, (ret, secnonce, pubnonce) =>
      ifOk ret [.secnonce slot secnonce, .pubnonce pubnonce]
  | _, .pubnonceParse _, (ret, nonce) => ifOk ret [.pubnonce nonce]
  | _, .nonceAgg _, (ret, nonce) | _, .aggnonceParse _, (ret, nonce) =>
      ifOk ret [.aggnonce nonce]
  | _, .nonceProcess _ _ _, (ret, session) => ifOk ret [.session session]
  | _, .partialSign _ _ _ _ _, (ret, sig, _) => ifOk ret [.partialSig sig]
  | _, .partialSigParse _, (ret, sig) => ifOk ret [.partialSig sig]
  | _, _, _ => []

/-- An output found gives its label when it was found with one. -/
def SpFoundOutput.given (found : SpFoundOutput T) : List (LibObject T) :=
  .xonly found.output :: if found.foundWithLabel ≠ 0 then [.label found.label] else []

def SpCall.given : {β : Type} → SpCall T β → β → List (LibObject T)
  | _, .recipientLabelCreate _ _, (ret, label, _) => ifOk ret [.label label]
  | _, .recipientLabelParse _, (ret, label) => ifOk ret [.label label]
  | _, .recipientCreateLabeledSpendPubkey _ _, (ret, pk) => ifOk ret [.pubkey pk]
  | _, .senderCreateOutputs _ _ _ _, (ret, outputs) =>
      ifOk ret (List.ofFn fun i => .xonly (outputs i))
  | _, .recipientPrevoutsSummaryCreate _ _ _, (ret, summary) =>
      ifOk ret [.summary summary]
  | _, .recipientScanOutputs _ _ _ _ _, (ret, nFound, found) =>
      ifOk ret ((List.range nFound.toNat).flatMap fun i => (found i).given)
  | _, _, _ => []

def libGiven (e : Event (LibCall T)) : List (LibObject T) :=
  match e with
  | ⟨.key q, a⟩ => q.given a
  | ⟨.musig q, a⟩ => q.given a
  | ⟨.sp q, a⟩ => q.given a
  | _ => []

/-! ## Rules -/

section Rules

variable {α : Type} {req : List (Event (LibCall T)) → {β : Type} → LibCall T β → Prop}
  {spec : List (Event (LibCall T)) → {β : Type} → LibCall T β → β → Prop}
  {g : List (Event (LibCall T))}
  {P : α → List (Event (LibCall T)) → Prop}

theorem keeps_readerTake {n : ℕ} {f : Bytes n → Harness T α}
    (h : ∀ b, Keeps reader req spec (f b) g P) :
    Keeps reader req spec (readerTake n >>= f) g P := Keeps.ask_bind h

theorem keeps_readerU8 {f : ℕ → Harness T α} (h : ∀ k, Keeps reader req spec (f k) g P) :
    Keeps reader req spec (readerU8 >>= f) g P := fun _ => h _ _

theorem keeps_readerU16 {f : ℕ → Harness T α} (h : ∀ k, Keeps reader req spec (f k) g P) :
    Keeps reader req spec (readerU16 >>= f) g P := fun _ => h _ _

end Rules

end Diffsecp
