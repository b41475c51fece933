import Mathlib.Data.List.Forall2
import Mathlib.Data.List.OfFn
import Diffsecp.Keys.Target
import Diffsecp.Secp.Reference

/-!
# Keys — Specified

What the key API specifies, and the key target inside it. The objects a call
takes must have come from calls that succeeded; the specified results of a
call are its code and, where the code reports success, its outputs. Whatever
else an implementation leaves in its outputs, the target never passes it on
and never records it.
-/

namespace Diffsecp

open Interact

variable {T : Types} {σ σ' : Type}

/-! ## Objects -/

/-- The opaque objects of the key API. -/
inductive KeyObj (T : Types) where
  | pubkey (pk : T.Pubkey)
  | xonly (pk : T.XonlyPubkey)
  | keypair (kp : T.Keypair)

/-- The objects a call takes. -/
def KeyCall.uses {β : Type} : KeyCall T β → List (KeyObj T)
  | .ecPubkeySerialize pk _ => [.pubkey pk]
  | .ecPubkeyNegate pk => [.pubkey pk]
  | .ecPubkeyTweakAdd pk _ => [.pubkey pk]
  | .ecPubkeyTweakMul pk _ => [.pubkey pk]
  | .ecPubkeyCombine ins => ins.map .pubkey
  | .ecPubkeyCmp pk0 pk1 => [.pubkey pk0, .pubkey pk1]
  | .ecPubkeySort pks => (List.ofFn pks).map .pubkey
  | .keypairSec kp => [.keypair kp]
  | .keypairPub kp => [.keypair kp]
  | .keypairXonlyPub kp => [.keypair kp]
  | .keypairXonlyTweakAdd kp _ => [.keypair kp]
  | .xonlyPubkeySerialize pk => [.xonly pk]
  | .xonlyPubkeyFromPubkey pk => [.pubkey pk]
  | .xonlyPubkeyCmp pk1 pk2 => [.xonly pk1, .xonly pk2]
  | .xonlyPubkeyTweakAdd pk _ => [.xonly pk]
  | .xonlyPubkeyTweakAddCheck _ _ pk _ => [.xonly pk]
  | .ecdh pk _ _ => [.pubkey pk]
  | .pubkeyLoad pk => [.pubkey pk]
  | _ => []

/-- The object of a call that answers a code, when it succeeds. -/
def onSuccess (ret : Int32) (o : KeyObj T) : List (KeyObj T) :=
  if ret ≠ 0 then [o] else []

/-- The objects a call has made by succeeding. -/
def KeyCall.made {β : Type} : KeyCall T β → β → List (KeyObj T)
  | .ecPubkeyCreate _, (ret, pk) => onSuccess ret (.pubkey pk)
  | .ecPubkeyParse _, (ret, pk) => onSuccess ret (.pubkey pk)
  | .ecPubkeyNegate _, (ret, pk) => onSuccess ret (.pubkey pk)
  | .ecPubkeyTweakAdd _ _, (ret, pk) => onSuccess ret (.pubkey pk)
  | .ecPubkeyTweakMul _ _, (ret, pk) => onSuccess ret (.pubkey pk)
  | .ecPubkeyCombine _, (ret, pk) => onSuccess ret (.pubkey pk)
  | .keypairCreate _, (ret, kp) => onSuccess ret (.keypair kp)
  | .keypairPub _, (ret, pk) => onSuccess ret (.pubkey pk)
  | .keypairXonlyPub _, (ret, pk, _) => onSuccess ret (.xonly pk)
  | .keypairXonlyTweakAdd _ _, (ret, kp) => onSuccess ret (.keypair kp)
  | .xonlyPubkeyParse _, (ret, pk) => onSuccess ret (.xonly pk)
  | .xonlyPubkeyFromPubkey _, (ret, pk, _) => onSuccess ret (.xonly pk)
  | .xonlyPubkeyTweakAdd _ _, (ret, pk) => onSuccess ret (.pubkey pk)
  | _, _ => []

/-- The objects the calls of a log have made. -/
def objectsMade (log : List (Event (LibCall T))) : List (KeyObj T) :=
  log.flatMap fun e => match e with
    | ⟨.key q, a⟩ => q.made a
    | _ => []

/-- Every object a call takes came from a successful call of the log. -/
def objectsValid (log : List (Event (LibCall T))) {β : Type} : LibCall T β → Prop
  | .key q => ∀ o ∈ q.uses, o ∈ objectsMade log
  | _ => True

/-! ## Specified results -/

/-- The results the API fixes. Only the part the contract below reads is
specified; the rest of `result` is arbitrary. -/
structure KeySpec (T : Types) where
  result : {β : Type} → KeyCall T β → β

namespace KeySpec

variable (S : KeySpec T)

/-- The code is specified, and on success the output is. -/
def agrees {α : Type} (a r : Int32 × α) : Prop := a.1 = r.1 ∧ (r.1 ≠ 0 → a.2 = r.2)

/-- A call that always succeeds. -/
def always {α : Type} (a r : Int32 × α) : Prop := a.1 = 1 ∧ a.2 = r.2

/-- What is specified of a call on valid objects. -/
def spec {β : Type} : KeyCall T β → β → Prop
  | .ecSeckeyVerify sk, a => a = S.result (.ecSeckeyVerify sk)
  | .ecSeckeyNegate sk, a => agrees a (S.result (.ecSeckeyNegate sk))
  | .ecSeckeyTweakAdd sk tweak, a => agrees a (S.result (.ecSeckeyTweakAdd sk tweak))
  | .ecSeckeyTweakMul sk tweak, a => agrees a (S.result (.ecSeckeyTweakMul sk tweak))
  | .ecPubkeyCreate sk, a => agrees a (S.result (.ecPubkeyCreate sk))
  | .ecPubkeyParse ser, a => agrees a (S.result (.ecPubkeyParse ser))
  | .ecPubkeySerialize pk c, a => always a (S.result (.ecPubkeySerialize pk c))
  | .ecPubkeyNegate pk, a => agrees a (S.result (.ecPubkeyNegate pk))
  | .ecPubkeyTweakAdd pk tweak, a => agrees a (S.result (.ecPubkeyTweakAdd pk tweak))
  | .ecPubkeyTweakMul pk tweak, a => agrees a (S.result (.ecPubkeyTweakMul pk tweak))
  | .ecPubkeyCombine ins, a => agrees a (S.result (.ecPubkeyCombine ins))
  -- only the sign is promised
  | .ecPubkeyCmp pk0 pk1, a => keysSign a = keysSign (S.result (.ecPubkeyCmp pk0 pk1))
  -- equal keys may come in any order
  | .ecPubkeySort pks, a =>
      a.1 = (S.result (.ecPubkeySort pks)).1 ∧ (List.ofFn a.2).Perm (List.ofFn pks) ∧
        ∀ i, (S.result (.ecPubkeySerialize (a.2 i) true)).2
          = (S.result (.ecPubkeySerialize ((S.result (.ecPubkeySort pks)).2 i) true)).2
  | .keypairCreate sk, a => agrees a (S.result (.keypairCreate sk))
  | .keypairSec kp, a => always a (S.result (.keypairSec kp))
  | .keypairPub kp, a => always a (S.result (.keypairPub kp))
  | .keypairXonlyPub kp, a => always a (S.result (.keypairXonlyPub kp))
  | .keypairXonlyTweakAdd kp tweak, a =>
      agrees a (S.result (.keypairXonlyTweakAdd kp tweak))
  | .xonlyPubkeyParse ser, a => agrees a (S.result (.xonlyPubkeyParse ser))
  | .xonlyPubkeySerialize pk, a => always a (S.result (.xonlyPubkeySerialize pk))
  | .xonlyPubkeyFromPubkey pk, a => always a (S.result (.xonlyPubkeyFromPubkey pk))
  | .xonlyPubkeyCmp pk1 pk2, a =>
      keysSign a = keysSign (S.result (.xonlyPubkeyCmp pk1 pk2))
  | .xonlyPubkeyTweakAdd pk tweak, a =>
      agrees a (S.result (.xonlyPubkeyTweakAdd pk tweak))
  | .xonlyPubkeyTweakAddCheck ser parity pk tweak, a =>
      a = S.result (.xonlyPubkeyTweakAddCheck ser parity pk tweak)
  | .ecdh pk sk hashfp, a => agrees a (S.result (.ecdh pk sk hashfp))
  | .ecdhHashFunctionSha256 x32 y32, a =>
      always a (S.result (.ecdhHashFunctionSha256 x32 y32))
  | .taggedSha256 tag msg, a => always a (S.result (.taggedSha256 tag msg))
  | .pubkeyLoad pk, a => agrees a (S.result (.pubkeyLoad pk))
  | .pubkeySave ge, a => a = S.result (.pubkeySave ge)

/-- The key API: nothing is asked of the rest of the library. -/
def contract : Contract (LibCall T) (List (Event (LibCall T))) :=
  .history (fun log {_} q => objectsValid log q)
    (fun _ {β} (q : LibCall T β) (a : β) => match β, q, a with
      | _, .key q, a => S.spec q a
      | _, _, _ => True)

theorem contract_spec {β : Type} (g : List (Event (LibCall T)))
    (q : KeyCall T β) (a : β) :
    S.contract.spec g (.key q) a ↔ S.spec q a := Iff.rfl

end KeySpec

/-! ## Two runs -/

/-- An object both runs got from a successful call. -/
def Owned (g g' : List (Event (LibCall T))) (o : KeyObj T) : Prop :=
  o ∈ objectsMade g ∧ o ∈ objectsMade g'

/-- Calls made since then take no object away. -/
def OwnedLe (g g' k k' : List (Event (LibCall T))) : Prop :=
  ∀ o, Owned g g' o → Owned k k' o

theorem OwnedLe.refl (g g' : List (Event (LibCall T))) : OwnedLe g g' g g' :=
  fun _ ho => ho

theorem OwnedLe.trans {g g' h h' k k' : List (Event (LibCall T))}
    (hgh : OwnedLe g g' h h') (hhk : OwnedLe h h' k k') : OwnedLe g g' k k' :=
      fun o ho => hhk o (hgh o ho)

theorem objectsMade_append (g g' : List (Event (LibCall T))) :
    objectsMade (g ++ g') = objectsMade g ++ objectsMade g' := List.flatMap_append

theorem objectsMade_key {β : Type} (q : KeyCall T β) (a : β) :
    objectsMade [⟨.key q, a⟩] = q.made a := by
  simp [objectsMade]

theorem mem_onSuccess {ret : Int32} {o : KeyObj T} (h : ret ≠ 0) :
    o ∈ onSuccess ret o := by
  rw [onSuccess, if_pos h]
  exact List.mem_singleton_self o

/-- The result of an op before the target clears it: what a failed call left
in `pk` may differ. -/
structure ResOk (g g' : List (Event (LibCall T))) (res res' : KeysReg T) : Prop where
  sk : res.sk = res'.sk
  ok : res.pkOk = res'.pkOk
  pk : res.pkOk ≠ 0 → res.pk = res'.pk ∧ Owned g g' (.pubkey res.pk)

/-- A register holds an object that came from a successful call, or is
empty. -/
def RegOk (g g' : List (Event (LibCall T))) (reg : KeysReg T) : Prop :=
  (reg.pkOk ≠ 0 → Owned g g' (.pubkey reg.pk)) ∧ (reg.pkOk = 0 → reg.pk = T.zeroPubkey)

theorem RegOk.mono {g g' k k' : List (Event (LibCall T))} {reg : KeysReg T}
    (h : RegOk g g' reg) (hle : OwnedLe g g' k k') : RegOk k k' reg :=
    ⟨fun hok => hle _ (h.1 hok), h.2⟩

theorem RegOk.resOk {g g' k k' : List (Event (LibCall T))} {reg : KeysReg T}
    (h : RegOk g g' reg) (hle : OwnedLe g g' k k') : ResOk k k' reg reg :=
    ⟨rfl, rfl, fun hok => ⟨rfl, hle _ (h.1 hok)⟩⟩

/-- Clearing leaves equal registers. -/
theorem ResOk.clear {g g' : List (Event (LibCall T))} {res res' : KeysReg T}
    (h : ResOk g g' res res') :
    keysClear res = keysClear res' ∧ RegOk g g' (keysClear res) := by
  obtain ⟨sk, pk, ok⟩ := res
  obtain ⟨sk', pk', ok'⟩ := res'
  obtain ⟨rfl, rfl, hpk⟩ := h
  by_cases hok : ok = 0
  · have hclear : ∀ pk, keysClear (⟨sk, pk, ok⟩ : KeysReg T) = ⟨sk, T.zeroPubkey, ok⟩ :=
      fun _ => if_pos hok
    rw [hclear, hclear]
    exact ⟨rfl, fun h => absurd hok h, fun _ => rfl⟩
  · obtain ⟨rfl, howned⟩ := hpk hok
    have hclear : keysClear (⟨sk, pk, ok⟩ : KeysReg T) = ⟨sk, pk, ok⟩ := if_neg hok
    rw [hclear]
    exact ⟨rfl, fun _ => howned, fun h => absurd h hok⟩

/-- Both runs have the same registers, each owned or empty. -/
def RegsOk (g g' : List (Event (LibCall T))) (reg reg' : KeysRegs T) : Prop :=
  reg = reg' ∧ ∀ i, RegOk g g' (reg i)

theorem ownedLe_of_grows {g g' k k' : List (Event (LibCall T))} (h : g <+: k)
    (h' : g' <+: k') :
    OwnedLe g g' k k' := by
  obtain ⟨l, rfl⟩ := h
  obtain ⟨l', rfl⟩ := h'
  intro o ho
  rw [Owned, objectsMade_append, objectsMade_append]
  exact ⟨List.mem_append_left _ ho.1, List.mem_append_left _ ho.2⟩

/-- A contract that asks of key calls what the API does, and promises what it
promises at least. -/
class KeyContract (S : outParam (KeySpec T))
    (C : Contract (LibCall T) (List (Event (LibCall T)))) : Prop where
  req : ∀ {g β} {q : KeyCall T β}, (∀ o ∈ q.uses, o ∈ objectsMade g) → C.req g (.key q)
  spec : ∀ {g β} {q : KeyCall T β} {a}, C.spec g (.key q) a → S.spec q a
  next : ∀ {g β} {q : KeyCall T β} {a}, C.next g (.key q) a = g ++ [⟨.key q, a⟩]

instance (S : KeySpec T) : KeyContract S S.contract := ⟨fun h => h, fun h => h, rfl⟩

section Calls

variable {S : KeySpec T} {C C' : Contract (LibCall T) (List (Event (LibCall T)))}
  [hC : KeyContract S C]
  [hC' : KeyContract S C'] {E : List UInt8 → List UInt8 → Prop} {r : List UInt8}
  {g g' : List (Event (LibCall T))}
  {α α' β : Type} {Post : α → α' → List (Event (LibCall T)) →
    List (Event (LibCall T)) → Prop}

/-- Each run makes a call on objects both own. -/
theorem lock_key {q q' : KeyCall T β} {f : β → Harness T α} {f' : β → Harness T α'}
    (huse : ∀ o ∈ q.uses, Owned g g' o) (huse' : ∀ o ∈ q'.uses, Owned g g' o)
    (h : ∀ x x' k k', S.spec q x → S.spec q' x' → OwnedLe g g' k k' →
      (∀ o, o ∈ q.made x → o ∈ q'.made x' → Owned k k' o) →
      Lockstep reader C C' E Post (f x) (f' x') r k k') :
    Lockstep reader C C' E Post (secpKey q >>= f) (secpKey q' >>= f') r g g' := by
  refine Lockstep.invoke_bind (hC.req fun o ho => (huse o ho).1) (hC'.req fun o ho =>
    (huse' o ho).2) fun x x' hx hx' => ?_
  rw [hC.next, hC'.next]
  refine h x x' _ _ (hC.spec hx) (hC'.spec hx') ?_ ?_
  · intro o ho
    have hleft := List.mem_append_left (objectsMade [⟨LibCall.key q, x⟩]) ho.1
    have hright := List.mem_append_left (objectsMade [⟨LibCall.key q', x'⟩]) ho.2
    rw [← objectsMade_append] at hleft hright
    exact ⟨hleft, hright⟩
  · intro o hx hx'
    rw [← objectsMade_key] at hx hx'
    have hleft := List.mem_append_right (objectsMade g) hx
    have hright := List.mem_append_right (objectsMade g') hx'
    rw [← objectsMade_append] at hleft hright
    exact ⟨hleft, hright⟩

/-- A call with a code whose output makes no object. -/
theorem lock_code {q : KeyCall T (Int32 × β)} {f : Int32 × β → Harness T α}
    {f' : Int32 × β → Harness T α'} (huse : ∀ o ∈ q.uses, Owned g g' o)
    (hspec : ∀ x, S.spec q x → KeySpec.agrees x (S.result q))
    (h : ∀ ret v v' k k', (ret ≠ 0 → v = v') → OwnedLe g g' k k' →
      Lockstep reader C C' E Post (f (ret, v)) (f' (ret, v')) r k k') :
    Lockstep reader C C' E Post (secpKey q >>= f) (secpKey q >>= f') r g g' := by
  refine lock_key huse huse fun x x' k k' hx hx' hle _ => ?_
  obtain ⟨ret, v⟩ := x
  obtain ⟨ret', v'⟩ := x'
  obtain ⟨hret, hv⟩ := hspec _ hx
  obtain ⟨hret', hv'⟩ := hspec _ hx'
  obtain rfl : ret = ret' := hret.trans hret'.symm
  refine h ret v v' k k' (fun hok => ?_) hle
  rw [show ret = (S.result q).1 from hret] at hok
  exact (hv hok).trans (hv' hok).symm

/-- A call with a code that makes an object when it succeeds. -/
theorem lock_make {q : KeyCall T (Int32 × β)} {m : β → KeyObj T}
    {f : Int32 × β → Harness T α} {f' : Int32 × β → Harness T α'}
    (huse : ∀ o ∈ q.uses, Owned g g' o)
    (hspec : ∀ x, S.spec q x → KeySpec.agrees x (S.result q))
    (hmade : ∀ ret v, q.made (ret, v) = onSuccess ret (m v))
    (h : ∀ ret v v' k k', (ret ≠ 0 → v = v' ∧ Owned k k' (m v)) → OwnedLe g g' k k' →
      Lockstep reader C C' E Post (f (ret, v)) (f' (ret, v')) r k k') :
    Lockstep reader C C' E Post (secpKey q >>= f) (secpKey q >>= f') r g g' := by
  refine lock_key huse huse fun x x' k k' hx hx' hle hown => ?_
  obtain ⟨ret, v⟩ := x
  obtain ⟨ret', v'⟩ := x'
  obtain ⟨hret, hv⟩ := hspec _ hx
  obtain ⟨hret', hv'⟩ := hspec _ hx'
  obtain rfl : ret = ret' := hret.trans hret'.symm
  refine h ret v v' k k' (fun hok => ?_) hle
  have hres : (S.result q).1 ≠ 0 := by rwa [← hret]
  obtain rfl : v = v' := (hv hres).trans (hv' hres).symm
  refine ⟨rfl, hown _ ?_ ?_⟩ <;> rw [hmade] <;> exact mem_onSuccess hok

/-- A call that always succeeds. -/
theorem lock_always {q : KeyCall T (Int32 × β)} {f : Int32 × β → Harness T α}
    {f' : Int32 × β → Harness T α'} (huse : ∀ o ∈ q.uses, Owned g g' o)
    (hspec : ∀ x, S.spec q x → KeySpec.always x (S.result q))
    (h : ∀ v k k', OwnedLe g g' k k' → (∀ o, o ∈ q.made (1, v) → Owned k k' o) →
      Lockstep reader C C' E Post (f (1, v)) (f' (1, v)) r k k') :
    Lockstep reader C C' E Post (secpKey q >>= f) (secpKey q >>= f') r g g' := by
  refine lock_key huse huse fun x x' k k' hx hx' hle hown => ?_
  obtain ⟨ret, v⟩ := x
  obtain ⟨ret', v'⟩ := x'
  obtain ⟨hret, hv⟩ := hspec _ hx
  obtain ⟨hret', hv'⟩ := hspec _ hx'
  obtain rfl : ret = 1 := hret
  obtain rfl : ret' = 1 := hret'
  obtain rfl : v = v' := hv.trans hv'.symm
  exact h v k k' hle fun o ho => hown o ho ho

end Calls

section Lock

variable {S : KeySpec T} {r : List UInt8} {g g' : List (Event (LibCall T))}
  {α α' β : Type}
  {Post : α → α' → List (Event (LibCall T)) → List (Event (LibCall T)) → Prop}

/-- Serializing an owned pubkey records the same bytes. -/
theorem lock_keysRecordPubkey {pk pk' : T.Pubkey} (hpk : Owned g g' (.pubkey pk))
    (hpk' : Owned g g' (.pubkey pk'))
    (hser : (S.result (.ecPubkeySerialize pk true)).2 =
      (S.result (.ecPubkeySerialize pk' true)).2) :
    Lockstep reader S.contract S.contract Eq (fun _ _ k k' => OwnedLe g g' k k')
      (keysRecordPubkey pk) (keysRecordPubkey pk') r g g' := by
  have hone : ∀ {pk o}, Owned g g' (.pubkey pk) →
      o ∈ (KeyCall.ecPubkeySerialize pk true : KeyCall T _).uses → Owned g g' o := by
    intro pk o hpk ho
    rwa [List.mem_singleton.mp ho]
  refine lock_key (fun o => hone hpk)
    (fun o => hone hpk') fun x x' k k' hx hx' hle _ => ?_
  refine Lockstep.emit ?_ fun _ => hle
  calc x.2 = _ := hx.2
    _ = _ := hser
    _ = x'.2 := hx'.2.symm

theorem lock_keysRecordPubkeys {pks pks' : List T.Pubkey}
    (hown : ∀ pk ∈ pks, Owned g g' (.pubkey pk))
    (hown' : ∀ pk ∈ pks', Owned g g' (.pubkey pk))
    (hser : List.Forall₂ (fun pk pk' => (S.result (.ecPubkeySerialize pk true)).2
      = (S.result (.ecPubkeySerialize pk' true)).2) pks pks') :
    Lockstep reader S.contract S.contract Eq (fun _ _ k k' => OwnedLe g g' k k')
      (keysRecordPubkeys pks) (keysRecordPubkeys pks') r g g' := by
  induction hser generalizing r g g' with
  | nil => exact Lockstep.pure (OwnedLe.refl _ _)
  | cons hpk _ ih =>
      rw [List.forall_mem_cons] at hown hown'
      refine Lockstep.bind (lock_keysRecordPubkey hown.1 hown'.1 hpk)
        fun _ _ r k k' hle => ?_
      refine (ih (fun pk h => hle _ (hown.2 pk h)) fun pk h =>
        hle _ (hown'.2 pk h)).mono ?_
      exact fun _ _ _ _ hle' => hle.trans hle'

theorem lock_keysRecordReg {reg : KeysReg T} (h : RegOk g g' reg) :
    Lockstep reader S.contract S.contract Eq (fun _ _ k k' => OwnedLe g g' k k')
      (keysRecordReg reg) (keysRecordReg reg) r g g' := by
  refine lock_eq_bytes rfl (lock_eq_int rfl (Lockstep.ite (fun hok => ?_) fun _ => ?_))
  · exact lock_keysRecordPubkey (h.1 hok) (h.1 hok) rfl
  · exact Lockstep.pure (OwnedLe.refl g g')

/-! ### The ops -/

theorem owned_one {o o' : KeyObj T} (h : Owned g g' o) (ho' : o' ∈ [o]) :
    Owned g g' o' := by
  rwa [List.mem_singleton.mp ho']

/-- The pubkeys of valid registers are owned. -/
theorem keysPtrs_owned {reg : KeysRegs T} {p : Fin 4 → Bool}
    (h : ∀ i, RegOk g g' (reg i)) :
    ∀ pk ∈ keysPtrs reg p, Owned g g' (.pubkey pk) := by
  intro pk hpk
  obtain ⟨j, hj, rfl⟩ := List.mem_map.mp hpk
  have hok := (List.mem_filter.mp hj).2
  simp only [ne_eq, Bool.and_eq_true, decide_eq_true_eq] at hok
  exact (h j).1 hok.2

/-- A permutation of owned pubkeys is owned. -/
theorem owned_of_perm {n : ℕ} {pks x : Fin n → T.Pubkey}
    (h : ∀ i, Owned g g' (.pubkey (pks i))) (hperm : (List.ofFn x).Perm (List.ofFn pks)) :
    ∀ pk ∈ List.ofFn x, Owned g g' (.pubkey pk) := by
  intro pk hpk
  obtain ⟨i, rfl⟩ := List.mem_ofFn.mp (hperm.mem_iff.mp hpk)
  exact h i

theorem lock_keysSort {reg : KeysRegs T} (h : ∀ i, RegOk g g' (reg i)) :
    Lockstep reader S.contract S.contract Eq (fun _ _ k k' => OwnedLe g g' k k')
      (keysSort reg) (keysSort reg) r g g' := by
  have hptrs := keysPtrs_owned (p := fun _ => true) h
  refine Lockstep.ite (fun _ => Lockstep.pure (OwnedLe.refl g g')) fun _ => ?_
  have hget := fun i => hptrs _ (List.get_mem (keysPtrs reg fun _ => true) i)
  have huse :
      ∀ o ∈ (KeyCall.ecPubkeySort (keysPtrs reg fun _ => true).get : KeyCall T _).uses,
      Owned g g' o := by
    intro o ho
    obtain ⟨pk, hpk, rfl⟩ := List.mem_map.mp ho
    obtain ⟨i, rfl⟩ := List.mem_ofFn.mp hpk
    exact hget i
  refine lock_key huse huse fun x x' k k' hx hx' hle _ => ?_
  obtain ⟨hret, hperm, hser⟩ := hx
  obtain ⟨hret', hperm', hser'⟩ := hx'
  have hget' := fun i => hle _ (hget i)
  refine lock_eq_int (hret.trans hret'.symm) ?_
  refine (lock_keysRecordPubkeys (owned_of_perm hget' hperm)
    (owned_of_perm hget' hperm') ?_).mono fun _ _ _ _ => hle.trans
  refine List.forall₂_iff_get.mpr ⟨by rw [List.length_ofFn, List.length_ofFn],
    fun i hi hi' => ?_⟩
  rw [List.get_ofFn, List.get_ofFn]
  exact (hser _).trans (hser' _).symm

theorem lock_keysEcdh {a b : KeysReg T} {named : Bool} (ha : Owned g g' (.pubkey a.pk)) :
    Lockstep reader S.contract S.contract Eq (fun _ _ k k' => OwnedLe g g' k k')
      (keysEcdh a b named) (keysEcdh a b named) r g g' := by
  refine lock_code (fun _ => owned_one ha)
    (fun _ h => h) fun ret v v' k₁ k₁' hv hle₁ => ?_
  refine lock_eq_int rfl (Lockstep.bind (P := fun _ _ => OwnedLe g g')
    (Lockstep.ite (fun hret => ?_) fun _ => Lockstep.pure hle₁)
      fun _ _ r k₂ k₂' hle₂ => ?_)
  · exact Lockstep.emit (by rw [hv hret]) fun _ => hle₁
  refine lock_code (fun _ => owned_one (hle₂ _ ha))
    (fun _ h => h) fun ret v v' k₃ k₃' hv hle₃ => ?_
  refine lock_eq_int rfl (Lockstep.bind (P := fun _ _ => OwnedLe g g')
    (Lockstep.ite (fun hret => ?_) fun _ => Lockstep.pure (hle₂.trans hle₃))
      fun _ _ r k₄ k₄' hle₄ => ?_)
  · obtain rfl := hv hret
    refine lock_eq_bytes rfl
      (lock_always (fun _ h => nomatch h) (fun _ h => h) fun v k k' hle _ => ?_)
    exact lock_eq_int rfl (Lockstep.emit rfl fun _ => (hle₂.trans hle₃).trans hle)
  refine lock_code (fun _ => owned_one (hle₄ _ ha))
    (fun _ h => h) fun ret v v' k₅ k₅' _ hle₅ => ?_
  exact Lockstep.emit rfl fun _ => hle₄.trans hle₅

theorem lock_keysKeypairTweak {d a : KeysReg T} {tweak : Bytes 32} (hd : RegOk g g' d) :
    Lockstep reader S.contract S.contract Eq (fun res res' k k' => ResOk k k' res res')
      (keysKeypairTweak d a tweak) (keysKeypairTweak d a tweak) r g g' := by
  refine lock_make (m := .keypair) (fun _ h => nomatch h) (fun _ h => h) (fun _ _ => rfl)
    fun ret kp kp' k₁ k₁' hkp hle₁ => lock_eq_int rfl ?_
  refine Lockstep.ite (fun _ => Lockstep.pure (hd.resOk hle₁)) fun hret => ?_
  obtain ⟨rfl, hown⟩ := hkp hret
  refine lock_always (fun _ => owned_one hown)
    (fun _ h => h) fun ⟨xonly, parity⟩ k₂ k₂' hle₂ hx => ?_
  have hxonly : Owned k₂ k₂' (.xonly xonly) := hx _ (mem_onSuccess (by decide))
  refine lock_always (fun _ => owned_one hxonly)
    (fun _ h => h) fun ser k₃ k₃' hle₃ _ => ?_
  refine lock_eq_int rfl (lock_eq_bytes rfl ?_)
  refine lock_make (m := .keypair) (fun _ => owned_one (hle₃ _ (hle₂ _ hown)))
    (fun _ h => h) (fun _ _ => rfl) fun ret kp kp' k₄ k₄' hkp hle₄ => lock_eq_int rfl ?_
  have hle : OwnedLe g g' k₄ k₄' := ((hle₁.trans hle₂).trans hle₃).trans hle₄
  refine Lockstep.ite (fun hret => ?_) fun _ => Lockstep.pure (hd.resOk hle)
  obtain ⟨rfl, hown⟩ := hkp hret
  refine lock_always (fun _ => owned_one hown) (fun _ h => h) fun sk k₅ k₅' hle₅ _ => ?_
  refine lock_always (fun _ => owned_one (hle₅ _ hown))
    (fun _ h => h) fun pk k₆ k₆' _ hpk => ?_
  exact Lockstep.pure ⟨rfl, rfl, fun _ => ⟨rfl, hpk _ (mem_onSuccess (by decide))⟩⟩

theorem lock_keysXonly {d a b : KeysReg T} {tweak : Bytes 32} (hd : RegOk g g' d)
    (ha : RegOk g g' a) (hb : RegOk g g' b) :
    Lockstep reader S.contract S.contract Eq (fun res res' k k' => ResOk k k' res res')
      (keysXonly d a b tweak) (keysXonly d a b tweak) r g g' := by
  refine Lockstep.ite
    (fun _ => Lockstep.pure (hd.resOk (OwnedLe.refl g g'))) fun hok => ?_
  refine lock_always (fun _ => owned_one (ha.1 hok))
    (fun _ h => h) fun ⟨xa, parity⟩ k₁ k₁' hle₁ hx => ?_
  have hxa : Owned k₁ k₁' (.xonly xa) := hx _ (mem_onSuccess (by decide))
  refine lock_always (fun _ => owned_one hxa) (fun _ h => h) fun ser k₂ k₂' hle₂ _ => ?_
  refine lock_eq_int rfl (lock_eq_bytes rfl ?_)
  refine Lockstep.bind (P := fun _ _ => OwnedLe k₂ k₂')
    (Lockstep.ite (fun hbok => ?_) fun _ =>
      Lockstep.pure (OwnedLe.refl k₂ k₂')) fun _ _ r k₃ k₃' hle₃ => ?_
  · refine lock_always (fun _ => owned_one (hle₂ _ (hle₁ _ (hb.1 hbok)))) (fun _ h => h)
      fun ⟨xb, _⟩ k k' hle hx => ?_
    have hxb : Owned k k' (.xonly xb) := hx _ (mem_onSuccess (by decide))
    have huse : ∀ o ∈ (KeyCall.xonlyPubkeyCmp xa xb : KeyCall T _).uses, Owned k k' o :=
      List.forall_mem_cons.mpr ⟨hle _ (hle₂ _ hxa), fun _ => owned_one hxb⟩
    refine lock_key huse huse fun x x' l l' hx hx' hle' _ => ?_
    exact Lockstep.emit (by rw [hx, hx']) fun _ => hle.trans hle'
  refine lock_make (m := .pubkey) (fun _ => owned_one (hle₃ _ (hle₂ _ hxa)))
    (fun _ h => h) (fun _ _ => rfl) fun ret pk pk' k₄ k₄' hpk hle₄ => lock_eq_int rfl ?_
  have hle : OwnedLe g g' k₄ k₄' := ((hle₁.trans hle₂).trans hle₃).trans hle₄
  by_cases hret : ret = 0
  · rw [if_neg (not_not.mpr hret), if_neg (not_not.mpr hret)]
    exact Lockstep.pure (hd.resOk hle)
  · rw [if_pos hret, if_pos hret]
    obtain ⟨rfl, hown⟩ := hpk hret
    exact Lockstep.pure ⟨rfl, rfl, fun _ => ⟨rfl, hown⟩⟩

/-- The common end of an op that writes the secret key. -/
theorem lock_seckey {res : KeysReg T} (hres : RegOk g g' res)
    {q : KeyCall T (Int32 × Bytes 32)} (huse : ∀ o ∈ q.uses, Owned g g' o)
    (hspec : ∀ x, S.spec q x → KeySpec.agrees x (S.result q)) :
    Lockstep reader S.contract S.contract Eq (fun res res' k k' => ResOk k k' res res')
      (do
        let (ret, sk) ← secpKey q
        let sk ← keysSeckeyResult sk ret
        pure { res with sk := sk })
      (do
        let (ret, sk) ← secpKey q
        let sk ← keysSeckeyResult sk ret
        pure { res with sk := sk }) r g g' := by
  refine lock_code huse hspec fun ret sk sk' k k' hsk hle => ?_
  have hclear : (if ret = 0 then zeroBytes 32 else sk) = if ret = 0 then zeroBytes 32
      else sk' := by
    by_cases hret : ret = 0
    · rw [if_pos hret, if_pos hret]
    · rw [hsk hret]
  refine Lockstep.bind (P := fun x x' l l' => x = x' ∧ OwnedLe g g' l l')
    (lock_eq_int rfl (Lockstep.pure ⟨hclear, hle⟩)) fun x x' _ l l' hx => ?_
  exact Lockstep.pure ⟨hx.1, rfl, fun hok => ⟨rfl, hx.2 _ (hres.1 hok)⟩⟩

/-- The common end of an op that writes the public key: whatever a failed
call leaves there, `pkOk` is clear. -/
theorem lock_pubkey {res : KeysReg T} {q : KeyCall T (Int32 × T.Pubkey)}
    (huse : ∀ o ∈ q.uses, Owned g g' o)
    (hspec : ∀ x, S.spec q x → KeySpec.agrees x (S.result q))
    (hmade : ∀ ret v, q.made (ret, v) = onSuccess ret (.pubkey v)) :
    Lockstep reader S.contract S.contract Eq (fun res res' k k' => ResOk k k' res res')
      (do
        let (ret, pk) ← secpKey q
        pure { res with pk := pk, pkOk := ret })
      (do
        let (ret, pk) ← secpKey q
        pure { res with pk := pk, pkOk := ret }) r g g' :=
  lock_make huse hspec hmade fun _ _ _ _ _ hpk _ => Lockstep.pure ⟨rfl, rfl, hpk⟩

/-- Both runs take the same tweak. -/
theorem lock_keysTakeTweak {sel : ℕ} {b : KeysReg T} {f : Bytes 32 → Harness T α}
    {f' : Bytes 32 → Harness T α'}
    (h : ∀ tweak r',
      Lockstep reader S.contract S.contract Eq Post (f tweak) (f' tweak) r' g g') :
    Lockstep reader S.contract S.contract Eq Post (keysTakeTweak sel b >>= f)
      (keysTakeTweak sel b >>= f') r g g' := by
  rw [keysTakeTweak]
  split
  · exact h b.sk r
  · exact lock_readerTake h

/-- Every op calls on owned objects only, records the same in both runs and
ends in the same result, up to what failed calls left. -/
theorem lock_keysSwitch {reg : KeysRegs T} (h : ∀ i, RegOk g g' (reg i))
    {res a b : KeysReg T} (hres : RegOk g g' res) (ha : RegOk g g' a) (hb : RegOk g g' b)
    (sel : ℕ) (op : KeysOp) :
    Lockstep reader S.contract S.contract Eq (fun res res' k k' => ResOk k k' res res')
      (keysSwitch reg res a b sel op) (keysSwitch reg res a b sel op) r g g' := by
  have hskip : ∀ r, Lockstep reader S.contract S.contract Eq (fun res res' k k' =>
    ResOk k k' res res')
      (pure res : Harness T _) (pure res : Harness T _) r g g' :=
    fun _ => Lockstep.pure (hres.resOk (OwnedLe.refl g g'))
  cases op with
  | seckeyLoad =>
      refine lock_readerTake fun sk r' => ?_
      refine lock_key (fun _ h => nomatch h) (fun _ h => nomatch h)
        fun x x' k k' hx hx' hle _ => ?_
      refine lock_eq_int (hx.trans hx'.symm)
        (Lockstep.pure ⟨rfl, rfl, fun hok => ⟨rfl, ?_⟩⟩)
      exact hle _ (hres.1 hok)
  | seckeyNegate => exact lock_seckey hres (fun _ h => nomatch h) fun _ h => h
  | seckeyTweakAdd =>
      exact lock_keysTakeTweak fun tweak r' =>
        lock_seckey hres (fun _ h => nomatch h) fun _ h => h
  | seckeyTweakMul =>
      exact lock_readerTake fun tweak r' =>
        lock_seckey hres (fun _ h => nomatch h) fun _ h => h
  | pubkeyCreate => exact lock_pubkey (fun _ h => nomatch h) (fun _ h => h) fun _ _ => rfl
  | pubkeyParse =>
      refine lock_readerU8 fun flags r' => lock_readerTake fun ser r'' => ?_
      exact lock_pubkey (fun _ h => nomatch h) (fun _ h => h) fun _ _ => rfl
  | pubkeyNegate =>
      refine Lockstep.ite (fun hok => ?_) fun _ => hskip r
      exact lock_pubkey (fun _ => owned_one (ha.1 hok)) (fun _ h => h) fun _ _ => rfl
  | pubkeyTweakAdd =>
      refine lock_keysTakeTweak fun tweak r' =>
        Lockstep.ite (fun hok => ?_) fun _ => hskip r'
      exact lock_pubkey (fun _ => owned_one (ha.1 hok)) (fun _ h => h) fun _ _ => rfl
  | pubkeyTweakMul =>
      refine lock_readerTake fun tweak r' =>
        Lockstep.ite (fun hok => ?_) fun _ => hskip r'
      exact lock_pubkey (fun _ => owned_one (ha.1 hok)) (fun _ h => h) fun _ _ => rfl
  | pubkeyCombine =>
      refine lock_readerU8 fun flags r' => Lockstep.ite (fun _ => ?_) fun _ => hskip r'
      refine lock_pubkey (fun o ho => ?_) (fun _ h => h) fun _ _ => rfl
      obtain ⟨pk, hpk, rfl⟩ := List.mem_map.mp ho
      exact keysPtrs_owned h pk hpk
  | pubkeyCmp =>
      refine Lockstep.bind (P := fun _ _ => OwnedLe g g')
        (Lockstep.ite (fun hok => ?_) fun _ =>
          Lockstep.pure (OwnedLe.refl g g')) fun _ _ r k k' hle =>
        Lockstep.pure (hres.resOk hle)
      have huse : ∀ o ∈ (KeyCall.ecPubkeyCmp a.pk b.pk : KeyCall T _).uses,
          Owned g g' o :=
        List.forall_mem_cons.mpr ⟨ha.1 hok.1, fun _ => owned_one (hb.1 hok.2)⟩
      refine lock_key huse huse fun x x' k k' hx hx' hle _ => ?_
      exact Lockstep.emit (by rw [hx, hx']) fun _ => hle
  | pubkeySort =>
      exact Lockstep.bind (lock_keysSort h) fun _ _ r k k' hle =>
        Lockstep.pure (hres.resOk hle)
  | keypairTweak => exact lock_readerTake fun tweak r' => lock_keysKeypairTweak hres
  | xonly => exact lock_readerTake fun tweak r' => lock_keysXonly hres ha hb
  | ecdh =>
      refine Lockstep.bind (P := fun _ _ => OwnedLe g g')
        (Lockstep.ite (fun hok => ?_) fun _ =>
          Lockstep.pure (OwnedLe.refl g g')) fun _ _ r k k' hle =>
        Lockstep.pure (hres.resOk hle)
      exact lock_keysEcdh (ha.1 hok)

theorem lock_keysStep {reg reg' : KeysRegs T} (h : RegsOk g g' reg reg') :
    Lockstep reader S.contract S.contract Eq (fun reg reg' k k' => RegsOk k k' reg reg')
      (keysStep reg) (keysStep reg') r g g' := by
  obtain ⟨rfl, hreg⟩ := h
  refine lock_readerU8 fun op r' => lock_readerU8 fun sel r'' => lock_eq_u8 ?_
  refine Lockstep.bind (lock_keysSwitch hreg (hreg _) (hreg _) (hreg _) sel _).grows
    fun res res' r k k' hres => ?_
  obtain ⟨hres, hgrow⟩ := hres
  obtain ⟨hclear, hok⟩ := hres.clear
  rw [← hclear]
  have hle : OwnedLe g g' k k' := ownedLe_of_grows hgrow.1 hgrow.2
  have hnew : ∀ i, RegOk k k' (Function.update reg (selReg sel 0) (keysClear res) i) := by
    intro i
    by_cases hi : i = selReg sel 0
    · subst hi
      rw [Function.update_self]
      exact hok
    · rw [Function.update_of_ne hi]
      exact (hreg i).mono hle
  refine Lockstep.bind (lock_keysRecordReg (hnew _)) fun _ _ r l l' hle' => ?_
  exact Lockstep.pure ⟨rfl, fun i => (hnew i).mono hle'⟩

/-- Any number of ops keeps the registers equal and their objects owned. -/
theorem lock_keysOps (n : ℕ) :
    Lockstep reader S.contract S.contract Eq (fun reg reg' k k' => RegsOk k k' reg reg')
      (keysOps n) (keysOps n) r g g' :=
  Lockstep.loop lock_readerMore (fun _ _ _ _ _ h => lock_keysStep h) n
    ⟨rfl, fun _ => ⟨fun h => absurd rfl h, fun _ => rfl⟩⟩

end Lock

/-- Two implementations of the key API, which answer the calls on valid objects that a run
makes as specified, and leave what they like in the outputs of failed calls. After any
number of ops a register with `pkOk` set holds a pubkey a successful call made and one
with `pkOk` clear holds an empty one; every object passed to the library came from an
earlier successful call; and the transcripts are the same. -/
theorem keysOps_specified (S : KeySpec T) (lib : Build T σ) (lib' : Build T σ')
    (s : σ) (s' : σ') (inp : List UInt8)
    (hlib : ∀ n, S.contract.Answered [] ((keysOps n).run reader lib inp s).log)
    (hlib' : ∀ n, S.contract.Answered [] ((keysOps n).run reader lib' inp s').log) :
    (∀ n i, ((((keysOps n).run reader lib inp s).val i).pkOk ≠ 0 →
          .pubkey (((keysOps n).run reader lib inp s).val i).pk
            ∈ objectsMade ((keysOps n).run reader lib inp s).log) ∧
        ((((keysOps n).run reader lib inp s).val i).pkOk = 0 →
          (((keysOps n).run reader lib inp s).val i).pk = T.zeroPubkey)) ∧
    (∀ n l₁ e l₂, ((keysOps n).run reader lib inp s).log = l₁ ++ e :: l₂ →
      objectsValid l₁ e.op) ∧
    ∀ cap, transcriptFor targetKeys lib s cap inp =
      transcriptFor targetKeys lib' s' cap inp := by
  have hlock : ∀ n, Lockstep reader S.contract S.contract Eq (fun reg reg' k k' =>
    RegsOk k k' reg reg')
      (keysOps n) (keysOps n) inp [] [] := fun n => lock_keysOps n
  have hrun : ∀ n, _ := fun n =>
    (hlock n).run_eq_answered (fun _ _ h => h) s s' (hlib n) (hlib' n)
  refine ⟨fun n i => ?_, fun n l₁ e l₂ hl => ?_, fun cap => ?_⟩
  · obtain ⟨-, -, -, -, hregs⟩ := hrun n
    have hi := hregs.2 i
    rw [KeySpec.contract, Contract.history_after, List.nil_append] at hi
    exact ⟨fun hok => (hi.1 hok).1, hi.2⟩
  · obtain ⟨-, -, hkept, -, -⟩ := hrun n
    exact Contract.history_kept.mp hkept l₁ e l₂ hl
  · obtain ⟨hout, -⟩ := hrun keysMaxOps
    exact congrArg (transcriptOf cap) hout

def refKeySpec : KeySpec refTypes := ⟨refKey⟩

theorem refKey_spec {β : Type} (q : KeyCall refTypes β) :
    refKeySpec.spec q (refKey q) := by
  cases q with
  | ecPubkeySort pks => exact ⟨rfl, List.Perm.refl _, fun _ => rfl⟩
  | ecSeckeyVerify | ecPubkeyCmp | xonlyPubkeyCmp | xonlyPubkeyTweakAddCheck
  | pubkeySave => rfl
  | ecPubkeySerialize | keypairSec | keypairPub | keypairXonlyPub | xonlyPubkeySerialize
  | xonlyPubkeyFromPubkey | ecdhHashFunctionSha256 | taggedSha256 => exact ⟨rfl, rfl⟩
  | _ => exact ⟨rfl, fun _ => rfl⟩

theorem refLib_keys : refLib.Meets refKeySpec.contract := by
  intro g β q s _
  cases q with
  | key q => exact refKey_spec q
  | _ => trivial

/-- `refLib`, but a failed negation leaves `0xff` bytes. -/
def junkLib : Build refTypes Unit where
  answer {β} q s := match β, q with
    | _, .key (.ecSeckeyNegate _) => ((0, Vector.replicate 32 0xff), s)
    | _, q => (idle q, s)

theorem junkLib_keys : junkLib.Meets refKeySpec.contract := by
  intro g β q s hreq
  cases q with
  | key q =>
      cases q with
      | ecSeckeyNegate sk => exact ⟨rfl, fun h => absurd rfl h⟩
      | _ => exact (refKeySpec.contract_spec g _ _).mpr (refKey_spec _)
  | _ => trivial

/-- The negation of the zero key, which fails, on the input `0x01 0x00`. -/
theorem refLib_keysOps_specified :
    (∀ n i, ((((keysOps n).run reader refLib [1, 0] ()).val i).pkOk ≠ 0 →
          .pubkey (((keysOps n).run reader refLib [1, 0] ()).val i).pk
            ∈ objectsMade ((keysOps n).run reader refLib [1, 0] ()).log) ∧
        ((((keysOps n).run reader refLib [1, 0] ()).val i).pkOk = 0 →
          (((keysOps n).run reader refLib [1, 0] ()).val i).pk = refTypes.zeroPubkey)) ∧
    (∀ n l₁ e l₂, ((keysOps n).run reader refLib [1, 0] ()).log = l₁ ++ e :: l₂ →
      objectsValid l₁ e.op) ∧
    ∀ cap, transcriptFor targetKeys refLib () cap [1, 0]
      = transcriptFor targetKeys junkLib () cap [1, 0] :=
  keysOps_specified refKeySpec refLib junkLib () () [1, 0]
    (fun n => refLib_keys.answered reader (keysOps n) [1, 0] [] ())
    (fun n => junkLib_keys.answered reader (keysOps n) [1, 0] [] ())

end Diffsecp
