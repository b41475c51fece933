import Diffsecp.Common
import Diffsecp.Interact.Output

/-!
# Length — Basic

The sizes libsecp documents, and how much the pieces every target is built
from put in the transcript.
-/

namespace Diffsecp

open Interact

universe u v

/-- The documented sizes: serialized pubkeys of 33 or 65 bytes, DER signatures
of at most 72, and no more outputs found than the transaction has. Nothing is
asked of a call, and nothing else is known of an answer. -/
def documentedSizes (T : Types) : Contract (LibCall T) Unit :=
  .stateless (fun _ => True)
    (fun {β} (q : LibCall T β) (a : β) => match β, q, a with
      | _, .key (.ecPubkeySerialize _ compressed), (_, ser) =>
          ser.length = if compressed then 33 else 65
      | _, .ecdsa (.signatureSerializeDer _ _), (ret, der, _) => ret ≠ 0 → der.length ≤ 72
      | _, .sp (.recipientScanOutputs tx _ _ _ _), (ret, nFound, _) =>
          ret ≠ 0 → nFound.toNat ≤ tx.length
      | _, _, _ => True)

theorem documentedSizes_free (T : Types) : (documentedSizes T).Free :=
  fun _ _ _ => trivial

section Rules

variable {Q : Type → Type v} {γ : Type u} {C : Contract Q γ} {α : Type}
  {P : α → Prop} {n : ℕ}

/-! ## The transcript -/

theorem puts_int {x : Int32} {f : Unit → Prog ReaderOp Q UInt8 α}
    (h : Puts reader C (f ()) n P) :
    Puts reader C (transcriptInt x >>= f) (n + 4) P := Puts.emit_bind h (Nat.le_refl 4)

theorem puts_int_end {x : Int32} :
    Puts reader C (transcriptInt x : Prog ReaderOp Q UInt8 Unit) (n + 4)
    fun _ => True := Puts.emit (Nat.le_add_left 4 n) trivial

theorem puts_u32 {x : UInt32} {f : Unit → Prog ReaderOp Q UInt8 α}
    (h : Puts reader C (f ()) n P) :
    Puts reader C (transcriptU32 x >>= f) (n + 4) P := Puts.emit_bind h (Nat.le_refl 4)

theorem puts_u32_end {x : UInt32} :
    Puts reader C (transcriptU32 x : Prog ReaderOp Q UInt8 Unit) (n + 4)
    fun _ => True := Puts.emit (Nat.le_add_left 4 n) trivial

theorem puts_u8 {k : Nat} {f : Unit → Prog ReaderOp Q UInt8 α}
    (h : Puts reader C (f ()) n P) :
    Puts reader C (transcriptU8 k >>= f) (n + 1) P := Puts.emit_bind h (Nat.le_refl 1)

theorem puts_bytes {p : List UInt8} {m : ℕ} {f : Unit → Prog ReaderOp Q UInt8 α}
    (hp : p.length ≤ m) (h : Puts reader C (f ()) n P) :
    Puts reader C (transcriptBytes p >>= f) (n + m) P :=
  Puts.emit_bind h hp

theorem puts_bytes_end {p : List UInt8} (hp : p.length ≤ n) :
    Puts reader C (transcriptBytes p : Prog ReaderOp Q UInt8 Unit) n fun _ => True :=
  Puts.emit hp trivial

/-- An array has the length of its type. -/
theorem puts_array {m : ℕ} {b : Bytes m} {f : Unit → Prog ReaderOp Q UInt8 α}
    (h : Puts reader C (f ()) n P) :
    Puts reader C (transcriptBytes b.toList >>= f) (n + m) P :=
  puts_bytes (Nat.le_of_eq Vector.length_toList) h

theorem puts_array_end {m : ℕ} {b : Bytes m} :
    Puts reader C (transcriptBytes b.toList : Prog ReaderOp Q UInt8 Unit)
      (n + m) fun _ => True :=
  puts_bytes_end (by rw [Vector.length_toList]; omega)

theorem wrote_int {x : Int32} {f : Unit → Prog ReaderOp Q UInt8 α} (hC : C.Free) :
    Wrote reader C (transcriptInt x >>= f) := Wrote.emit_bind hC nofun

theorem wrote_u8 {k : Nat} {f : Unit → Prog ReaderOp Q UInt8 α} (hC : C.Free) :
    Wrote reader C (transcriptU8 k >>= f) := Wrote.emit_bind hC nofun

/-! ## The reader -/

theorem puts_readerTake {k : Nat} {f : Bytes k → Prog ReaderOp Q UInt8 α}
    (h : ∀ b, Puts reader C (f b) n P) : Puts reader C (readerTake k >>= f) n P :=
      Puts.ask_bind h

theorem puts_readerU8 {f : Nat → Prog ReaderOp Q UInt8 α}
    (h : ∀ k, Puts reader C (f k) n P) :
    Puts reader C (readerU8 >>= f) n P := by
  simp only [readerU8, bind_assoc, pure_bind]
  exact puts_readerTake fun _ => h _

theorem puts_readerU16 {f : Nat → Prog ReaderOp Q UInt8 α}
    (h : ∀ k, Puts reader C (f k) n P) :
    Puts reader C (readerU16 >>= f) n P := by
  simp only [readerU16, bind_assoc, pure_bind]
  exact puts_readerTake fun _ => h _

theorem puts_readerLeft {f : Nat → Prog ReaderOp Q UInt8 α}
    (h : ∀ k, Puts reader C (f k) n P) :
    Puts reader C (readerLeft >>= f) n P := Puts.ask_bind h

theorem puts_readerMore :
    Puts reader C (readerMore : Prog ReaderOp Q UInt8 Bool) n fun _ => True :=
  ⟨fun r g => sat_readerMore r g _ ⟨trivial, Nat.zero_le n⟩⟩

end Rules

variable {T : Types} {α β : Type} {P : α → Prop} {n m : ℕ}

/-- `p` puts at most `n` bytes. -/
abbrev Writes (p : Harness T α) (n : ℕ) : Prop :=
  Puts reader (documentedSizes T) p n fun _ => True

/-- A call of which nothing is known. -/
theorem puts_call {q : LibCall T β} {f : β → Harness T α}
    (h : ∀ x, Puts reader (documentedSizes T) (f x) n P) :
    Puts reader (documentedSizes T) (Prog.invoke q >>= f) n P :=
  Puts.invoke_bind (documentedSizes_free T) fun _ x _ => h x

theorem writes_call_end {q : LibCall T β} : Writes (Prog.invoke q : Harness T β) n :=
  Puts.invoke (documentedSizes_free T) fun _ _ _ => trivial

/-- A choice of at most `m` bytes, then the rest. -/
theorem writes_ite {c : Prop} [Decidable c] {p q : Harness T β} {f : β → Harness T α}
    (hpos : c → Writes p m) (hneg : ¬ c → Writes q m)
    (h : ∀ x, Puts reader (documentedSizes T) (f x) n P) :
    Puts reader (documentedSizes T) ((if c then p else q) >>= f) (n + m) P :=
  Puts.bind (Puts.ite hpos hneg) fun x _ => h x

/-- A part of at most `m` bytes, then the rest. -/
theorem writes_bind {p : Harness T β} {f : β → Harness T α} (hp : Writes p m)
    (h : ∀ x, Puts reader (documentedSizes T) (f x) n P) :
    Puts reader (documentedSizes T) (p >>= f) (n + m) P :=
  Puts.bind hp fun x _ => h x

theorem writes_pure {a : α} : Writes (pure a : Harness T α) n := Puts.pure trivial

/-- Bytes where the code was not zero. -/
theorem writes_where {c : Prop} [Decidable c] {m : ℕ} {b : Bytes m} :
    Writes (if c then transcriptBytes b.toList else pure () : Harness T Unit) m := by
  apply Puts.ite
  · intro _
    exact puts_bytes_end (Nat.le_of_eq Vector.length_toList)
  · intro _
    exact writes_pure

/-- Bytes read where a flag asks for them. -/
theorem writes_readerTake? {c : Prop} [Decidable c] {m : ℕ} :
    Writes (if c then (do let b ← readerTake m; pure (some b))
      else pure none : Harness T (Option (Bytes m))) 0 := by
  apply Puts.ite
  · intro _
    apply puts_readerTake
    intro b
    exact writes_pure
  · intro _
    exact writes_pure

/-! ## What the targets share -/

theorem writes_recordPubkey (compressed : Bool) (pk : T.Pubkey) :
    Writes (recordPubkey compressed pk) (if compressed then 33 else 65) := by
  apply Puts.invoke_bind (documentedSizes_free T)
  intro _ ⟨_, ser⟩ hser
  exact puts_bytes_end (Nat.le_of_eq hser)

theorem writes_recordPubkeyBoth (pk : T.Pubkey) : Writes (recordPubkeyBoth pk) 98 :=
  writes_bind (writes_recordPubkey true pk) fun _ => writes_recordPubkey false pk

theorem writes_mutations (kinds : ℕ) (mutate : ℕ → ℕ → ℕ → α → α) (count : ℕ) (a : α) :
    Writes (mutations kinds mutate count a : Harness T α) 0 := by
  induction count generalizing a with
  | zero => exact writes_pure
  | succ count ih =>
      apply puts_readerU8
      intro which
      apply puts_readerU8
      intro pos
      apply puts_readerU8
      intro mask
      exact ih _

theorem writes_mutateUpTo7 (kinds : ℕ) (mutate : ℕ → ℕ → ℕ → α → α) (a : α) :
    Writes (mutateUpTo7 kinds mutate a : Harness T α) 0 := by
  apply puts_readerU8
  intro nmut
  exact writes_mutations kinds mutate _ a

theorem writes_readerTakes (size k : ℕ) :
    Writes (readerTakes size k : Harness T _) 0 := by
  induction k with
  | zero => exact writes_pure
  | succ k ih =>
      apply writes_bind ih
      intro bs
      apply puts_readerTake
      intro b
      exact writes_pure

end Diffsecp
