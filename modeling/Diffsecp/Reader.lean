import Diffsecp.Interact.Lockstep
import Diffsecp.Interact.Refine
import Diffsecp.Numerals

/-!
# Reader

`src/reader.h`: the fuzz input as a device. Reads past the end yield zeros,
so every input is valid. The state of the device is the input left.
-/

namespace Diffsecp

open Interact

universe v

/-- A fixed-size byte array, as C declares it. -/
abbrev Bytes (n : Nat) := Vector UInt8 n

def zeroBytes (n : Nat) : Bytes n := Vector.replicate n 0

/-- What a target asks of its reader. -/
inductive ReaderOp : Type → Type where
  | take (n : Nat) : ReaderOp (Bytes n)
  | left : ReaderOp Nat

/-- `reader_take`: `k` bytes are copied and the rest of `out` is cleared. -/
def readerTakeBytes (r : List UInt8) (n : Nat) : Bytes n × List UInt8 :=
  let k := min n r.length
  (Vector.ofFn fun i => if i.val < k then r.getD i.val 0 else 0, r.drop k)

/-- The device the targets read. -/
def reader : Handler ReaderOp (List UInt8) where
  answer
    | .take n, r => readerTakeBytes r n
    | .left, r => (r.length, r)

section Ops

variable {Q : Type → Type v}

def readerTake (n : Nat) : Prog ReaderOp Q UInt8 (Bytes n) := Prog.ask (.take n)

def readerU8 : Prog ReaderOp Q UInt8 Nat := do
  let b ← readerTake 1
  pure b[0].toNat

def readerU16 : Prog ReaderOp Q UInt8 Nat := do
  let b ← readerTake 2
  pure (b[0].toNat <<< 8 ||| b[1].toNat)

def readerLeft : Prog ReaderOp Q UInt8 Nat := Prog.ask .left

def readerEmpty : Prog ReaderOp Q UInt8 Bool := do
  pure ((← readerLeft) == 0)

/-- The guard of the register machines' loops. -/
def readerMore : Prog ReaderOp Q UInt8 Bool := do
  pure (!(← readerEmpty))

end Ops

/-- The byte of the zero-filled input at `i`. -/
theorem readerTakeBytes_getElem (r : List UInt8) (n i : Nat) (h : i < n) :
    (readerTakeBytes r n).1[i] = r.getD i 0 := by
  simp only [readerTakeBytes, Vector.getElem_ofFn]
  split
  · rfl
  · rw [List.getD_eq_getElem?_getD, List.getElem?_eq_none (by omega), Option.getD_none]

theorem readerTakeBytes_rest (r : List UInt8) (n : Nat) :
    (readerTakeBytes r n).2 = r.drop n := by
  simp only [readerTakeBytes]
  rcases Nat.le_total n r.length with h | h
  · rw [Nat.min_eq_left h]
  · rw [Nat.min_eq_right h, List.drop_length, List.drop_eq_nil_of_le h]

section Run

variable {Q : Type → Type v} {σ α : Type} (h : Handler Q σ) (r : List UInt8) (s : σ)

theorem run_readerTake_bind {n : Nat} (f : Bytes n → Prog ReaderOp Q UInt8 α) :
    (readerTake n >>= f).run reader h r s =
      (f (readerTakeBytes r n).1).run reader h (r.drop n) s := by
  rw [← readerTakeBytes_rest]
  rfl

theorem run_readerU8_bind (f : Nat → Prog ReaderOp Q UInt8 α) :
    (readerU8 >>= f).run reader h r s =
      (f (r.getD 0 0).toNat).run reader h (r.drop 1) s := by
  simp only [readerU8, bind_assoc, pure_bind]
  rw [run_readerTake_bind, readerTakeBytes_getElem]

end Run

/-- The loop guard looks at the input and leaves it alone. -/
theorem readerMore_peeks {Q : Type → Type v} {σ : Type} (h : Handler Q σ) :
    Prog.Peeks reader h readerMore fun r => !r.isEmpty := by
  intro r s
  cases r <;> simp [readerMore, readerEmpty, readerLeft, reader]

/-- The register a selector byte picks at position `k`: `(sel / 4^k) % 4`. -/
def selReg (sel k : Nat) : Fin 4 := Fin.ofNat 4 (sel / 4 ^ k)

section Sat

universe u

variable {Q : Type → Type v} {γ : Type u} {C : Contract Q γ} {r : List UInt8} {g : γ}

theorem sat_readerU8 {Post : Nat → List UInt8 → γ → List (List UInt8) → Prop}
    (h : ∀ k r', Post k r' g []) : Sat reader C readerU8 r g Post := h _ _

theorem sat_readerU16 {Post : Nat → List UInt8 → γ → List (List UInt8) → Prop}
    (h : ∀ k r', Post k r' g []) : Sat reader C readerU16 r g Post := h _ _

theorem sat_readerMore (r : List UInt8) (g : γ)
    (Post : Bool → List UInt8 → γ → List (List UInt8) → Prop)
    (h : Post (!r.isEmpty) r g []) :
    Sat reader C readerMore r g Post := by
  cases r <;> exact h

end Sat

section Refines

universe u

variable {Q : Type → Type v} {γ : Type u} {C : Contract Q γ} {r : List UInt8}
  {g : γ} {α β : Type} {R : α → γ → β → Prop}

/-- Both sides read the same bytes. -/
theorem refines_readerTake {n : Nat} {f : Bytes n → Prog ReaderOp Q UInt8 α}
    {f' : Bytes n → Prog ReaderOp NoCall UInt8 β}
    (h : ∀ b r', Refines reader C (f b) (f' b) R r' g) :
    Refines reader C (readerTake n >>= f) (readerTake n >>= f') R r g :=
  Refines.ask_bind (h _ _)

/-- Both sides read the same byte. -/
theorem refines_readerU8_lt {f : Nat → Prog ReaderOp Q UInt8 α}
    {f' : Nat → Prog ReaderOp NoCall UInt8 β}
    (h : ∀ k r', k < 256 → Refines reader C (f k) (f' k) R r' g) :
    Refines reader C (readerU8 >>= f) (readerU8 >>= f') R r g := by
  simp only [readerU8, bind_assoc, pure_bind]
  exact refines_readerTake fun b _ => h _ _ b[0].toNat_lt

theorem refines_readerU8 {f : Nat → Prog ReaderOp Q UInt8 α}
    {f' : Nat → Prog ReaderOp NoCall UInt8 β}
    (h : ∀ k r', Refines reader C (f k) (f' k) R r' g) :
    Refines reader C (readerU8 >>= f) (readerU8 >>= f') R r g :=
  refines_readerU8_lt fun k r' _ => h k r'

theorem refines_readerU16 {f : Nat → Prog ReaderOp Q UInt8 α}
    {f' : Nat → Prog ReaderOp NoCall UInt8 β}
    (h : ∀ k r', Refines reader C (f k) (f' k) R r' g) :
    Refines reader C (readerU16 >>= f) (readerU16 >>= f') R r g := by
  simp only [readerU16, bind_assoc, pure_bind]
  exact refines_readerTake fun _ _ => h _ _

theorem refines_readerMore (r : List UInt8) (g : γ) :
    Refines reader C (readerMore : Prog ReaderOp Q UInt8 Bool) readerMore
      (fun b g' b' => b = b' ∧ g' = g) r g := by
  cases r <;> exact ⟨rfl, rfl, rfl, rfl⟩

end Refines

section Lockstep

universe u u' v'

variable {Q : Type → Type v} {Q' : Type → Type v'} {γ : Type u} {γ' : Type u'}
  {C : Contract Q γ}
  {C' : Contract Q' γ'} {E : List UInt8 → List UInt8 → Prop} {r : List UInt8}
  {g : γ} {g' : γ'}
  {α α' : Type} {Post : α → α' → γ → γ' → Prop}

/-- The bytes both runs read. -/
theorem lock_readerTake_at {n : Nat} {f : Bytes n → Prog ReaderOp Q UInt8 α}
    {f' : Bytes n → Prog ReaderOp Q' UInt8 α'}
    (h : Lockstep reader C C' E Post (f (readerTakeBytes r n).1)
      (f' (readerTakeBytes r n).1) (r.drop n) g g') :
    Lockstep reader C C' E Post (readerTake n >>= f) (readerTake n >>= f') r g g' := by
  rw [← readerTakeBytes_rest] at h
  exact Lockstep.ask_bind h

theorem lock_readerTake {n : Nat} {f : Bytes n → Prog ReaderOp Q UInt8 α}
    {f' : Bytes n → Prog ReaderOp Q' UInt8 α'}
    (h : ∀ b r', Lockstep reader C C' E Post (f b) (f' b) r' g g') :
    Lockstep reader C C' E Post (readerTake n >>= f) (readerTake n >>= f') r g g' :=
  lock_readerTake_at (h _ _)

theorem lock_readerU8_at {f : Nat → Prog ReaderOp Q UInt8 α}
    {f' : Nat → Prog ReaderOp Q' UInt8 α'}
    (h : Lockstep reader C C' E Post (f (r.getD 0 0).toNat) (f' (r.getD 0 0).toNat)
      (r.drop 1) g g') :
    Lockstep reader C C' E Post (readerU8 >>= f) (readerU8 >>= f') r g g' := by
  simp only [readerU8, bind_assoc, pure_bind]
  apply lock_readerTake_at
  rwa [readerTakeBytes_getElem]

theorem lock_readerU8 {f : Nat → Prog ReaderOp Q UInt8 α}
    {f' : Nat → Prog ReaderOp Q' UInt8 α'}
    (h : ∀ k r', Lockstep reader C C' E Post (f k) (f' k) r' g g') :
    Lockstep reader C C' E Post (readerU8 >>= f) (readerU8 >>= f') r g g' :=
  lock_readerU8_at (h _ _)

theorem lock_readerU16 {f : Nat → Prog ReaderOp Q UInt8 α}
    {f' : Nat → Prog ReaderOp Q' UInt8 α'}
    (h : ∀ k r', Lockstep reader C C' E Post (f k) (f' k) r' g g') :
    Lockstep reader C C' E Post (readerU16 >>= f) (readerU16 >>= f') r g g' := by
  simp only [readerU16, bind_assoc, pure_bind]
  exact lock_readerTake fun _ _ => h _ _

theorem lock_readerMore (r : List UInt8) (g : γ) (g' : γ') :
    Lockstep reader C C' E (fun b b' h h' => b = b' ∧ h = g ∧ h' = g')
      (readerMore : Prog ReaderOp Q UInt8 Bool)
      (readerMore : Prog ReaderOp Q' UInt8 Bool) r g g' := by
  cases r <;> exact .read (.ret ⟨rfl, rfl, rfl⟩)

end Lockstep

end Diffsecp
