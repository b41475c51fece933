import Diffsecp.Reader

/-!
# Transcript

`src/transcript.h`: the append-only log of every result a target observes.
A target puts blocks; `transcriptPut` appends one to the buffer and aborts
when it does not fit. Nothing a target does depends on the buffer, so the
transcript of a run is the fold of `transcriptPut` over the blocks it put.
-/

namespace Diffsecp

open Interact

universe v w

/-- `DIFFSECP_INPUT_MAX`. -/
def inputMax : Nat := 4096

/-- `DIFFSECP_TRANSCRIPT_MAX`. -/
def transcriptMax : Nat := 2 ^ 18

structure Transcript where
  buf : List UInt8
  cap : Nat

/-- `none` is the abort on overflow. -/
def transcriptPut (t : Transcript) (p : List UInt8) : Option Transcript :=
  if t.cap - t.buf.length < p.length then none else some { t with buf := t.buf ++ p }

/-- The transcript of the blocks `ps`, or `none` if one of them overflows. -/
def transcriptOf (cap : Nat) (ps : List (List UInt8)) : Option (List UInt8) :=
  (ps.foldlM transcriptPut ⟨[], cap⟩).map Transcript.buf

/-- The big-endian bytes of a 32-bit word. -/
def be32 (v : UInt32) : List UInt8 :=
  [(v >>> 24).toUInt8, (v >>> 16).toUInt8, (v >>> 8).toUInt8, v.toUInt8]

section Ops

variable {D : Type → Type w} {Q : Type → Type v}

def transcriptBytes (p : List UInt8) : Prog D Q UInt8 Unit := Prog.emit p

def transcriptU8 (v : Nat) : Prog D Q UInt8 Unit := Prog.emit [UInt8.ofNat v]

def transcriptU32 (v : UInt32) : Prog D Q UInt8 Unit := Prog.emit (be32 v)

def transcriptInt (v : Int32) : Prog D Q UInt8 Unit := transcriptU32 v.toUInt32

end Ops

@[simp] theorem be32_length (v : UInt32) : (be32 v).length = 4 := rfl

/-- Four bytes determine the word. -/
theorem be32_inj {v w : UInt32} (h : be32 v = be32 w) : v = w := by
  simp only [be32, List.cons.injEq, and_true] at h
  obtain ⟨h3, h2, h1, h0⟩ := h
  apply UInt32.toNat_inj.mp
  have b3 := congrArg UInt8.toNat h3
  have b2 := congrArg UInt8.toNat h2
  have b1 := congrArg UInt8.toNat h1
  have b0 := congrArg UInt8.toNat h0
  simp [Nat.shiftRight_eq_div_pow] at b3 b2 b1 b0
  have hv := v.toNat_lt
  have hw := w.toNat_lt
  omega

theorem be32_int_inj {v w : Int32} (h : be32 v.toUInt32 = be32 w.toUInt32) : v = w :=
  congrArg Int32.ofUInt32 (be32_inj h)

section Refines

universe u

variable {D : Type → Type w} {Q : Type → Type v} {α β ρ : Type} {γ : Type u}
  {dev : Handler D ρ} {C : Contract Q γ} {r : ρ} {g : γ} {R : α → γ → β → Prop}

theorem refines_transcriptInt {x y : Int32} {f : Unit → Prog D Q UInt8 α}
    {f' : Unit → Prog D NoCall UInt8 β} (hxy : x = y)
    (h : Refines dev C (f ()) (f' ()) R r g) :
    Refines dev C (transcriptInt x >>= f) (transcriptInt y >>= f') R r g :=
  Refines.emit_bind (by rw [hxy]) h

theorem refines_transcriptU32 {x y : UInt32} {f : Unit → Prog D Q UInt8 α}
    {f' : Unit → Prog D NoCall UInt8 β} (hxy : x = y)
    (h : Refines dev C (f ()) (f' ()) R r g) :
    Refines dev C (transcriptU32 x >>= f) (transcriptU32 y >>= f') R r g :=
  Refines.emit_bind (by rw [hxy]) h

theorem refines_transcriptU8 {k : Nat} {f : Unit → Prog D Q UInt8 α}
    {f' : Unit → Prog D NoCall UInt8 β} (h : Refines dev C (f ()) (f' ()) R r g) :
    Refines dev C (transcriptU8 k >>= f) (transcriptU8 k >>= f') R r g :=
  Refines.emit_bind rfl h

end Refines

section Lockstep

universe u u' v'

variable {D : Type → Type w} {Q : Type → Type v} {Q' : Type → Type v'}
  {ρ α α' : Type} {γ : Type u}
  {γ' : Type u'} {dev : Handler D ρ} {C : Contract Q γ} {C' : Contract Q' γ'}
  {r : ρ} {g : γ}
  {g' : γ'} {Post : α → α' → γ → γ' → Prop} {f : Unit → Prog D Q UInt8 α}
  {f' : Unit → Prog D Q' UInt8 α'}

/-! Two runs that put equal blocks. -/

theorem lock_eq_bytes {p p' : List UInt8} (hp : p = p')
    (h : Lockstep dev C C' Eq Post (f ()) (f' ()) r g g') :
    Lockstep dev C C' Eq Post (transcriptBytes p >>= f)
      (transcriptBytes p' >>= f') r g g' :=
  Lockstep.emit_bind hp fun _ => h

theorem lock_eq_int {x x' : Int32} (hx : x = x')
    (h : Lockstep dev C C' Eq Post (f ()) (f' ()) r g g') :
    Lockstep dev C C' Eq Post (transcriptInt x >>= f) (transcriptInt x' >>= f') r g g' :=
  Lockstep.emit_bind (by rw [hx]) fun _ => h

theorem lock_eq_u8 {k : Nat} (h : Lockstep dev C C' Eq Post (f ()) (f' ()) r g g') :
    Lockstep dev C C' Eq Post (transcriptU8 k >>= f) (transcriptU8 k >>= f') r g g' :=
  Lockstep.emit_bind rfl fun _ => h

/-! Two runs that put blocks of equal length: what follows may use that the
blocks were equal. -/

def SameLength (p p' : List UInt8) : Prop := p.length = p'.length

theorem lock_len_bytes {p p' : List UInt8} (hp : p.length = p'.length)
    (h : p = p' → Lockstep dev C C' SameLength Post (f ()) (f' ()) r g g') :
    Lockstep dev C C' SameLength Post (transcriptBytes p >>= f)
      (transcriptBytes p' >>= f') r g g' :=
  Lockstep.emit_bind hp h

/-- An array has the length of its type. -/
theorem lock_len_array {n : Nat} {b b' : Bytes n}
    (h : b = b' → Lockstep dev C C' SameLength Post (f ()) (f' ()) r g g') :
    Lockstep dev C C' SameLength Post (transcriptBytes b.toList >>= f)
      (transcriptBytes b'.toList >>= f') r g g' := by
  apply lock_len_bytes
  · rw [Vector.length_toList, Vector.length_toList]
  · exact fun heq => h (Vector.toList_inj.mp heq)

theorem lock_len_int {x x' : Int32}
    (h : x = x' → Lockstep dev C C' SameLength Post (f ()) (f' ()) r g g') :
    Lockstep dev C C' SameLength Post (transcriptInt x >>= f)
      (transcriptInt x' >>= f') r g g' :=
  Lockstep.emit_bind rfl fun heq => h (be32_int_inj heq)

theorem lock_len_int_end {Post : Unit → Unit → γ → γ' → Prop} {x x' : Int32}
    (h : x = x' → Post () () g g') :
    Lockstep dev C C' SameLength Post (transcriptInt x) (transcriptInt x') r g g' :=
  Lockstep.emit rfl fun heq => h (be32_int_inj heq)

theorem lock_len_u32 {x x' : UInt32}
    (h : x = x' → Lockstep dev C C' SameLength Post (f ()) (f' ()) r g g') :
    Lockstep dev C C' SameLength Post (transcriptU32 x >>= f)
      (transcriptU32 x' >>= f') r g g' :=
  Lockstep.emit_bind rfl fun heq => h (be32_inj heq)

theorem lock_len_u8 {k : Nat}
    (h : Lockstep dev C C' SameLength Post (f ()) (f' ()) r g g') :
    Lockstep dev C C' SameLength Post (transcriptU8 k >>= f)
      (transcriptU8 k >>= f') r g g' :=
  Lockstep.emit_bind rfl fun _ => h

end Lockstep

/-- Appending to a buffer that has room for it all succeeds, and a buffer
that does not have it overflows at some block. -/
theorem foldlM_transcriptPut (ps : List (List UInt8)) (t : Transcript)
    (ht : t.buf.length ≤ t.cap) :
    ps.foldlM transcriptPut t =
      if t.buf.length + ps.flatten.length ≤ t.cap then some { t with
        buf := t.buf ++ ps.flatten }
      else none := by
  induction ps generalizing t with
  | nil => simp [ht]
  | cons p ps ih =>
      simp only [List.foldlM_cons, transcriptPut]
      by_cases hp : t.cap - t.buf.length < p.length
      · rw [if_pos hp, if_neg]
        · rfl
        · simp only [List.flatten_cons, List.length_append]
          omega
      · rw [if_neg hp]
        show ps.foldlM transcriptPut { t with buf := t.buf ++ p } = _
        rw [ih _ (by simp only [List.length_append]; omega)]
        simp only [List.length_append, List.flatten_cons, List.append_assoc,
          Nat.add_assoc]

/-- The transcript is the concatenation of the blocks when it fits. -/
theorem transcriptOf_eq (cap : Nat) (ps : List (List UInt8)) :
    transcriptOf cap ps = if ps.flatten.length ≤ cap then some ps.flatten else none := by
  rw [transcriptOf, foldlM_transcriptPut _ _ (Nat.zero_le _)]
  simp only [List.length_nil, Nat.zero_add, List.nil_append]
  split <;> rfl

theorem transcriptOf_some {cap : Nat} {ps : List (List UInt8)}
    (h : ps.flatten.length ≤ cap) :
    transcriptOf cap ps = some ps.flatten := by
  rw [transcriptOf_eq, if_pos h]

end Diffsecp
