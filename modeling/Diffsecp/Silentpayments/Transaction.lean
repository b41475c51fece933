import Diffsecp.Silentpayments.Target

/-!
# Silentpayments — Transaction

The transaction `sp_scan` builds: the twin, then the generated outputs in
order with the copies of the fuzzed one inserted at its position.
-/

namespace Diffsecp

variable {T : Types} {outputs foreigns : List T.XonlyPubkey} {pos : ℕ}

/-- Past the position, what is left is the rest of the outputs. -/
theorem spTxFrom_rest (i : ℕ) (hi : pos < i ∨ outputs.length < pos) :
    spTxFrom outputs foreigns pos (List.range' i (outputs.length + 1 - i)) =
      outputs.drop i := by
  induction hk : outputs.length + 1 - i generalizing i with
  | zero =>
      rw [List.drop_eq_nil_of_le (by omega)]
      rfl
  | succ k ih =>
      have hne : i ≠ pos := by omega
      rw [List.range'_succ, spTxFrom, if_neg hne, ih (i + 1) (by omega) (by omega),
        List.nil_append]
      by_cases hlt : i < outputs.length
      · rw [List.getElem?_eq_getElem hlt, List.drop_eq_getElem_cons hlt]
        rfl
      · rw [List.getElem?_eq_none (by omega), List.drop_eq_nil_of_le (by omega),
          List.drop_eq_nil_of_le (by omega)]
        rfl

/-- Up to the position, the outputs before it come first. -/
theorem spTxFrom_insert (i : ℕ) (hi : i ≤ pos) (hpos : pos ≤ outputs.length) :
    spTxFrom outputs foreigns pos (List.range' i (outputs.length + 1 - i)) =
      (outputs.drop i).take (pos - i) ++ foreigns ++ outputs.drop pos := by
  induction hk : pos - i generalizing i with
  | zero =>
      obtain rfl : i = pos := by omega
      have hlen : outputs.length + 1 - i = (outputs.length + 1 - (i + 1)) + 1 := by omega
      rw [hlen, List.range'_succ, spTxFrom, if_pos rfl, spTxFrom_rest (i + 1) (by omega)]
      simp only [List.take_zero, List.nil_append, List.append_assoc]
      congr 1
      by_cases hlt : i < outputs.length
      · rw [List.getElem?_eq_getElem hlt, List.drop_eq_getElem_cons hlt]
        rfl
      · rw [List.getElem?_eq_none (by omega), List.drop_eq_nil_of_le (by omega),
          List.drop_eq_nil_of_le (by omega)]
        rfl
  | succ k ih =>
      have hlt : i < outputs.length := by omega
      have hne : i ≠ pos := by omega
      have hlen : outputs.length + 1 - i = (outputs.length + 1 - (i + 1)) + 1 := by omega
      rw [hlen, List.range'_succ, spTxFrom, if_neg hne, ih (i + 1) (by omega) (by omega),
        List.getElem?_eq_getElem hlt, List.drop_eq_getElem_cons hlt]
      rfl

variable {twin : Option T.XonlyPubkey}

/-- The twin, the outputs before the position, the copies, the outputs
after. -/
theorem spTx_insert (hpos : pos ≤ outputs.length) :
    spTx twin outputs foreigns pos =
      twin.toList ++ (outputs.take pos ++ foreigns ++ outputs.drop pos) := by
  have hfrom : spTxFrom outputs foreigns pos _ = _ :=
    spTxFrom_insert 0 (Nat.zero_le pos) hpos
  rw [spTx, List.range_eq_range']
  rw [Nat.sub_zero, List.drop_zero, Nat.sub_zero] at hfrom
  rw [hfrom]

/-- Without a position nothing is inserted. -/
theorem spTx_plain (hpos : outputs.length < pos) :
    spTx twin outputs foreigns pos = twin.toList ++ outputs := by
  have hfrom : spTxFrom outputs foreigns pos _ = _ := spTxFrom_rest 0 (.inr hpos)
  rw [spTx, List.range_eq_range']
  rw [Nat.sub_zero, List.drop_zero] at hfrom
  rw [hfrom]

theorem spTx_length_le :
    (spTx twin outputs foreigns pos).length ≤ 1 + outputs.length + foreigns.length := by
  have htwin : twin.toList.length ≤ 1 := by cases twin <;> simp
  rcases Nat.lt_or_ge outputs.length pos with hpos | hpos
  · rw [spTx_plain hpos, List.length_append]
    omega
  · rw [spTx_insert hpos]
    simp only [List.length_append, List.length_take, List.length_drop]
    omega

end Diffsecp
