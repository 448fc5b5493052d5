import Mathlib.Data.List.Nodup
import Mathlib.Data.List.Perm.Basic

/-!
# Backlogs that are worked off in batches

Every key of a backlog has some units of work left, at most `limit` of them.  A round uses up at least a
batch of units, or at least one unit of every key that has any left.  However the two kinds of rounds
alternate, nothing is left after `limit * n / batch + limit` rounds (`drained`).
-/

namespace Draining

variable {κ : Type} {keys : List κ} {batch limit : ℕ} {left left' left'' : κ → ℕ}

/-- The units that the keys have together. -/
def total (left : κ → ℕ) : List κ → ℕ
  | [] => 0
  | k :: keys => left k + total left keys

/-- What a round does to a backlog. -/
structure Round (keys : List κ) (batch : ℕ) (left left' : κ → ℕ) : Prop where
  le : ∀ k ∈ keys, left' k ≤ left k
  progress : total left' keys + batch ≤ total left keys ∨ ∀ k ∈ keys, left' k ≤ left k - 1

inductive Rounds (keys : List κ) (batch : ℕ) (left : κ → ℕ) : ℕ → (κ → ℕ) → Prop where
  | zero : Rounds keys batch left 0 left
  | succ {n : ℕ} {left' left'' : κ → ℕ} :
      Rounds keys batch left n left' → Round keys batch left' left'' →
        Rounds keys batch left (n + 1) left''

theorem total_le (h : ∀ k ∈ keys, left' k ≤ left k) : total left' keys ≤ total left keys := by
  induction keys with
  | nil => simp [total]
  | cons k keys ih =>
    have hk := h k List.mem_cons_self
    have hkeys := ih fun k' hk' => h k' (List.mem_cons_of_mem k hk')
    simp only [total]
    omega

theorem total_le_mul (h : ∀ k ∈ keys, left k ≤ limit) : total left keys ≤ limit * keys.length := by
  induction keys with
  | nil => simp [total]
  | cons k keys ih =>
    have hk := h k List.mem_cons_self
    have hkeys := ih fun k' hk' => h k' (List.mem_cons_of_mem k hk')
    simp only [total, List.length_cons, Nat.mul_succ]
    omega

/-- A round may be followed by something that takes units away. -/
theorem Round.mono (h : Round keys batch left left') (hle : ∀ k ∈ keys, left'' k ≤ left' k) :
    Round keys batch left left'' where
  le k hk := Nat.le_trans (hle k hk) (h.le k hk)
  progress := by
    have htotal := total_le hle
    exact h.progress.imp (fun hbatch => by omega) fun hpass k hk => Nat.le_trans (hle k hk) (hpass k hk)

/-- Keys that lose a unit each are as many units. -/
theorem total_add_length_le [DecidableEq κ] {chosen : List κ} (hnodup : chosen.Nodup)
    (hsubset : ∀ k ∈ chosen, k ∈ keys) (hle : ∀ k ∈ keys, left' k ≤ left k)
    (hlt : ∀ k ∈ chosen, left' k + 1 ≤ left k) :
    total left' keys + chosen.length ≤ total left keys := by
  induction keys generalizing chosen with
  | nil =>
    cases chosen with
    | nil => simp [total]
    | cons k chosen => cases hsubset k List.mem_cons_self
  | cons k keys ih =>
    have hk := hle k List.mem_cons_self
    have hle' : ∀ k' ∈ keys, left' k' ≤ left k' := fun k' hk' => hle k' (List.mem_cons_of_mem k hk')
    simp only [total]
    by_cases hmem : k ∈ chosen
    · -- the unit of `k` is counted here, the others in the rest of the keys
      have hrest := ih (hnodup.erase k) (fun k' hk' => ?_) hle' fun k' hk' =>
        hlt k' (List.mem_of_mem_erase hk')
      · have hlost := hlt k hmem
        have hpos := List.length_pos_of_mem hmem
        rw [List.length_erase_of_mem hmem] at hrest
        omega
      · obtain ⟨hne, hk'⟩ := hnodup.mem_erase_iff.mp hk'
        exact (List.mem_cons.mp (hsubset k' hk')).resolve_left hne
    · have hrest := ih hnodup (fun k' hk' => ?_) hle' hlt
      · omega
      · refine (List.mem_cons.mp (hsubset k' hk')).resolve_left ?_
        rintro rfl
        exact hmem hk'

/-- Of `n` rounds, some have used up a batch each and the others a unit of every key. -/
theorem Rounds.split {n : ℕ} (h : Rounds keys batch left n left')
    (hlimit : ∀ k ∈ keys, left k ≤ limit) : ∃ batches passes, batches + passes = n ∧
      batches * batch + total left' keys ≤ limit * keys.length ∧
      ∀ k ∈ keys, left' k ≤ limit - passes := by
  induction h with
  | zero => exact ⟨0, 0, rfl, by simpa using total_le_mul hlimit, hlimit⟩
  | succ _ hround ih =>
    obtain ⟨batches, passes, hn, htotal, hleft⟩ := ih
    have hle := total_le hround.le
    cases hround.progress with
    | inl hbatch =>
      refine ⟨batches + 1, passes, by omega, ?_, fun k hk => Nat.le_trans (hround.le k hk) (hleft k hk)⟩
      rw [Nat.succ_mul]
      omega
    | inr hpass =>
      refine ⟨batches, passes + 1, by omega, by omega, fun k hk => ?_⟩
      have hk₁ := hpass k hk
      have hk₂ := hleft k hk
      omega

/-- After `limit * n / batch + limit` rounds nothing is left of a backlog of `n` keys. -/
theorem Rounds.drained {n : ℕ} (h : Rounds keys batch left n left') (hbatch : 0 < batch)
    (hlimit : ∀ k ∈ keys, left k ≤ limit) (hn : limit * keys.length / batch + limit ≤ n) :
    ∀ k ∈ keys, left' k = 0 := by
  obtain ⟨batches, passes, hsum, htotal, hleft⟩ := h.split hlimit
  have hbatches : batches ≤ limit * keys.length / batch :=
    (Nat.le_div_iff_mul_le hbatch).mpr (Nat.le_trans (Nat.le_add_right _ _) htotal)
  intro k hk
  have := hleft k hk
  omega

end Draining
