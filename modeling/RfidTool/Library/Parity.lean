import Mathlib.Data.List.Basic
import Mathlib.Tactic.Common

/-!
# Parity of lists of bits

The exclusive or of a list, its behaviour under concatenation, and the exchange
of the two sums in a table of bits, on which every check digit rests.
-/

namespace Parity

/-- The exclusive or of all bits. -/
def parity (bs : List Bool) : Bool := bs.foldr (· ^^ ·) false

@[simp] theorem parity_nil : parity [] = false := rfl

@[simp] theorem parity_cons (b : Bool) (bs : List Bool) : parity (b :: bs) = (b ^^ parity bs) := rfl

@[simp] theorem parity_append (as bs : List Bool) :
    parity (as ++ bs) = (parity as ^^ parity bs) := by
  induction as with
  | nil => simp
  | cons a as ih => simp [ih]

/-- A list of ones is even exactly when its length is. -/
theorem parity_replicate_true (n : ℕ) :
    parity (List.replicate n true) = decide (n % 2 = 1) := by
  induction n with
  | zero => rfl
  | succ n ih =>
    rw [List.replicate_succ, parity_cons, ih]
    grind

theorem parity_map_xor {ι : Type*} (f g : ι → Bool) (is : List ι) :
    parity (is.map fun i => f i ^^ g i) = (parity (is.map f) ^^ parity (is.map g)) := by
  induction is with
  | nil => rfl
  | cons i is ih => simp [ih, Bool.xor_left_comm]

/-- Row parities and column parities of a table have the same sum. -/
theorem parity_exchange {ι κ : Type*} (f : ι → κ → Bool) (is : List ι) (ks : List κ) :
    parity (ks.map fun k => parity (is.map fun i => f i k)) =
      parity (is.map fun i => parity (ks.map fun k => f i k)) := by
  induction ks with
  | nil => induction is <;> simp_all
  | cons k ks ih => simp only [List.map_cons, parity_cons, ih, parity_map_xor]

/-- A list of even parity and odd length holds a zero. -/
theorem exists_false_of_even {bs : List Bool} (h : parity bs = false) (hodd : bs.length % 2 = 1) :
    ∃ b ∈ bs, b = false := by
  by_contra hall
  have hones : bs = List.replicate bs.length true :=
    List.eq_replicate_iff.mpr ⟨rfl, fun b hb => by
      have := fun hf => hall ⟨b, hb, hf⟩
      simpa using this⟩
  rw [hones, parity_replicate_true] at h
  simp [hodd] at h

end Parity
