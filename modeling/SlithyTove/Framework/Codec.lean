import SlithyTove.Framework.Stateful
import Mathlib.Tactic.Ring

/-!
# Readers and what they read

A reader takes what it reads off the front of its input and may fail.  It reads a value from a text
(`Reads`) if it takes exactly this text off, whatever follows.  Where every part of a format has
that property, so has the whole: texts are put one after the other in the order in which the readers
run (`Reads.bind`).

The numbers of a fixed number of bytes are written with the least significant byte first.
-/

namespace SlithyTove.Framework

variable {ε σ α β : Type}

/-- A reader of texts over `σ`. -/
abbrev Reader (ε σ : Type) := EStateM ε (List σ)

/-- `r` reads `a` from `text`, and nothing of what follows. -/
def Reads (r : Reader ε σ α) (text : List σ) (a : α) : Prop :=
  ∀ rest, r (text ++ rest) = .ok a rest

lemma reads_pure (a : α) : Reads (pure a : Reader ε σ α) [] a := fun _ => rfl

variable {r : Reader ε σ α} {f : α → Reader ε σ β} {text : List σ} {a : α}

/-- **One after the other.** -/
lemma Reads.bind {text' : List σ} {b : β}
    (h : Reads r text a) (hf : Reads (f a) text' b) : Reads (r >>= f) (text ++ text') b := by
  intro rest
  rw [List.append_assoc, run_bind_of_ok (h _)]
  exact hf rest

lemma Reads.bind_nil {b : β}
    (h : Reads r text a) (hf : Reads (f a) [] b) : Reads (r >>= f) text b := by
  have hbind := h.bind hf
  rwa [List.append_nil] at hbind

lemma Reads.map (h : Reads r text a) (f : α → β) : Reads (f <$> r) text (f a) := by
  intro rest
  rw [← bind_pure_comp, run_bind_of_ok (h rest)]
  rfl

/-! ## Symbols -/

/-- The next `k` symbols, or none of them. -/
def readSymbols (eof : ε) (k : ℕ) : Reader ε σ (List σ) := fun text =>
  if k ≤ text.length then .ok (text.take k) (text.drop k) else .error eof text

lemma reads_readSymbols (eof : ε) (text : List σ) :
    Reads (readSymbols eof text.length) text text := by
  intro rest
  rw [readSymbols, if_pos (by simp), List.take_left, List.drop_left]

/-! ## Lists -/

/-- A reader several times. -/
def readMany (r : Reader ε σ α) : ℕ → Reader ε σ (List α)
  | 0 => pure []
  | k + 1 => do
    let a ← r
    let rest ← readMany r k
    return a :: rest

lemma reads_readMany {write : α → List σ} : ∀ {l : List α},
    (∀ a ∈ l, Reads r (write a) a) → Reads (readMany r l.length) (l.flatMap write) l
  | [], _ => reads_pure []
  | a :: l, h => by
    rw [List.flatMap_cons]
    have hrest : Reads (readMany r l.length) (l.flatMap write) l :=
      reads_readMany fun b hb => h b (List.mem_cons_of_mem a hb)
    exact (h a List.mem_cons_self).bind (hrest.bind_nil (reads_pure _))

/-! ## Numbers -/

/-- `k` bytes of a number, the least significant first. -/
def leBytes : (k n : ℕ) → List UInt8
  | 0, _ => []
  | k + 1, n => n.toUInt8 :: leBytes k (n / 256)

/-- The number that bytes stand for. -/
def leValue : List UInt8 → ℕ
  | [] => 0
  | x :: bytes => x.toNat + 256 * leValue bytes

@[simp] lemma length_leBytes : ∀ k n : ℕ, (leBytes k n).length = k
  | 0, _ => rfl
  | k + 1, n => by rw [leBytes, List.length_cons, length_leBytes k]

lemma leValue_leBytes : ∀ {k n : ℕ}, n < 256 ^ k → leValue (leBytes k n) = n
  | 0, n, h => by
    rw [pow_zero, Nat.lt_one_iff] at h
    rw [h]
    rfl
  | k + 1, n, h => by
    have hdiv : n / 256 < 256 ^ k := by
      rw [Nat.div_lt_iff_lt_mul (by omega), ← pow_succ]
      exact h
    have hbyte : n.toUInt8.toNat = n % 256 := UInt8.toNat_ofNat'
    rw [leBytes, leValue, leValue_leBytes hdiv, hbyte]
    omega

/-- A number of `k` bytes. -/
def readLE (eof : ε) (k : ℕ) : Reader ε UInt8 ℕ := leValue <$> readSymbols eof k

lemma reads_readLE (eof : ε) {k n : ℕ} (h : n < 256 ^ k) :
    Reads (readLE eof k) (leBytes k n) n := by
  have hread := (reads_readSymbols eof (leBytes k n)).map leValue
  rwa [length_leBytes, leValue_leBytes h] at hread

end SlithyTove.Framework
