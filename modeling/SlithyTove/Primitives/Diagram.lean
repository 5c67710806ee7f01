import Mathlib.Algebra.Order.Archimedean.Real.Basic
import SlithyTove.Framework.Polyline
import SlithyTove.Primitives.FeeFrac

/-!
# Fee rate diagrams

The diagram of a list of chunks starts at the origin, has a point for the cumulative size and fee up
to each chunk, and is horizontal after the last one.  It is the polyline of the chunks, with real
sizes and fees; the slope of a piece is the fee rate of its chunk.
-/

namespace SlithyTove

open Framework

namespace FeeFrac

/-- A fraction as a piece of a diagram. -/
def piece (f : FeeFrac) : Piece ℝ := ⟨f.size, f.fee⟩

lemma totalWidth_map_piece (l : List FeeFrac) : totalWidth (l.map piece) = (l.sum.size : ℝ) := by
  induction l with
  | nil => simp
  | cons f l ih => simp [ih, piece]

lemma totalHeight_map_piece (l : List FeeFrac) : totalHeight (l.map piece) = (l.sum.fee : ℝ) := by
  induction l with
  | nil => simp
  | cons f l ih => simp [ih, piece]

variable {l : List FeeFrac}

lemma rightward_map_piece : Rightward (l.map piece) ↔ ∀ f ∈ l, 0 < f.size := by
  simp [Rightward, piece]

lemma sum_size_nonneg (h : ∀ f ∈ l, 0 < f.size) : 0 ≤ l.sum.size := by
  induction l with
  | nil => simp
  | cons f l ih =>
    obtain ⟨hf, hl⟩ := List.forall_mem_cons.mp h
    rw [List.sum_cons, FeeFrac.add_size]
    have := ih hl
    omega

end FeeFrac

/-- The cumulative fee at each size. -/
noncomputable def diagram (chunks : List FeeFrac) : ℝ → ℝ := polyline (chunks.map FeeFrac.piece)

namespace FeeFrac

lemma higher_iff_slope {a b : FeeFrac} (ha : 0 < a.size) (hb : 0 < b.size) :
    a.higher b = true ↔ b.piece.slope < a.piece.slope := by
  have ha' : (0 : ℝ) < a.size := by exact_mod_cast ha
  have hb' : (0 : ℝ) < b.size := by exact_mod_cast hb
  simp only [higher, decide_eq_true_eq, gt_iff_lt, Piece.slope, piece]
  rw [div_lt_div_iff₀ hb' ha']
  norm_cast

lemma merge_map_piece (l : List FeeFrac) : merge (l.map piece) = l.sum.piece := by
  rw [merge, totalWidth_map_piece, totalHeight_map_piece, piece]

end FeeFrac

end SlithyTove
