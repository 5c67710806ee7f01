import Mathlib.Analysis.Convex.Function
import Mathlib.Tactic.Linarith

/-!
# Polylines and their hulls

A list of pieces with a width and a height, put end to end from the origin, is a function: linear on
each piece, and constant after the last one.  Two such functions are compared at the ends of their
pieces (`Affine.le`), since they are affine in between.

Pieces may be merged.  If every point at the end of a piece lies on or below the line of the merged
piece that it went into (`Below`), and the slopes of the merged pieces do not increase, then their
polyline is the least concave function on or above these points (`IsHull.concaveOn`, `IsHull.le`,
`IsHull.least`).  Two neighbours may be merged if the second is at least as steep (`Below.append`).
-/

namespace SlithyTove.Framework

open List

variable {K : Type*} [Field K] [LinearOrder K] [IsStrictOrderedRing K]

/-- A piece of a polyline. -/
@[ext]
structure Piece (K : Type*) where
  width : K
  height : K

namespace Piece

/-- The rise of a piece. -/
def slope (p : Piece K) : K := p.height / p.width

omit [LinearOrder K] [IsStrictOrderedRing K] in
lemma slope_mul_width {p : Piece K} (h : p.width ≠ 0) : p.slope * p.width = p.height :=
  div_mul_cancel₀ p.height h

end Piece

/-! ## The function -/

section Polyline

/-- Where the pieces end. -/
def totalWidth (l : List (Piece K)) : K := (l.map Piece.width).sum

/-- How high they end. -/
def totalHeight (l : List (Piece K)) : K := (l.map Piece.height).sum

/-- The pieces end to end, and a horizontal line after the last. -/
def polyline : List (Piece K) → K → K
  | [], _ => 0
  | p :: rest, x => if x ≤ p.width then p.slope * x else p.height + polyline rest (x - p.width)

section Totals

omit [LinearOrder K] [IsStrictOrderedRing K]

@[simp] lemma totalWidth_nil : totalWidth ([] : List (Piece K)) = 0 := rfl

@[simp] lemma totalHeight_nil : totalHeight ([] : List (Piece K)) = 0 := rfl

@[simp] lemma totalWidth_cons (p : Piece K) (l : List (Piece K)) :
    totalWidth (p :: l) = p.width + totalWidth l := sum_cons

@[simp] lemma totalHeight_cons (p : Piece K) (l : List (Piece K)) :
    totalHeight (p :: l) = p.height + totalHeight l := sum_cons

@[simp] lemma totalWidth_append (l₁ l₂ : List (Piece K)) :
    totalWidth (l₁ ++ l₂) = totalWidth l₁ + totalWidth l₂ := by
  rw [totalWidth, map_append, sum_append]
  rfl

@[simp] lemma totalHeight_append (l₁ l₂ : List (Piece K)) :
    totalHeight (l₁ ++ l₂) = totalHeight l₁ + totalHeight l₂ := by
  rw [totalHeight, map_append, sum_append]
  rfl

end Totals

/-- Pieces of positive width. -/
def Rightward (l : List (Piece K)) : Prop := ∀ p ∈ l, 0 < p.width

omit [IsStrictOrderedRing K] in
lemma rightward_append {l₁ l₂ : List (Piece K)} :
    Rightward (l₁ ++ l₂) ↔ Rightward l₁ ∧ Rightward l₂ :=
  forall_mem_append

variable {l : List (Piece K)}

omit [IsStrictOrderedRing K] in
lemma rightward_cons {p : Piece K} : Rightward (p :: l) ↔ 0 < p.width ∧ Rightward l :=
  forall_mem_cons

lemma Rightward.totalWidth_nonneg (h : Rightward l) : 0 ≤ totalWidth l := by
  exact sum_nonneg (forall_mem_map.mpr fun p hp => (h p hp).le)

section

omit [IsStrictOrderedRing K]

lemma polyline_of_le {p : Piece K} {x : K} (hx : x ≤ p.width) (rest : List (Piece K)) :
    polyline (p :: rest) x = p.slope * x := if_pos hx

lemma polyline_zero {l : List (Piece K)} (h : Rightward l) : polyline l 0 = 0 := by
  cases l with
  | nil => rfl
  | cons p rest => rw [polyline_of_le (rightward_cons.mp h).1.le, mul_zero]

lemma polyline_of_ge {p : Piece K} {rest : List (Piece K)} (h : Rightward (p :: rest)) {x : K}
    (hx : p.width ≤ x) : polyline (p :: rest) x = p.height + polyline rest (x - p.width) := by
  obtain ⟨hp, hrest⟩ := rightward_cons.mp h
  obtain heq | hlt := hx.eq_or_lt
  · rw [polyline_of_le heq.ge, ← heq, Piece.slope_mul_width hp.ne', sub_self, polyline_zero hrest,
      add_zero]
  · exact if_neg hlt.not_ge

end

lemma polyline_append_of_ge : ∀ {l₁ l₂ : List (Piece K)}, Rightward (l₁ ++ l₂) → ∀ {x : K},
    totalWidth l₁ ≤ x → polyline (l₁ ++ l₂) x = totalHeight l₁ + polyline l₂ (x - totalWidth l₁)
  | [], l₂, _, x, _ => by simp
  | p :: l₁, l₂, h, x, hx => by
    rw [cons_append] at h
    obtain ⟨hp, hrest⟩ := rightward_cons.mp h
    have hwidth := (rightward_append.mp hrest).1.totalWidth_nonneg
    rw [totalWidth_cons] at hx
    rw [cons_append, polyline_of_ge h (by linarith),
      polyline_append_of_ge hrest (by linarith), totalHeight_cons, totalWidth_cons, sub_sub,
      add_assoc]

lemma polyline_of_totalWidth_le (h : Rightward l) {x : K}
    (hx : totalWidth l ≤ x) : polyline l x = totalHeight l := by
  have happend := @polyline_append_of_ge K _ _ _ l [] (by rwa [append_nil]) x hx
  rwa [append_nil, polyline, add_zero] at happend

lemma polyline_piece {l₁ l₂ : List (Piece K)} {p : Piece K} (h : Rightward (l₁ ++ p :: l₂)) {x : K}
    (hlow : totalWidth l₁ ≤ x) (hhigh : x ≤ totalWidth l₁ + p.width) :
    polyline (l₁ ++ p :: l₂) x = totalHeight l₁ + p.slope * (x - totalWidth l₁) := by
  rw [polyline_append_of_ge h hlow, polyline_of_le (by linarith)]

end Polyline

/-! ## Comparing two functions -/

/-- Affine on an interval. -/
def Affine (f : K → K) (a b : K) : Prop :=
  ∃ c m : K, ∀ x, a ≤ x → x ≤ b → f x = c + m * x

/-- **Affine functions are compared at the ends.** -/
lemma Affine.le {f g : K → K} {a b : K} (hf : Affine f a b) (hg : Affine g a b)
    (ha : f a ≤ g a) (hb : f b ≤ g b) {x : K} (hax : a ≤ x) (hxb : x ≤ b) : f x ≤ g x := by
  obtain ⟨c, m, hf⟩ := hf
  obtain ⟨d, k, hg⟩ := hg
  have hab := hax.trans hxb
  rw [hf a le_rfl hab, hg a le_rfl hab] at ha
  rw [hf b hab le_rfl, hg b hab le_rfl] at hb
  rw [hf x hax hxb, hg x hax hxb]
  obtain hslope | hslope := le_total m k
  · nlinarith [mul_nonneg (sub_nonneg.mpr hslope) (sub_nonneg.mpr hax)]
  · nlinarith [mul_nonneg (sub_nonneg.mpr hslope) (sub_nonneg.mpr hxb)]

lemma Affine.le_extend {f g : K → K} {a b : K} (ha : 0 ≤ a) (hf : Affine f a b)
    (hg : Affine g a b) (hbefore : ∀ x, 0 ≤ x → x ≤ a → f x ≤ g x) (hb : f b ≤ g b) {x : K}
    (hx₀ : 0 ≤ x) (hx : x ≤ b) : f x ≤ g x := by
  obtain hle | hlt := le_or_gt x a
  · exact hbefore x hx₀ hle
  · exact hf.le hg (hbefore a ha le_rfl) hb hlt.le hx

/-! ## Hulls -/

section Hull

/-- Pieces as one. -/
def merge (g : List (Piece K)) : Piece K := ⟨totalWidth g, totalHeight g⟩

/-- The ends of the pieces are on or below the line of the merged piece. -/
def Below (g : List (Piece K)) : Prop :=
  ∀ a b, g = a ++ b → totalHeight a ≤ (merge g).slope * totalWidth a

omit [IsStrictOrderedRing K] in
lemma below_singleton {p : Piece K} (hp : 0 < p.width) : Below [p] := by
  intro a b hab
  have hslope : (merge [p]).slope = p.slope := by simp [merge, Piece.slope]
  cases a with
  | nil => simp
  | cons q a =>
    rw [cons_append] at hab
    obtain ⟨rfl, hrest⟩ := List.cons.inj hab
    obtain ⟨rfl, rfl⟩ := append_eq_nil_iff.mp hrest.symm
    rw [hslope]
    simp [Piece.slope_mul_width hp.ne']

/-- **Two neighbours may be merged** if the second is at least as steep: the merged piece is steeper
than the first and not steeper than the second. -/
lemma Below.append {g₁ g₂ : List (Piece K)} (h₁ : Below g₁) (h₂ : Below g₂) (hg₁ : Rightward g₁)
    (hg₂ : Rightward g₂) (hpos₁ : 0 < totalWidth g₁) (hpos₂ : 0 < totalWidth g₂)
    (hslope : (merge g₁).slope ≤ (merge g₂).slope) : Below (g₁ ++ g₂) := by
  have hmul₁ : (merge g₁).slope * totalWidth g₁ = totalHeight g₁ :=
    Piece.slope_mul_width (p := merge g₁) hpos₁.ne'
  have hmul₂ : (merge g₂).slope * totalWidth g₂ = totalHeight g₂ :=
    Piece.slope_mul_width (p := merge g₂) hpos₂.ne'
  have hmul : (merge (g₁ ++ g₂)).slope * (totalWidth g₁ + totalWidth g₂) =
      totalHeight g₁ + totalHeight g₂ := by
    rw [← totalWidth_append, ← totalHeight_append]
    exact Piece.slope_mul_width (p := merge (g₁ ++ g₂))
      (by simp only [merge, totalWidth_append]; linarith)
  unfold Below
  generalize (merge (g₁ ++ g₂)).slope = s at hmul ⊢
  have hs₁ : (merge g₁).slope ≤ s := by
    by_contra hlt
    nlinarith [mul_lt_mul_of_pos_right (not_le.mp hlt) hpos₁,
      mul_lt_mul_of_pos_right ((not_le.mp hlt).trans_le hslope) hpos₂]
  have hs₂ : s ≤ (merge g₂).slope := by
    by_contra hlt
    nlinarith [mul_lt_mul_of_pos_right (not_le.mp hlt) hpos₂,
      mul_lt_mul_of_pos_right (hslope.trans_lt (not_le.mp hlt)) hpos₁]
  intro a b hab
  obtain ⟨c, hc, hb⟩ | ⟨c, hc, hb⟩ := append_eq_append_iff.mp hab
  · -- all of the first group, and the beginning of the second
    have hrest : Rightward (c ++ b) := by rwa [← hb]
    have hwidth := (rightward_append.mp hrest).2.totalWidth_nonneg
    have hbelow := h₂ c b hb
    rw [hc, totalHeight_append, totalWidth_append]
    have hb' : totalWidth g₂ = totalWidth c + totalWidth b := by rw [hb, totalWidth_append]
    nlinarith [mul_nonneg (sub_nonneg.mpr hs₂) hwidth]
  · -- the beginning of the first group
    have hleft : Rightward (a ++ c) := by rwa [← hc]
    have hwidth := (rightward_append.mp hleft).1.totalWidth_nonneg
    have hbelow := h₁ a c hc
    nlinarith [mul_nonneg (sub_nonneg.mpr hs₁) hwidth]

end Hull

/-! ## Concave polylines -/

section Concave

variable {l : List (Piece K)}

lemma concaveOn_of_lines {f : K → K} {a b : K}
    (h : ∀ z ∈ Set.Icc a b, ∃ m : K, ∀ x ∈ Set.Icc a b, f x ≤ f z + m * (x - z)) :
    ConcaveOn K (Set.Icc a b) f := by
  refine ⟨convex_Icc a b, fun x hx y hy s t hs ht hst => ?_⟩
  simp only [smul_eq_mul]
  have hz : s * x + t * y ∈ Set.Icc a b := (convex_Icc a b) hx hy hs ht hst
  obtain ⟨m, hm⟩ := h _ hz
  have hsx := mul_le_mul_of_nonneg_left (hm x hx) hs
  have hty := mul_le_mul_of_nonneg_left (hm y hy) ht
  have hsum : s * (f (s * x + t * y) + m * (x - (s * x + t * y))) +
      t * (f (s * x + t * y) + m * (y - (s * x + t * y))) = f (s * x + t * y) := by
    linear_combination (f (s * x + t * y) - m * (s * x + t * y)) * hst
  linarith

lemma polyline_le_mul {m : K} : ∀ {l : List (Piece K)}, Rightward l → (∀ q ∈ l, q.slope ≤ m) →
    ∀ {x : K}, 0 ≤ x → x ≤ totalWidth l → polyline l x ≤ m * x
  | [], _, _, x, hx₀, hx => by
    obtain rfl : x = 0 := le_antisymm hx hx₀
    simp [polyline]
  | p :: rest, hl, hm, x, hx₀, hx => by
    obtain ⟨hp, hrest⟩ := rightward_cons.mp hl
    obtain ⟨hpm, hrestm⟩ := forall_mem_cons.mp hm
    obtain hle | hlt := le_or_gt x p.width
    · rw [polyline_of_le hle]
      exact mul_le_mul_of_nonneg_right hpm hx₀
    · rw [totalWidth_cons] at hx
      have ih := polyline_le_mul hrest hrestm (by linarith : 0 ≤ x - p.width) (by linarith)
      have hheight := Piece.slope_mul_width hp.ne'
      rw [polyline_of_ge hl hlt.le]
      nlinarith [mul_le_mul_of_nonneg_right hpm hp.le]

lemma exists_line : ∀ {l : List (Piece K)}, Rightward l → l ≠ [] →
    l.Pairwise (fun p q => q.slope ≤ p.slope) → ∀ z ∈ Set.Icc 0 (totalWidth l),
    ∃ p ∈ l, ∀ x ∈ Set.Icc 0 (totalWidth l),
      polyline l x ≤ polyline l z + p.slope * (x - z)
  | [], _, hne, _, _, _ => absurd rfl hne
  | p :: rest, hl, _, hsorted, z, ⟨hz₀, hz⟩ => by
    obtain ⟨hp, hrest⟩ := rightward_cons.mp hl
    obtain ⟨hfirst, hsorted⟩ := pairwise_cons.mp hsorted
    have hheight := Piece.slope_mul_width hp.ne'
    rw [totalWidth_cons] at hz
    obtain hle | hlt := le_or_gt z p.width
    · refine ⟨p, mem_cons_self, fun x ⟨hx₀, hx⟩ => ?_⟩
      rw [totalWidth_cons] at hx
      rw [polyline_of_le hle]
      obtain hle' | hlt' := le_or_gt x p.width
      · rw [polyline_of_le hle']
        linarith
      · rw [polyline_of_ge hl hlt'.le]
        have hbound := polyline_le_mul hrest hfirst (by linarith : 0 ≤ x - p.width)
          (by linarith)
        linarith
    · have hne : rest ≠ [] := by
        rintro rfl
        rw [totalWidth_nil] at hz
        linarith
      obtain ⟨q, hq, hline⟩ := exists_line hrest hne hsorted (z - p.width)
        ⟨by linarith, by linarith⟩
      refine ⟨q, mem_cons_of_mem p hq, fun x ⟨hx₀, hx⟩ => ?_⟩
      rw [totalWidth_cons] at hx
      rw [polyline_of_ge hl hlt.le]
      obtain hle' | hlt' := le_or_gt x p.width
      · -- the line is above the beginning of the next piece, and less steep than this one
        have hzero := hline 0 ⟨le_rfl, hrest.totalWidth_nonneg⟩
        rw [polyline_zero hrest] at hzero
        rw [polyline_of_le hle']
        nlinarith [mul_le_mul_of_nonneg_right (hfirst q hq) (sub_nonneg.mpr hle')]
      · rw [polyline_of_ge hl hlt'.le]
        have hx' := hline (x - p.width) ⟨by linarith, by linarith⟩
        linarith

/-- **A polyline with slopes that do not increase is concave.** -/
lemma concaveOn_polyline (hl : Rightward l) (hsorted : l.Pairwise fun p q => q.slope ≤ p.slope) :
    ConcaveOn K (Set.Icc 0 (totalWidth l)) (polyline l) := by
  refine concaveOn_of_lines fun z hz => ?_
  obtain rfl | hne := eq_or_ne l []
  · exact ⟨0, fun x _ => by simp [polyline]⟩
  · obtain ⟨p, -, hp⟩ := exists_line hl hne hsorted z hz
    exact ⟨p.slope, hp⟩

lemma exists_piece : ∀ {l : List (Piece K)} {x : K}, 0 < x → x ≤ totalWidth l →
    ∃ l₁ p l₂, l = l₁ ++ p :: l₂ ∧ totalWidth l₁ ≤ x ∧ x ≤ totalWidth l₁ + p.width
  | [], x, hx₀, hx => absurd hx hx₀.not_ge
  | p :: rest, x, hx₀, hx => by
    obtain hle | hlt := le_or_gt x p.width
    · exact ⟨[], p, rest, rfl, hx₀.le, by simpa using hle⟩
    · rw [totalWidth_cons] at hx
      obtain ⟨l₁, q, l₂, rfl, hlow, hhigh⟩ :=
        exists_piece (by linarith : 0 < x - p.width) (by linarith)
      refine ⟨p :: l₁, q, l₂, rfl, ?_, ?_⟩
      · rw [totalWidth_cons]
        linarith
      · rw [totalWidth_cons]
        linarith

/-- **A concave function is above a polyline** if it is at the ends of the pieces. -/
lemma polyline_le_of_concaveOn (hl : Rightward l) {h : K → K}
    (hconcave : ConcaveOn K (Set.Icc 0 (totalWidth l)) h)
    (hends : ∀ a b, l = a ++ b → totalHeight a ≤ h (totalWidth a)) {x : K}
    (hx : x ∈ Set.Icc 0 (totalWidth l)) : polyline l x ≤ h x := by
  obtain heq | hlt := hx.1.eq_or_lt
  · rw [← heq, polyline_zero hl]
    exact hends [] l rfl
  obtain ⟨l₁, p, l₂, rfl, hlow, hhigh⟩ := exists_piece hlt hx.2
  obtain ⟨hl₁, hright⟩ := rightward_append.mp hl
  obtain ⟨hp, hl₂⟩ := rightward_cons.mp hright
  have hwidth₁ := hl₁.totalWidth_nonneg
  have hwidth₂ := hl₂.totalWidth_nonneg
  have hleft := hends l₁ (p :: l₂) rfl
  have hright := hends (l₁ ++ [p]) l₂ (by simp)
  simp only [totalWidth_append, totalHeight_append, totalWidth_cons, totalHeight_cons,
    totalWidth_nil, totalHeight_nil, add_zero] at hright
  rw [totalWidth_append, totalWidth_cons] at hconcave
  -- the point divides the piece
  obtain ⟨t, ht⟩ : ∃ t, t = (x - totalWidth l₁) / p.width := ⟨_, rfl⟩
  have ht₀ : 0 ≤ t := ht ▸ div_nonneg (by linarith) hp.le
  have ht₁ : t ≤ 1 := ht ▸ (div_le_one hp).mpr (by linarith)
  have hxt : t * p.width = x - totalWidth l₁ := ht ▸ div_mul_cancel₀ _ hp.ne'
  have hpoint := hconcave.2 (x := totalWidth l₁) (y := totalWidth l₁ + p.width)
    ⟨hwidth₁, by linarith⟩ ⟨by linarith, by linarith⟩ (sub_nonneg.mpr ht₁) ht₀ (by ring)
  have harg : (1 - t) * totalWidth l₁ + t * (totalWidth l₁ + p.width) = x := by
    linear_combination hxt
  simp only [smul_eq_mul, harg] at hpoint
  have hheight := Piece.slope_mul_width hp.ne'
  calc polyline (l₁ ++ p :: l₂) x = totalHeight l₁ + p.slope * (x - totalWidth l₁) :=
        polyline_piece hl hlow hhigh
    _ = (1 - t) * totalHeight l₁ + t * (totalHeight l₁ + p.height) := by
        rw [← hxt, ← hheight]
        ring
    _ ≤ (1 - t) * h (totalWidth l₁) + t * h (totalWidth l₁ + p.width) :=
        add_le_add (mul_le_mul_of_nonneg_left hleft (sub_nonneg.mpr ht₁))
          (mul_le_mul_of_nonneg_left hright ht₀)
    _ ≤ h x := hpoint

end Concave

/-! ## Hulls as functions -/

section Groups

variable {groups : List (List (Piece K))}

/-- Pieces in groups that are merged to a hull. -/
structure IsHull (groups : List (List (Piece K))) : Prop where
  rightward : ∀ g ∈ groups, Rightward g
  pos : ∀ g ∈ groups, 0 < totalWidth g
  below : ∀ g ∈ groups, Below g
  sorted : (groups.map merge).Pairwise fun p q => q.slope ≤ p.slope

omit [LinearOrder K] [IsStrictOrderedRing K] in
lemma totalWidth_map_merge : totalWidth (groups.map merge) = totalWidth groups.flatten := by
  induction groups with
  | nil => rfl
  | cons g groups ih =>
    rw [map_cons, totalWidth_cons, ih, flatten_cons, totalWidth_append]
    rfl

omit [LinearOrder K] [IsStrictOrderedRing K] in
lemma totalHeight_map_merge : totalHeight (groups.map merge) = totalHeight groups.flatten := by
  induction groups with
  | nil => rfl
  | cons g groups ih =>
    rw [map_cons, totalHeight_cons, ih, flatten_cons, totalHeight_append]
    rfl

omit [IsStrictOrderedRing K] in
lemma IsHull.rightward_merge (h : IsHull groups) : Rightward (groups.map merge) :=
  forall_mem_map.mpr h.pos

lemma IsHull.concaveOn (h : IsHull groups) :
    ConcaveOn K (Set.Icc 0 (totalWidth groups.flatten)) (polyline (groups.map merge)) := by
  rw [← totalWidth_map_merge]
  exact concaveOn_polyline h.rightward_merge h.sorted

lemma totalHeight_le_polyline : ∀ {groups : List (List (Piece K))},
    (∀ g ∈ groups, Rightward g ∧ 0 < totalWidth g ∧ Below g) → ∀ {a b : List (Piece K)},
    groups.flatten = a ++ b → totalHeight a ≤ polyline (groups.map merge) (totalWidth a)
  | [], _, a, b, hab => by
    obtain ⟨rfl, -⟩ := append_eq_nil_iff.mp hab.symm
    exact le_rfl
  | g :: groups, h, a, b, hab => by
    obtain ⟨⟨hg, hpos, hbelow⟩, hgroups⟩ := forall_mem_cons.mp h
    have hrightward : Rightward (merge g :: groups.map merge) := by
      exact rightward_cons.mpr ⟨hpos, forall_mem_map.mpr fun g' hg' => (hgroups g' hg').2.1⟩
    rw [flatten_cons] at hab
    rw [map_cons]
    obtain ⟨c, rfl, hc⟩ | ⟨c, hc, -⟩ := append_eq_append_iff.mp hab
    · have hflatten : Rightward (c ++ b) := by
        rw [← hc]
        intro p hp
        obtain ⟨g', hg', hp⟩ := mem_flatten.mp hp
        exact (hgroups g' hg').1 p hp
      have hwidth := (rightward_append.mp hflatten).1.totalWidth_nonneg
      have ih := totalHeight_le_polyline hgroups hc
      rw [totalWidth_append, totalHeight_append,
        polyline_of_ge hrightward (by simp only [merge]; linarith)]
      simp only [merge, add_sub_cancel_left]
      linarith
    · have hprefix : Rightward (a ++ c) := by rwa [← hc]
      have hwidth := (rightward_append.mp hprefix).2.totalWidth_nonneg
      have hle : totalWidth a ≤ (merge g).width := by
        simp only [merge, hc, totalWidth_append]
        linarith
      rw [polyline_of_le hle]
      exact hbelow a c hc

lemma IsHull.le (h : IsHull groups) {a b : List (Piece K)} (hab : groups.flatten = a ++ b) :
    totalHeight a ≤ polyline (groups.map merge) (totalWidth a) :=
  totalHeight_le_polyline (fun g hg => ⟨h.rightward g hg, h.pos g hg, h.below g hg⟩) hab

/-- **A hull is the least concave function** on or above the ends of the pieces. -/
lemma IsHull.least (h : IsHull groups) {f : K → K}
    (hconcave : ConcaveOn K (Set.Icc 0 (totalWidth groups.flatten)) f)
    (hends : ∀ a b, groups.flatten = a ++ b → totalHeight a ≤ f (totalWidth a)) {x : K}
    (hx : x ∈ Set.Icc 0 (totalWidth groups.flatten)) : polyline (groups.map merge) x ≤ f x := by
  rw [← totalWidth_map_merge] at hconcave hx
  refine polyline_le_of_concaveOn h.rightward_merge hconcave (fun a b hab => ?_) hx
  obtain ⟨g₁, g₂, rfl, rfl, rfl⟩ := map_eq_append_iff.mp hab
  rw [totalHeight_map_merge, totalWidth_map_merge]
  exact hends g₁.flatten g₂.flatten flatten_append

end Groups

end SlithyTove.Framework
