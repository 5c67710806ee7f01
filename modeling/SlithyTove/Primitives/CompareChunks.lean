import SlithyTove.Primitives.Diagram
import SlithyTove.Primitives.FeeRate

/-!
# Comparing fee rate diagrams

`CompareChunks` (`util/feefrac.cpp`) compares the diagrams of two lists of chunks, that is the
polylines through their cumulative fees and sizes (`diagram`).  It goes through the points of both
diagrams by increasing size and compares each with the line of the other diagram at the same size.

The loop keeps two flags, for each diagram whether it is higher somewhere.  Up to the size that the
loop has come to they are right about all sizes (`CompareInv`), since between two points both
diagrams are affine.  The fee of a point is subtracted from that of the last point of the other
diagram before it, and with a negative fee on one side the difference can be too large where no sum
is (`compareChunks_overflow`).  There is a result if and only if the differences that are taken fit
(`DifferencesFit`).
-/

namespace SlithyTove

open Framework List Option FeeFrac

/-- `std::partial_ordering`. -/
inductive PartialOrdering
  | less | equivalent | greater | unordered
  deriving DecidableEq, Repr

/-- What the loop has of one diagram. -/
structure DiagramSide where
  /-- the chunks from `next_index` on -/
  rest : List FeeFrac
  accum : FeeFrac
  betterSomewhere : Bool

namespace DiagramSide

/-- `next_point`. -/
def nextPoint (s : DiagramSide) : Option FeeFrac := do
  let chunk ← s.rest.head?
  (chunk + s.accum).checkedValue

/-- `advance`. -/
def advance (s : DiagramSide) : Option DiagramSide := do
  let chunk ← s.rest.head?
  let accum ← (s.accum + chunk).checkedValue
  return { s with rest := s.rest.tail, accum }

/-- Marking a point as processed if the other has the same size. -/
def advanceIf (same : Bool) (s : DiagramSide) : Option DiagramSide :=
  if same then s.advance else some s

/-- Noting where a diagram is better. -/
def note (better : Bool) (s : DiagramSide) : DiagramSide :=
  { s with betterSomewhere := better || s.betterSomewhere }

variable {s : DiagramSide} {chunk : FeeFrac}

lemma nextPoint_eq (hchunk : chunk ∈ s.rest.head?)
    (h : (chunk + s.accum).Representable) : s.nextPoint = some (chunk + s.accum) := by
  rw [nextPoint, mem_def.mp hchunk]
  exact checkedValue_of_representable h

lemma advance_eq (hchunk : chunk ∈ s.rest.head?) (h : (chunk + s.accum).Representable) :
    s.advance = some { s with rest := s.rest.tail, accum := s.accum + chunk } := by
  rw [add_comm] at h
  rw [advance, mem_def.mp hchunk]
  simp only [bind_eq_bind, bind_some, checkedValue_of_representable h]
  rfl

end DiagramSide

section Model

variable (wide : WideInt)

/-- The next point of one diagram is compared with the line of the other, whose next point is
processed with it if it has the same size. -/
def comparePoint (unproc other : DiagramSide) : Option (Ordering × DiagramSide) := do
  let pointP ← unproc.nextPoint
  let slopeAP ← (pointP - other.accum).checkedValue
  if slopeAP.size > 0 then
    if other.rest = [] then do
      let cmp ← slopeAP.feeRateCompare wide ⟨0, 1⟩
      return (cmp, other)
    else do
      let pointB ← other.nextPoint
      let slopeAB ← (pointB - other.accum).checkedValue
      if slopeAB.size ≥ slopeAP.size then do
        let cmp ← slopeAP.feeRateCompare wide slopeAB
        let other ← other.advanceIf (pointB.size = pointP.size)
        return (cmp, other)
      else none
  else none

/-- One point is processed. -/
def processPoint (unproc other : DiagramSide) : Option (DiagramSide × DiagramSide) := do
  let (cmp, other) ← comparePoint wide unproc other
  let unproc ← (unproc.note (cmp = .gt)).advance
  return (unproc, other.note (cmp = .lt))

/-- `unproc_side`. -/
def unprocSide (side₀ side₁ : DiagramSide) : Option Bool :=
  if side₀.rest = [] ∨ side₁.rest = [] then some (side₀.rest = [])
  else do
    let point₀ ← side₀.nextPoint
    let point₁ ← side₁.nextPoint
    return point₀.size > point₁.size

/-- The next point of either diagram is processed. -/
def processNext (side₀ side₁ : DiagramSide) : Option (DiagramSide × DiagramSide) := do
  let unproc ← unprocSide side₀ side₁
  if unproc then do
    let (side₁, side₀) ← processPoint wide side₁ side₀
    return (side₀, side₁)
  else processPoint wide side₀ side₁

/-- Comparing the flags. -/
def compareFlags : Bool → Bool → PartialOrdering
  | false, true => .less
  | true, false => .greater
  | _, _ => .equivalent

/-- The loop of `CompareChunks`, for a number of rounds. -/
def compareLoop : ℕ → DiagramSide → DiagramSide → Option PartialOrdering
  | 0, _, _ => none
  | rounds + 1, side₀, side₁ =>
    if side₀.rest = [] ∧ side₁.rest = [] then
      some (compareFlags side₀.betterSomewhere side₁.betterSomewhere)
    else do
      let (side₀, side₁) ← processNext wide side₀ side₁
      if side₀.betterSomewhere && side₁.betterSomewhere then return .unordered
      else compareLoop rounds side₀ side₁

/-- `CompareChunks`. -/
def compareChunks (chunks₀ chunks₁ : List FeeFrac) : Option PartialOrdering :=
  compareLoop wide (chunks₀.length + chunks₁.length + 1) ⟨chunks₀, 0, false⟩ ⟨chunks₁, 0, false⟩

end Model

/-- What a comparison says of two functions.  Of any two functions only one of the four holds. -/
def PartialOrdering.Describes (f g : ℝ → ℝ) : PartialOrdering → Prop
  | .equivalent => ∀ x, 0 ≤ x → f x = g x
  | .less => (∀ x, 0 ≤ x → f x ≤ g x) ∧ ∃ x, 0 ≤ x ∧ f x < g x
  | .greater => (∀ x, 0 ≤ x → g x ≤ f x) ∧ ∃ x, 0 ≤ x ∧ g x < f x
  | .unordered => (∃ x, 0 ≤ x ∧ f x < g x) ∧ ∃ x, 0 ≤ x ∧ g x < f x

/-! ## One diagram -/

/-- Where the loop is in a diagram: the points up to a size are processed. -/
structure DiagramSide.At (chunks : List FeeFrac) (m : ℤ) (s : DiagramSide) : Prop where
  split : ∃ done, chunks = done ++ s.rest ∧ s.accum = done.sum
  le : s.accum.size ≤ m
  lt : ∀ chunk ∈ s.rest.head?, m < s.accum.size + chunk.size

namespace DiagramSide.At

variable {chunks : List FeeFrac} {m : ℤ} {s : DiagramSide} (h : s.At chunks m)
  (hpos : ∀ chunk ∈ chunks, 0 < chunk.size)

include h

lemma note (better : Bool) : (s.note better).At chunks m := ⟨h.split, h.le, h.lt⟩

variable {b : ℤ}

lemma mono (hle : m ≤ b) (hb : ∀ chunk ∈ s.rest.head?, b < s.accum.size + chunk.size) :
    s.At chunks b :=
  ⟨h.split, h.le.trans hle, hb⟩

include hpos

lemma accum_nonneg : 0 ≤ s.accum.size := by
  obtain ⟨done, rfl, haccum⟩ := h.split
  rw [haccum]
  exact sum_size_nonneg fun f hf => hpos f (mem_append_left s.rest hf)

lemma diagram_eq_end (hend : s.rest = []) {x : ℝ} (hlow : (s.accum.size : ℝ) ≤ x) :
    diagram chunks x = s.accum.fee := by
  obtain ⟨done, rfl, haccum⟩ := h.split
  rw [hend, append_nil] at hpos
  rw [diagram, hend, append_nil, polyline_of_totalWidth_le
    (rightward_map_piece.mpr hpos) (by rwa [totalWidth_map_piece, ← haccum]),
    totalHeight_map_piece, haccum]

variable {chunk : FeeFrac} (hchunk : chunk ∈ s.rest.head?)

include hchunk

omit hpos in
lemma mem : chunk ∈ chunks := by
  obtain ⟨done, rfl, -⟩ := h.split
  exact mem_append_right done (mem_of_mem_head? hchunk)

omit hpos in
lemma exists_next :
    ∃ done ∈ chunks.inits, chunk + s.accum = done.sum := by
  obtain ⟨done, rfl, haccum⟩ := h.split
  obtain ⟨rest, hrest⟩ : ∃ rest, s.rest = chunk :: rest := List.head?_eq_some_iff.mp hchunk
  refine ⟨done ++ [chunk], (mem_inits _ _).mpr ⟨rest, by simp [hrest]⟩, ?_⟩
  rw [sum_append, sum_singleton, haccum, add_comm]

lemma diagram_eq {x : ℝ}
    (hlow : (s.accum.size : ℝ) ≤ x) (hhigh : x ≤ s.accum.size + chunk.size) :
    diagram chunks x = s.accum.fee + chunk.fee / chunk.size * (x - s.accum.size) := by
  obtain ⟨done, rfl, haccum⟩ := h.split
  obtain ⟨rest, hrest⟩ : ∃ rest, s.rest = chunk :: rest := List.head?_eq_some_iff.mp hchunk
  rw [hrest] at hpos
  rw [haccum] at hlow hhigh
  have hrightward := rightward_map_piece.mpr hpos
  rw [map_append, map_cons] at hrightward
  have hpiece := polyline_piece hrightward (x := x)
    (by rwa [totalWidth_map_piece]) (by rwa [totalWidth_map_piece])
  rw [diagram, hrest, map_append, map_cons, hpiece, totalWidth_map_piece,
    totalHeight_map_piece, haccum]
  rfl

lemma diagram_next :
    diagram chunks ((chunk + s.accum).size : ℤ) = ((chunk + s.accum).fee : ℤ) := by
  have hsize : (0 : ℝ) < chunk.size := by exact_mod_cast hpos chunk (h.mem hchunk)
  have hx : (((chunk + s.accum).size : ℤ) : ℝ) = s.accum.size + chunk.size := by
    push_cast [add_size]
    ring
  rw [hx, h.diagram_eq hpos hchunk (by linarith) le_rfl, add_fee]
  push_cast
  field_simp
  ring

lemma advance {s' : DiagramSide}
    (hrest : s'.rest = s.rest.tail) (haccum : s'.accum = s.accum + chunk)
    (hb : b = s.accum.size + chunk.size) : s'.At chunks b := by
  obtain ⟨done, rfl, hdone⟩ := h.split
  obtain ⟨rest, hsplit⟩ : ∃ rest, s.rest = chunk :: rest := List.head?_eq_some_iff.mp hchunk
  refine ⟨⟨done ++ [chunk], ?_, ?_⟩, ?_, ?_⟩
  · rw [hrest, hsplit, tail_cons, append_assoc, singleton_append]
  · rw [haccum, hdone, sum_append, sum_singleton]
  · rw [haccum, hb, add_size]
  · intro next hnext
    rw [hrest, hsplit, tail_cons] at hnext
    have hnext' := hpos next (mem_append_right done
      (hsplit ▸ mem_cons_of_mem chunk (mem_of_mem_head? hnext)))
    rw [haccum, hb, add_size]
    omega

omit hchunk in
lemma affine (hb : ∀ chunk ∈ s.rest.head?, b ≤ s.accum.size + chunk.size) :
    Affine (diagram chunks) (m : ℝ) (b : ℝ) := by
  have hm : (s.accum.size : ℝ) ≤ m := by exact_mod_cast h.le
  obtain hend | ⟨chunk, hchunk⟩ : s.rest = [] ∨ ∃ chunk, chunk ∈ s.rest.head? := by
    cases s.rest with
    | nil => exact .inl rfl
    | cons chunk rest => exact .inr ⟨chunk, rfl⟩
  · refine ⟨s.accum.fee, 0, fun x hlow _ => ?_⟩
    rw [h.diagram_eq_end hpos hend (hm.trans hlow), zero_mul, add_zero]
  · have hb' : (b : ℝ) ≤ s.accum.size + chunk.size := by exact_mod_cast hb chunk hchunk
    refine ⟨s.accum.fee - chunk.fee / chunk.size * s.accum.size, chunk.fee / chunk.size,
      fun x hlow hhigh => ?_⟩
    rw [h.diagram_eq hpos hchunk (hm.trans hlow) (hhigh.trans hb')]
    ring

end DiagramSide.At

/-! ## The loop -/

/-- The chunks and the points of the diagrams. -/
structure SumsRepresentable (chunks₀ chunks₁ : List FeeFrac) : Prop where
  chunk₀ : ∀ chunk ∈ chunks₀, chunk.Representable
  chunk₁ : ∀ chunk ∈ chunks₁, chunk.Representable
  point₀ : ∀ done ∈ chunks₀.inits, done.sum.Representable
  point₁ : ∀ done ∈ chunks₁.inits, done.sum.Representable

lemma SumsRepresentable.symm {chunks₀ chunks₁ : List FeeFrac}
    (h : SumsRepresentable chunks₀ chunks₁) : SumsRepresentable chunks₁ chunks₀ :=
  ⟨h.chunk₁, h.chunk₀, h.point₁, h.point₀⟩

/-- At some point of either diagram before a size the first one is higher. -/
def HigherBefore (chunks₀ chunks₁ : List FeeFrac) (p : ℤ) : Prop :=
  ∃ done, (done ∈ chunks₀.inits ∨ done ∈ chunks₁.inits) ∧ done.sum.size < p ∧
    diagram chunks₁ done.sum.size < diagram chunks₀ done.sum.size

/-- The last point of a diagram before a size. -/
def LastBefore (chunks : List FeeFrac) (p : ℤ) (point : FeeFrac) : Prop :=
  ∃ done rest, chunks = done ++ rest ∧ point = done.sum ∧ point.size < p ∧
    ∀ chunk ∈ rest.head?, p ≤ point.size + chunk.size

/-- The differences between the fees of the points of the first diagram after a size and the last
points of the second one before them; at some sizes none is taken. -/
def FeesFit (chunks₀ chunks₁ : List FeeFrac) (skip : ℤ → Prop) (m : ℤ) : Prop :=
  ∀ done ∈ chunks₀.inits, m < done.sum.size → ¬ skip done.sum.size →
    ∀ last, LastBefore chunks₁ done.sum.size last → InRange 64 (done.sum.fee - last.fee)

/-- Each diagram has been higher at a point before. -/
def Crossed (chunks₀ chunks₁ : List FeeFrac) (p : ℤ) : Prop :=
  HigherBefore chunks₀ chunks₁ p ∧ HigherBefore chunks₁ chunks₀ p

/-- The first diagram has a point of this size too. -/
def CrossedOrSame (chunks₀ chunks₁ : List FeeFrac) (p : ℤ) : Prop :=
  Crossed chunks₀ chunks₁ p ∨ ∃ done ∈ chunks₀.inits, done.sum.size = p

/-- The differences that are taken after a size.  None is taken once the diagrams have crossed, and
at a size that is in both diagrams only that of the first one. -/
structure DifferencesFit (chunks₀ chunks₁ : List FeeFrac) (m : ℤ) : Prop where
  fees₀ : FeesFit chunks₀ chunks₁ (Crossed chunks₀ chunks₁) m
  fees₁ : FeesFit chunks₁ chunks₀ (CrossedOrSame chunks₀ chunks₁) m

lemma sum_inits_nonneg {chunks done : List FeeFrac} (hpos : ∀ chunk ∈ chunks, 0 < chunk.size)
    (hdone : done ∈ chunks.inits) : 0 ≤ done.sum.size :=
  sum_size_nonneg fun f hf => hpos f (((mem_inits _ _).mp hdone).subset hf)

lemma HigherBefore.mono {chunks₀ chunks₁ : List FeeFrac} {p q : ℤ}
    (h : HigherBefore chunks₀ chunks₁ p) (hle : p ≤ q) : HigherBefore chunks₀ chunks₁ q := by
  obtain ⟨done, hdone, hlt, hhigher⟩ := h
  exact ⟨done, hdone, hlt.trans_le hle, hhigher⟩

lemma HigherBefore.exists_lt {chunks₀ chunks₁ : List FeeFrac} {p : ℤ}
    (h : HigherBefore chunks₀ chunks₁ p) (hpos₀ : ∀ chunk ∈ chunks₀, 0 < chunk.size)
    (hpos₁ : ∀ chunk ∈ chunks₁, 0 < chunk.size) :
    ∃ x, 0 ≤ x ∧ diagram chunks₁ x < diagram chunks₀ x := by
  obtain ⟨done, hdone | hdone, -, hhigher⟩ := h
  · exact ⟨_, by exact_mod_cast sum_inits_nonneg hpos₀ hdone, hhigher⟩
  · exact ⟨_, by exact_mod_cast sum_inits_nonneg hpos₁ hdone, hhigher⟩

lemma LastBefore.unique {chunks : List FeeFrac} (hpos : ∀ chunk ∈ chunks, 0 < chunk.size) {p : ℤ}
    {a b : FeeFrac} (ha : LastBefore chunks p a) (hb : LastBefore chunks p b) : a = b := by
  -- of two prefixes one is a prefix of the other
  have hinitial : ∀ {a b}, LastBefore chunks p a → LastBefore chunks p b → ∀ {done t rest},
      chunks = done ++ t ++ rest → a = done.sum → b = (done ++ t).sum →
      (∀ chunk ∈ (t ++ rest).head?, p ≤ a.size + chunk.size) → a = b := by
    rintro a b - ⟨-, -, -, -, hlt, -⟩ done t rest rfl rfl rfl hnext
    cases t with
    | nil => rw [append_nil]
    | cons chunk t =>
      have hsum : 0 ≤ t.sum.size := sum_size_nonneg fun f hf => hpos f (by simp [hf])
      have := hnext chunk rfl
      rw [sum_append, sum_cons, add_size, add_size] at hlt
      omega
  obtain ⟨done, rest, hsplit, hsum, -, hnext⟩ := id ha
  obtain ⟨done', rest', hsplit', hsum', -, hnext'⟩ := id hb
  obtain ⟨t, rfl, rfl⟩ | ⟨t, rfl, rfl⟩ := append_eq_append_iff.mp (hsplit.symm.trans hsplit')
  · exact hinitial ha hb (by rw [hsplit, append_assoc]) hsum hsum' hnext
  · exact (hinitial hb ha (by rw [hsplit', append_assoc]) hsum' hsum hnext').symm

namespace DiagramSide.At

variable {chunks : List FeeFrac} {m p : ℤ} {s : DiagramSide} (h : s.At chunks m)
  (hpos : ∀ chunk ∈ chunks, 0 < chunk.size)

include h

lemma lastBefore (hmp : m < p) (hnext : ∀ chunk ∈ s.rest.head?, p ≤ s.accum.size + chunk.size) :
    LastBefore chunks p s.accum := by
  obtain ⟨done, hsplit, haccum⟩ := h.split
  exact ⟨done, s.rest, hsplit, haccum, h.le.trans_lt hmp, hnext⟩

omit h in
lemma le_next {chunk : FeeFrac} (hchunk : chunk ∈ s.rest.head?) :
    ∀ d ∈ s.rest.head?, (chunk + s.accum).size ≤ s.accum.size + d.size := fun d hd => by
  rw [mem_unique hd hchunk, add_size, add_comm]

include hpos

lemma next_le {done : List FeeFrac} (hdone : done ∈ chunks.inits) (hlt : m < done.sum.size) :
    ∃ chunk ∈ s.rest.head?, s.accum.size + chunk.size ≤ done.sum.size ∧
      (done.sum.size = s.accum.size + chunk.size → done.sum = chunk + s.accum) := by
  obtain ⟨before, hsplit, haccum⟩ := h.split
  have hle := h.le
  obtain ⟨after, hafter⟩ := (mem_inits _ _).mp hdone
  obtain ⟨t, rfl, hrest⟩ | ⟨t, rfl, -⟩ := append_eq_append_iff.mp (hsplit.symm.trans hafter.symm)
  · cases t with
    | nil =>
      rw [append_nil, ← haccum] at hlt
      omega
    | cons chunk t =>
      have hpos' : ∀ f ∈ t, 0 < f.size := fun f hf => hpos f (by rw [← hafter]; simp [hf])
      have hsum := sum_size_nonneg hpos'
      refine ⟨chunk, by rw [hrest]; rfl, ?_, fun heq => ?_⟩
      · rw [sum_append, sum_cons, ← haccum, add_size, add_size]
        omega
      · rw [sum_append, sum_cons, ← haccum, add_size, add_size] at heq
        cases t with
        | nil => rw [sum_append, sum_singleton, ← haccum, add_comm]
        | cons f t =>
          have hf := hpos' f mem_cons_self
          have := sum_size_nonneg fun f hf => hpos' f (mem_cons_of_mem _ hf)
          rw [sum_cons, add_size] at heq
          omega
  · have hsum : 0 ≤ t.sum.size := sum_size_nonneg fun f hf => hpos f (by rw [hsplit]; simp [hf])
    rw [haccum, sum_append, add_size] at hle
    omega

lemma size_le (hnext : ∀ chunk ∈ s.rest.head?, p ≤ s.accum.size + chunk.size)
    {done : List FeeFrac} (hdone : done ∈ chunks.inits) (hlt : done.sum.size < p) :
    done.sum.size ≤ m := by
  refine not_lt.mp fun hm => ?_
  obtain ⟨chunk, hchunk, hle, -⟩ := h.next_le hpos hdone hm
  have := hnext chunk hchunk
  omega

end DiagramSide.At

/-- Up to a size the flags are right. -/
structure CompareInv (chunks₀ chunks₁ : List FeeFrac) (m : ℤ) (side₀ side₁ : DiagramSide) :
    Prop where
  nonneg : 0 ≤ m
  at₀ : side₀.At chunks₀ m
  at₁ : side₁.At chunks₁ m
  sound₀ : side₀.betterSomewhere = true → HigherBefore chunks₀ chunks₁ (m + 1)
  sound₁ : side₁.betterSomewhere = true → HigherBefore chunks₁ chunks₀ (m + 1)
  complete₀ : side₀.betterSomewhere = false → ∀ x : ℝ, 0 ≤ x → x ≤ m →
    diagram chunks₀ x ≤ diagram chunks₁ x
  complete₁ : side₁.betterSomewhere = false → ∀ x : ℝ, 0 ≤ x → x ≤ m →
    diagram chunks₁ x ≤ diagram chunks₀ x

namespace CompareInv

variable {chunks₀ chunks₁ : List FeeFrac} {m : ℤ} {side₀ side₁ : DiagramSide}

lemma symm (h : CompareInv chunks₀ chunks₁ m side₀ side₁) :
    CompareInv chunks₁ chunks₀ m side₁ side₀ :=
  ⟨h.nonneg, h.at₁, h.at₀, h.sound₁, h.sound₀, h.complete₁, h.complete₀⟩

lemma start (chunks₀ chunks₁ : List FeeFrac) (hpos₀ : ∀ chunk ∈ chunks₀, 0 < chunk.size)
    (hpos₁ : ∀ chunk ∈ chunks₁, 0 < chunk.size) :
    CompareInv chunks₀ chunks₁ 0 ⟨chunks₀, 0, false⟩ ⟨chunks₁, 0, false⟩ := by
  have hat : ∀ chunks : List FeeFrac, (∀ chunk ∈ chunks, 0 < chunk.size) →
      DiagramSide.At chunks 0 ⟨chunks, 0, false⟩ := fun chunks hpos =>
    ⟨⟨[], rfl, rfl⟩, le_rfl, fun chunk hchunk => by
      simpa using hpos chunk (mem_of_mem_head? hchunk)⟩
  have hzero : ∀ x : ℝ, 0 ≤ x → x ≤ (0 : ℤ) → diagram chunks₀ x = diagram chunks₁ x := by
    intro x hx₀ hx
    obtain rfl : x = 0 := le_antisymm (by simpa using hx) hx₀
    rw [diagram, diagram, polyline_zero (rightward_map_piece.mpr hpos₀),
      polyline_zero (rightward_map_piece.mpr hpos₁)]
  exact ⟨le_rfl, hat chunks₀ hpos₀, hat chunks₁ hpos₁, nofun, nofun,
    fun _ x hx₀ hx => (hzero x hx₀ hx).le, fun _ x hx₀ hx => (hzero x hx₀ hx).ge⟩

/-- **One point further.**  What the comparison at the next point adds to the flags. -/
lemma next (h : CompareInv chunks₀ chunks₁ m side₀ side₁)
    (hpos₀ : ∀ chunk ∈ chunks₀, 0 < chunk.size) (hpos₁ : ∀ chunk ∈ chunks₁, 0 < chunk.size)
    {p : ℤ} (hmp : m ≤ p) {done : List FeeFrac}
    (hdone : done ∈ chunks₀.inits ∨ done ∈ chunks₁.inits) (hp : done.sum.size = p)
    (hp₀ : ∀ chunk ∈ side₀.rest.head?, p ≤ side₀.accum.size + chunk.size)
    (hp₁ : ∀ chunk ∈ side₁.rest.head?, p ≤ side₁.accum.size + chunk.size) {cmp : Ordering}
    (hcmp : cmp = compare (diagram chunks₀ p) (diagram chunks₁ p)) {side₀' side₁' : DiagramSide}
    (hat₀ : side₀'.At chunks₀ p) (hat₁ : side₁'.At chunks₁ p)
    (hbetter₀ : side₀'.betterSomewhere = (decide (cmp = .gt) || side₀.betterSomewhere))
    (hbetter₁ : side₁'.betterSomewhere = (decide (cmp = .lt) || side₁.betterSomewhere)) :
    CompareInv chunks₀ chunks₁ p side₀' side₁' := by
  have hm₀ : (0 : ℝ) ≤ m := by exact_mod_cast h.nonneg
  have haffine₀ := h.at₀.affine hpos₀ hp₀
  have haffine₁ := h.at₁.affine hpos₁ hp₁
  refine ⟨h.nonneg.trans hmp, hat₀, hat₁, ?_, ?_, ?_, ?_⟩
  · intro hbetter
    rw [hbetter₀, Bool.or_eq_true, decide_eq_true_eq] at hbetter
    obtain hgt | hbefore := hbetter
    · exact ⟨done, hdone, by omega, by rw [hp]; exact compare_gt_iff_gt.mp (hcmp ▸ hgt)⟩
    · exact (h.sound₀ hbefore).mono (by omega)
  · intro hbetter
    rw [hbetter₁, Bool.or_eq_true, decide_eq_true_eq] at hbetter
    obtain hlt | hbefore := hbetter
    · exact ⟨done, hdone.symm, by omega, by rw [hp]; exact compare_lt_iff_lt.mp (hcmp ▸ hlt)⟩
    · exact (h.sound₁ hbefore).mono (by omega)
  · intro hbetter x hx₀ hx
    rw [hbetter₀, Bool.or_eq_false_iff, decide_eq_false_iff_not] at hbetter
    have hp : diagram chunks₀ p ≤ diagram chunks₁ p := by
      refine not_lt.mp fun hgt => hbetter.1 ?_
      rw [hcmp]
      exact compare_gt_iff_gt.mpr hgt
    exact haffine₀.le_extend hm₀ haffine₁ (h.complete₀ hbetter.2) hp hx₀ hx
  · intro hbetter x hx₀ hx
    rw [hbetter₁, Bool.or_eq_false_iff, decide_eq_false_iff_not] at hbetter
    have hp : diagram chunks₁ p ≤ diagram chunks₀ p := by
      refine not_lt.mp fun hgt => hbetter.1 ?_
      rw [hcmp]
      exact compare_lt_iff_lt.mpr hgt
    exact haffine₁.le_extend hm₀ haffine₀ (h.complete₁ hbetter.2) hp hx₀ hx

lemma not_crossed (h : CompareInv chunks₀ chunks₁ m side₀ side₁)
    (hflags : ¬ (side₀.betterSomewhere = true ∧ side₁.betterSomewhere = true))
    (hpos₀ : ∀ chunk ∈ chunks₀, 0 < chunk.size) (hpos₁ : ∀ chunk ∈ chunks₁, 0 < chunk.size)
    {p : ℤ} (hp₀ : ∀ chunk ∈ side₀.rest.head?, p ≤ side₀.accum.size + chunk.size)
    (hp₁ : ∀ chunk ∈ side₁.rest.head?, p ≤ side₁.accum.size + chunk.size) :
    ¬ Crossed chunks₀ chunks₁ p := by
  have hsize : ∀ done, (done ∈ chunks₀.inits ∨ done ∈ chunks₁.inits) → done.sum.size < p →
      (0 : ℝ) ≤ done.sum.size ∧ (done.sum.size : ℝ) ≤ m := by
    rintro done (hdone | hdone) hlt
    · exact ⟨by exact_mod_cast sum_inits_nonneg hpos₀ hdone,
        by exact_mod_cast h.at₀.size_le hpos₀ hp₀ hdone hlt⟩
    · exact ⟨by exact_mod_cast sum_inits_nonneg hpos₁ hdone,
        by exact_mod_cast h.at₁.size_le hpos₁ hp₁ hdone hlt⟩
  rintro ⟨⟨done₀, hdone₀, hlt₀, hhigher₀⟩, done₁, hdone₁, hlt₁, hhigher₁⟩
  obtain ⟨hnonneg₀, hle₀⟩ := hsize done₀ hdone₀ hlt₀
  obtain ⟨hnonneg₁, hle₁⟩ := hsize done₁ hdone₁.symm hlt₁
  refine hflags ⟨?_, ?_⟩
  · exact Bool.not_eq_false _ |>.mp fun hflag =>
      (h.complete₀ hflag _ hnonneg₀ hle₀).not_gt hhigher₀
  · exact Bool.not_eq_false _ |>.mp fun hflag =>
      (h.complete₁ hflag _ hnonneg₁ hle₁).not_gt hhigher₁

end CompareInv

/-! ## The differences -/

section Differences

variable {chunks₀ chunks₁ : List FeeFrac} {skip : ℤ → Prop} {m p : ℤ} {side other : DiagramSide}
  {chunk : FeeFrac} (hpos₀ : ∀ chunk ∈ chunks₀, 0 < chunk.size)

include hpos₀

lemma FeesFit.next_iff (hpos₁ : ∀ chunk ∈ chunks₁, 0 < chunk.size) (hat₀ : side.At chunks₀ m)
    (hat₁ : other.At chunks₁ m) (hchunk : chunk ∈ side.rest.head?)
    (hp : p = (chunk + side.accum).size)
    (hnext : ∀ d ∈ other.rest.head?, p ≤ other.accum.size + d.size) (hskip : ¬ skip p) :
    FeesFit chunks₀ chunks₁ skip m ↔
      InRange 64 ((chunk + side.accum).fee - other.accum.fee) ∧ FeesFit chunks₀ chunks₁ skip p := by
  have hmp : m < p := by
    rw [hp, add_size, add_comm]
    exact hat₀.lt chunk hchunk
  have hlast := hat₁.lastBefore hmp hnext
  constructor
  · intro h
    obtain ⟨done, hdone, hsum⟩ := hat₀.exists_next hchunk
    have hsize : done.sum.size = p := by rw [← hsum, hp]
    refine ⟨?_, fun done' hdone' hlt => h done' hdone' (hmp.trans hlt)⟩
    rw [hsum]
    exact h done hdone (by omega) (by rwa [hsize]) _ (by rwa [hsize])
  · rintro ⟨hrange, h⟩ done hdone hlt hskip' last hlast'
    obtain ⟨chunk', hchunk', hle, heq⟩ := hat₀.next_le hpos₀ hdone hlt
    obtain rfl : chunk = chunk' := mem_unique hchunk hchunk'
    rw [add_comm, ← add_size, ← hp] at hle heq
    obtain hsize | hsize := hle.eq_or_lt
    · rw [← hsize] at hlast'
      rwa [heq hsize.symm, hlast'.unique hpos₁ hlast]
    · exact h done hdone hsize hskip' last hlast'

lemma FeesFit.skip_iff (hat₀ : side.At chunks₀ m) (hmp : m < p)
    (hnext : ∀ d ∈ side.rest.head?, p ≤ side.accum.size + d.size)
    (hskip : ∀ done ∈ chunks₀.inits, done.sum.size = p → skip p) :
    FeesFit chunks₀ chunks₁ skip m ↔ FeesFit chunks₀ chunks₁ skip p := by
  constructor
  · exact fun h done hdone hlt => h done hdone (hmp.trans hlt)
  · intro h done hdone hlt hskip' last hlast
    obtain ⟨d, hd, hle, -⟩ := hat₀.next_le hpos₀ hdone hlt
    obtain hsize | hsize := ((hnext d hd).trans hle).eq_or_lt
    · exact absurd (hsize ▸ hskip done hdone hsize.symm) hskip'
    · exact h done hdone hsize hskip' last hlast

lemma FeesFit.of_end (hat₀ : side.At chunks₀ m) (hend : side.rest = []) :
    FeesFit chunks₀ chunks₁ skip m := by
  intro done hdone hlt
  obtain ⟨d, hd, -⟩ := hat₀.next_le hpos₀ hdone hlt
  simp [hend] at hd

omit hpos₀ in
lemma DifferencesFit.of_higherBefore (h₀ : HigherBefore chunks₀ chunks₁ (m + 1))
    (h₁ : HigherBefore chunks₁ chunks₀ (m + 1)) : DifferencesFit chunks₀ chunks₁ m :=
  ⟨fun _ _ hlt hskip => absurd ⟨h₀.mono hlt, h₁.mono hlt⟩ hskip,
    fun _ _ hlt hskip => absurd (.inl ⟨h₀.mono hlt, h₁.mono hlt⟩) hskip⟩

end Differences

/-! ## One round -/

section Round

variable {wide : WideInt} {IsWide : wide.Carrier → Prop} {value : wide.Carrier → ℤ}
  (hwide : wide.Exact IsWide value)
  {chunks₀ chunks₁ : List FeeFrac} {m : ℤ} {unproc other : DiagramSide}
  (hpos₀ : ∀ chunk ∈ chunks₀, 0 < chunk.size) (hpos₁ : ∀ chunk ∈ chunks₁, 0 < chunk.size)
  (hpoints : SumsRepresentable chunks₀ chunks₁)

include hwide hpos₀ hpos₁ hpoints

variable {chunk : FeeFrac}

/-- **A point is compared with the other diagram at its size.** -/
lemma comparePoint_eq (hat₀ : unproc.At chunks₀ m) (hat₁ : other.At chunks₁ m)
    (hchunk : chunk ∈ unproc.rest.head?) {p : ℤ} (hp : p = (chunk + unproc.accum).size)
    (hnext : ∀ d ∈ other.rest.head?, p ≤ other.accum.size + d.size)
    (hfee : InRange 64 ((chunk + unproc.accum).fee - other.accum.fee)) :
    ∃ other', comparePoint wide unproc other =
        some (compare (diagram chunks₀ p) (diagram chunks₁ p), other') ∧
      other'.At chunks₁ p ∧ other'.betterSomewhere = other.betterSomewhere ∧
      other'.rest.length ≤ other.rest.length := by
  obtain ⟨done₀, hdone₀, hpointP⟩ := hat₀.exists_next hchunk
  have hP : (chunk + unproc.accum).Representable := hpointP ▸ hpoints.point₀ done₀ hdone₀
  have hA := hat₁.accum_nonneg hpos₁
  have hmp : m < p := by
    rw [hp, add_size, add_comm]
    exact hat₀.lt chunk hchunk
  have hle := hat₁.le
  obtain ⟨slope, hslope⟩ : ∃ slope, slope = chunk + unproc.accum - other.accum := ⟨_, rfl⟩
  have hslopeSize : slope.size = p - other.accum.size := by rw [hslope, sub_size, hp]
  have hslopeFee : slope.fee = (chunk + unproc.accum).fee - other.accum.fee := by
    rw [hslope, sub_fee]
  have hAP : slope.Representable := by
    have hsize := inRange_32.mp hP.2
    refine ⟨by rwa [hslopeFee], inRange_32.mpr ?_⟩
    rw [hslopeSize]
    omega
  have hdiagram₀ : diagram chunks₀ p = ((chunk + unproc.accum).fee : ℤ) := by
    rw [hp]
    exact hat₀.diagram_next hpos₀ hchunk
  have hAp : (other.accum.size : ℝ) ≤ p := by exact_mod_cast hle.trans hmp.le
  unfold comparePoint
  rw [DiagramSide.nextPoint_eq hchunk hP]
  simp only [bind_eq_bind, bind_some]
  rw [← hslope, checkedValue_of_representable hAP]
  simp only [bind_some]
  rw [if_pos (by omega)]
  split
  next hend =>
    have hcmp : compare (slope.fee * 1) (0 * slope.size) =
        compare (diagram chunks₀ p) (diagram chunks₁ p) := by
      rw [hdiagram₀, hat₁.diagram_eq_end hpos₁ hend hAp]
      refine compare_congr ?_ ?_
      · rw [Int.cast_lt]
        omega
      · rw [Int.cast_lt]
        omega
    refine ⟨other, ?_, hat₁.mono hmp.le (by simp [hend]), rfl, le_rfl⟩
    rw [feeRateCompare_eq hwide hAP.1 hAP.2 (by decide) (by decide), hcmp]
    rfl
  next hne =>
    obtain ⟨d, hd⟩ : ∃ d, d ∈ other.rest.head? := by
      obtain ⟨d, rest, hrest⟩ := exists_cons_of_ne_nil hne
      exact ⟨d, by rw [hrest]; rfl⟩
    obtain ⟨done, hdone, hpointB⟩ := hat₁.exists_next hd
    have hB : (d + other.accum).Representable := hpointB ▸ hpoints.point₁ done hdone
    have hAB : d + other.accum - other.accum = d := by
      ext
      · simp
      · simp
    have hdSize := hpos₁ d (hat₁.mem hd)
    have hdRange := hpoints.chunk₁ d (hat₁.mem hd)
    have hnext' := hnext d hd
    rw [DiagramSide.nextPoint_eq hd hB]
    simp only [bind_some]
    rw [hAB, checkedValue_of_representable hdRange]
    simp only [bind_some]
    rw [if_pos (by omega), feeRateCompare_eq hwide hAP.1 hAP.2 hdRange.1 hdRange.2]
    simp only [bind_some]
    have hcmp : compare (slope.fee * d.size) (d.fee * slope.size) =
        compare (diagram chunks₀ p) (diagram chunks₁ p) := by
      have hdSize' : (0 : ℝ) < d.size := by exact_mod_cast hdSize
      have hhigh : (p : ℝ) ≤ other.accum.size + d.size := by exact_mod_cast hnext'
      have hline : (diagram chunks₁ p - other.accum.fee) * d.size =
          d.fee * (p - other.accum.size) := by
        rw [hat₁.diagram_eq hpos₁ hd hAp hhigh]
        field_simp
        ring
      have hleft : ((slope.fee * d.size : ℤ) : ℝ) =
          (diagram chunks₀ p - other.accum.fee) * d.size := by
        rw [hslopeFee, hdiagram₀]
        push_cast
        ring
      have hright : ((d.fee * slope.size : ℤ) : ℝ) =
          (diagram chunks₁ p - other.accum.fee) * d.size := by
        rw [hline, hslopeSize]
        push_cast
        ring
      refine compare_congr ?_ ?_
      · rw [← Int.cast_lt (R := ℝ), hleft, hright, mul_lt_mul_iff_left₀ hdSize',
          sub_lt_sub_iff_right]
      · rw [← Int.cast_lt (R := ℝ), hleft, hright, mul_lt_mul_iff_left₀ hdSize',
          sub_lt_sub_iff_right]
    rw [hcmp]
    by_cases hsame : (d + other.accum).size = (chunk + unproc.accum).size
    · refine ⟨{ other with rest := other.rest.tail, accum := other.accum + d }, ?_,
        hat₁.advance hpos₁ hd rfl rfl ?_, rfl, by simp⟩
      · rw [DiagramSide.advanceIf, if_pos (decide_eq_true hsame), DiagramSide.advance_eq hd hB]
        rfl
      · rw [hp, ← hsame, add_size, add_comm]
    · refine ⟨other, ?_, hat₁.mono hmp.le fun d' hd' => ?_, rfl, le_rfl⟩
      · rw [DiagramSide.advanceIf, if_neg (by simpa using hsame)]
        rfl
      · obtain rfl : d = d' := mem_unique hd hd'
        rw [← hp, add_size] at hsame
        omega

/-- **A processed point keeps the flags right.** -/
lemma processPoint_inv (hinv : CompareInv chunks₀ chunks₁ m unproc other)
    (hchunk : chunk ∈ unproc.rest.head?) {p : ℤ} (hp : p = (chunk + unproc.accum).size)
    (hnext : ∀ d ∈ other.rest.head?, p ≤ other.accum.size + d.size)
    (hfee : InRange 64 ((chunk + unproc.accum).fee - other.accum.fee)) :
    ∃ unproc' other', processPoint wide unproc other = some (unproc', other') ∧
      CompareInv chunks₀ chunks₁ p unproc' other' ∧
      unproc'.rest.length + other'.rest.length < unproc.rest.length + other.rest.length := by
  have hp' : p = unproc.accum.size + chunk.size := by rw [hp, add_size, add_comm]
  obtain ⟨other', hcompare, hat', hbetter, hlength⟩ :=
    comparePoint_eq hwide hpos₀ hpos₁ hpoints hinv.at₀ hinv.at₁ hchunk hp hnext hfee
  obtain ⟨cmp, hcmp⟩ : ∃ cmp, cmp = compare (diagram chunks₀ p) (diagram chunks₁ p) := ⟨_, rfl⟩
  rw [← hcmp] at hcompare
  obtain ⟨done₀, hdone₀, hpointP⟩ := hinv.at₀.exists_next hchunk
  have hP : (chunk + unproc.accum).Representable := hpointP ▸ hpoints.point₀ done₀ hdone₀
  obtain ⟨unproc', hadvance, hrest', haccum', hbetter'⟩ : ∃ unproc',
      (unproc.note (cmp = .gt)).advance = some unproc' ∧ unproc'.rest = unproc.rest.tail ∧
      unproc'.accum = unproc.accum + chunk ∧
      unproc'.betterSomewhere = (decide (cmp = .gt) || unproc.betterSomewhere) :=
    ⟨_, @DiagramSide.advance_eq (unproc.note (cmp = .gt)) chunk hchunk hP, rfl, rfl, rfl⟩
  refine ⟨unproc', other'.note (cmp = .lt), ?_, ?_, ?_⟩
  · simp only [processPoint, hcompare, bind_eq_bind, bind_some, hadvance]
    rfl
  · refine hinv.next hpos₀ hpos₁ (hp' ▸ (hinv.at₀.lt chunk hchunk).le) (.inl hdone₀)
      (by rw [← hpointP, hp]) (fun c hc => ?_) hnext hcmp
      (hinv.at₀.advance hpos₀ hchunk hrest' haccum' hp') (hat'.note _) hbetter' ?_
    · obtain rfl : chunk = c := mem_unique hchunk hc
      exact hp'.le
    · rw [DiagramSide.note, hbetter]
  · obtain ⟨rest, hrest⟩ : ∃ rest, unproc.rest = chunk :: rest := List.head?_eq_some_iff.mp hchunk
    simp only [DiagramSide.note, hrest', hrest, tail_cons, length_cons]
    omega

/-- **A point is processed, or its difference does not fit.** -/
lemma processPoint_fit (hinv : CompareInv chunks₀ chunks₁ m unproc other)
    (hchunk : chunk ∈ unproc.rest.head?)
    (hnext : ∀ d ∈ other.rest.head?, (chunk + unproc.accum).size ≤ other.accum.size + d.size)
    (skip₀ skip₁ : ℤ → Prop) (hskip₀ : ¬ skip₀ (chunk + unproc.accum).size)
    (hskip₁ : ∀ done ∈ chunks₁.inits, done.sum.size = (chunk + unproc.accum).size →
      skip₁ (chunk + unproc.accum).size) :
    (∃ unproc' other' p, processPoint wide unproc other = some (unproc', other') ∧
      CompareInv chunks₀ chunks₁ p unproc' other' ∧
      unproc'.rest.length + other'.rest.length < unproc.rest.length + other.rest.length ∧
      (FeesFit chunks₀ chunks₁ skip₀ m ↔ FeesFit chunks₀ chunks₁ skip₀ p) ∧
      (FeesFit chunks₁ chunks₀ skip₁ m ↔ FeesFit chunks₁ chunks₀ skip₁ p)) ∨
    processPoint wide unproc other = none ∧ ¬ FeesFit chunks₀ chunks₁ skip₀ m := by
  have hfit := FeesFit.next_iff hpos₀ hpos₁ hinv.at₀ hinv.at₁ hchunk rfl hnext hskip₀
  by_cases hfee : InRange 64 ((chunk + unproc.accum).fee - other.accum.fee)
  · obtain ⟨unproc', other', hprocess, hinv', hlength⟩ :=
      processPoint_inv hwide hpos₀ hpos₁ hpoints hinv hchunk rfl hnext hfee
    have hmp : m < (chunk + unproc.accum).size := by
      rw [add_size, add_comm]
      exact hinv.at₀.lt chunk hchunk
    exact .inl ⟨unproc', other', _, hprocess, hinv', hlength, by rw [hfit, and_iff_right hfee],
      FeesFit.skip_iff hpos₁ hinv.at₁ hmp hnext hskip₁⟩
  · obtain ⟨done₀, hdone₀, hpointP⟩ := hinv.at₀.exists_next hchunk
    have hP : (chunk + unproc.accum).Representable := hpointP ▸ hpoints.point₀ done₀ hdone₀
    have hslope : (chunk + unproc.accum - other.accum).checkedValue = none := by
      rw [checkedValue_eq, if_neg fun h => hfee h.1]
    refine .inr ⟨?_, fun h => hfee (hfit.mp h).1⟩
    simp only [processPoint, comparePoint, DiagramSide.nextPoint_eq hchunk hP, bind_eq_bind,
      bind_some, hslope, bind_none]

omit hwide hpos₀ hpos₁ in
lemma unprocSide_eq {side₀ side₁ : DiagramSide} (hat₀ : side₀.At chunks₀ m)
    (hat₁ : side₁.At chunks₁ m) (hne : ¬ (side₀.rest = [] ∧ side₁.rest = [])) :
    (unprocSide side₀ side₁ = some false ∧ ∃ chunk ∈ side₀.rest.head?, ∀ d ∈ side₁.rest.head?,
      (chunk + side₀.accum).size ≤ side₁.accum.size + d.size) ∨
    (unprocSide side₀ side₁ = some true ∧ ∃ chunk ∈ side₁.rest.head?, ∀ d ∈ side₀.rest.head?,
      (chunk + side₁.accum).size < side₀.accum.size + d.size) := by
  have hhead : ∀ s : DiagramSide, s.rest ≠ [] → ∃ chunk, chunk ∈ s.rest.head? := fun s hs => by
    obtain ⟨chunk, rest, hrest⟩ := exists_cons_of_ne_nil hs
    exact ⟨chunk, by rw [hrest]; rfl⟩
  by_cases hend₀ : side₀.rest = []
  · obtain ⟨chunk, hchunk⟩ := hhead side₁ fun hend₁ => hne ⟨hend₀, hend₁⟩
    exact .inr ⟨by simp [unprocSide, hend₀], chunk, hchunk, by simp [hend₀]⟩
  by_cases hend₁ : side₁.rest = []
  · obtain ⟨chunk, hchunk⟩ := hhead side₀ hend₀
    exact .inl ⟨by simp [unprocSide, hend₀, hend₁], chunk, hchunk, by simp [hend₁]⟩
  obtain ⟨chunk₀, hchunk₀⟩ := hhead side₀ hend₀
  obtain ⟨chunk₁, hchunk₁⟩ := hhead side₁ hend₁
  obtain ⟨done₀, hdone₀, hpoint₀⟩ := hat₀.exists_next hchunk₀
  obtain ⟨done₁, hdone₁, hpoint₁⟩ := hat₁.exists_next hchunk₁
  have hside : unprocSide side₀ side₁ =
      some (decide ((chunk₀ + side₀.accum).size > (chunk₁ + side₁.accum).size)) := by
    rw [unprocSide, if_neg (by simp [hend₀, hend₁]),
      DiagramSide.nextPoint_eq hchunk₀ (hpoint₀ ▸ hpoints.point₀ done₀ hdone₀),
      DiagramSide.nextPoint_eq hchunk₁ (hpoint₁ ▸ hpoints.point₁ done₁ hdone₁)]
    rfl
  by_cases hsize : (chunk₀ + side₀.accum).size > (chunk₁ + side₁.accum).size
  · refine .inr ⟨by rw [hside, decide_eq_true hsize], chunk₁, hchunk₁, fun d hd => ?_⟩
    obtain rfl : chunk₀ = d := mem_unique hchunk₀ hd
    rwa [add_comm side₀.accum.size, ← add_size]
  · refine .inl ⟨by rw [hside, decide_eq_false hsize], chunk₀, hchunk₀, fun d hd => ?_⟩
    obtain rfl : chunk₁ = d := mem_unique hchunk₁ hd
    rw [add_comm side₁.accum.size, ← add_size]
    exact not_lt.mp hsize

section

variable {side₀ side₁ : DiagramSide} (hinv : CompareInv chunks₀ chunks₁ m side₀ side₁)

include hinv

/-- **A round keeps the flags right**, unless the difference that it takes does not fit. -/
lemma processNext_inv (hflags : ¬ (side₀.betterSomewhere = true ∧ side₁.betterSomewhere = true))
    (hne : ¬ (side₀.rest = [] ∧ side₁.rest = [])) :
    (∃ side₀' side₁' p, processNext wide side₀ side₁ = some (side₀', side₁') ∧
      CompareInv chunks₀ chunks₁ p side₀' side₁' ∧
      side₀'.rest.length + side₁'.rest.length < side₀.rest.length + side₁.rest.length ∧
      (DifferencesFit chunks₀ chunks₁ m ↔ DifferencesFit chunks₀ chunks₁ p)) ∨
    processNext wide side₀ side₁ = none ∧ ¬ DifferencesFit chunks₀ chunks₁ m := by
  obtain ⟨hside, chunk, hchunk, hnext⟩ | ⟨hside, chunk, hchunk, hnext⟩ :=
    unprocSide_eq hpoints hinv.at₀ hinv.at₁ hne
  · -- a point of the second diagram at this size is marked as processed
    obtain ⟨done, hdone, hsum⟩ := hinv.at₀.exists_next hchunk
    obtain ⟨side₀', side₁', p, hprocess, hinv', hlength, hfit₀, hfit₁⟩ | ⟨hprocess, hfit⟩ :=
      processPoint_fit hwide hpos₀ hpos₁ hpoints hinv hchunk hnext _ (CrossedOrSame chunks₀ chunks₁)
        (hinv.not_crossed hflags hpos₀ hpos₁ (DiagramSide.At.le_next hchunk) hnext)
        fun _ _ _ => Or.inr ⟨done, hdone, by rw [← hsum]⟩
    · exact .inl ⟨side₀', side₁', p, by simp [processNext, hside, hprocess], hinv', hlength,
        fun h => ⟨hfit₀.mp h.fees₀, hfit₁.mp h.fees₁⟩,
        fun h => ⟨hfit₀.mpr h.fees₀, hfit₁.mpr h.fees₁⟩⟩
    · exact .inr ⟨by simp [processNext, hside, hprocess], fun h => hfit h.fees₀⟩
  · -- the first diagram has no point of this size
    have hnext' := fun d hd => (hnext d hd).le
    have hother : ∀ done ∈ chunks₀.inits, done.sum.size ≠ (chunk + side₁.accum).size := by
      intro done hdone hsize
      have hlt := hinv.at₁.lt chunk hchunk
      rw [add_comm, ← add_size, ← hsize] at hlt
      obtain ⟨d, hd, hle, -⟩ := hinv.at₀.next_le hpos₀ hdone hlt
      have := hnext d hd
      omega
    have hnot := hinv.not_crossed hflags hpos₀ hpos₁ hnext' (DiagramSide.At.le_next hchunk)
    obtain ⟨side₁', side₀', p, hprocess, hinv', hlength, hfit₁, hfit₀⟩ | ⟨hprocess, hfit⟩ :=
      processPoint_fit hwide hpos₁ hpos₀ hpoints.symm hinv.symm hchunk hnext'
        (CrossedOrSame chunks₀ chunks₁) (Crossed chunks₀ chunks₁)
        (not_or.mpr ⟨hnot, fun ⟨done, hdone, hsize⟩ => hother done hdone hsize⟩)
        fun done hdone hsize => absurd hsize (hother done hdone)
    · exact .inl ⟨side₀', side₁', p, by simp [processNext, hside, hprocess], hinv'.symm, by omega,
        fun h => ⟨hfit₀.mp h.fees₀, hfit₁.mp h.fees₁⟩,
        fun h => ⟨hfit₀.mpr h.fees₀, hfit₁.mpr h.fees₁⟩⟩
    · exact .inr ⟨by simp [processNext, hside, hprocess], fun h => hfit h.fees₁⟩

omit hwide hpoints in
lemma le_of_ends
    (hend₀ : side₀.rest = []) (hend₁ : side₁.rest = []) (hflag : side₀.betterSomewhere = false)
    (x : ℝ) (hx : 0 ≤ x) : diagram chunks₀ x ≤ diagram chunks₁ x := by
  have hm₀ : (0 : ℝ) ≤ m := by exact_mod_cast hinv.nonneg
  have hle₀ : (side₀.accum.size : ℝ) ≤ m := by exact_mod_cast hinv.at₀.le
  have hle₁ : (side₁.accum.size : ℝ) ≤ m := by exact_mod_cast hinv.at₁.le
  obtain hle | hlt := le_or_gt x m
  · exact hinv.complete₀ hflag x hx hle
  · have hm := hinv.complete₀ hflag m hm₀ le_rfl
    rw [hinv.at₀.diagram_eq_end hpos₀ hend₀ hle₀, hinv.at₁.diagram_eq_end hpos₁ hend₁ hle₁] at hm
    rwa [hinv.at₀.diagram_eq_end hpos₀ hend₀ (hle₀.trans hlt.le),
      hinv.at₁.diagram_eq_end hpos₁ hend₁ (hle₁.trans hlt.le)]

omit hwide hpoints in
lemma describes_compareFlags (hend₀ : side₀.rest = []) (hend₁ : side₁.rest = [])
    (hflags : ¬ (side₀.betterSomewhere = true ∧ side₁.betterSomewhere = true)) :
    (compareFlags side₀.betterSomewhere side₁.betterSomewhere).Describes (diagram chunks₀)
      (diagram chunks₁) := by
  have hle₀ := le_of_ends hpos₀ hpos₁ hinv hend₀ hend₁
  have hle₁ := le_of_ends hpos₁ hpos₀ hinv.symm hend₁ hend₀
  have hsound₀ := fun hflag => (hinv.sound₀ hflag).exists_lt hpos₀ hpos₁
  have hsound₁ := fun hflag => (hinv.sound₁ hflag).exists_lt hpos₁ hpos₀
  generalize side₀.betterSomewhere = better₀ at *
  generalize side₁.betterSomewhere = better₁ at *
  match better₀, better₁ with
  | false, false => exact fun x hx => (hle₀ rfl x hx).antisymm (hle₁ rfl x hx)
  | false, true => exact ⟨hle₀ rfl, hsound₁ rfl⟩
  | true, false => exact ⟨hle₁ rfl, hsound₀ rfl⟩
  | true, true => exact absurd ⟨rfl, rfl⟩ hflags

end

/-- **The loop comes to the right result**, and to one if the differences it takes fit. -/
lemma compareLoop_eq : ∀ (rounds : ℕ) {m : ℤ} {side₀ side₁ : DiagramSide},
    CompareInv chunks₀ chunks₁ m side₀ side₁ →
    ¬ (side₀.betterSomewhere = true ∧ side₁.betterSomewhere = true) →
    side₀.rest.length + side₁.rest.length < rounds →
    (∀ r, compareLoop wide rounds side₀ side₁ = some r →
      r.Describes (diagram chunks₀) (diagram chunks₁)) ∧
    ((∃ r, compareLoop wide rounds side₀ side₁ = some r) ↔ DifferencesFit chunks₀ chunks₁ m)
  | 0, _, _, _, _, _, hrounds => absurd hrounds (Nat.not_lt_zero _)
  | rounds + 1, m, side₀, side₁, hinv, hflags, hrounds => by
    rw [compareLoop]
    split
    next hend =>
      refine ⟨?_, fun _ => ⟨.of_end hpos₀ hinv.at₀ hend.1, .of_end hpos₁ hinv.at₁ hend.2⟩,
        fun _ => ⟨_, rfl⟩⟩
      rintro r ⟨⟩
      exact describes_compareFlags hpos₀ hpos₁ hinv hend.1 hend.2 hflags
    next hne =>
      obtain ⟨side₀', side₁', p, hprocess, hinv', hlength, hfit⟩ | ⟨hprocess, hfit⟩ :=
        processNext_inv hwide hpos₀ hpos₁ hpoints hinv hflags hne
      · simp only [hprocess, bind_eq_bind, bind_some]
        rw [hfit]
        split
        next hboth =>
          rw [Bool.and_eq_true] at hboth
          have hhigher₀ := hinv'.sound₀ hboth.1
          have hhigher₁ := hinv'.sound₁ hboth.2
          refine ⟨?_, fun _ => .of_higherBefore hhigher₀ hhigher₁, fun _ => ⟨_, rfl⟩⟩
          rintro r ⟨⟩
          exact ⟨hhigher₁.exists_lt hpos₁ hpos₀, hhigher₀.exists_lt hpos₀ hpos₁⟩
        next hnot =>
          rw [Bool.and_eq_true] at hnot
          exact compareLoop_eq rounds hinv' hnot (by omega)
      · simp [hprocess, hfit]

end Round

/-- **Chunks are compared by their diagrams.**  If the sums of the chunks of either list are
representable, then what `CompareChunks` says is how the two diagrams compare over all sizes, and it
says something if and only if the differences between fees that it takes are representable too. -/
theorem compareChunks_describes (wide : WideInt)
    (hplatform : wide = WideInt.int128 ∨ wide = WideInt.fallback) (chunks₀ chunks₁ : List FeeFrac)
    (hpos₀ : ∀ chunk ∈ chunks₀, 0 < chunk.size) (hpos₁ : ∀ chunk ∈ chunks₁, 0 < chunk.size)
    (hpoints : SumsRepresentable chunks₀ chunks₁) :
    (∀ r, compareChunks wide chunks₀ chunks₁ = some r →
      r.Describes (diagram chunks₀) (diagram chunks₁)) ∧
    ((∃ r, compareChunks wide chunks₀ chunks₁ = some r) ↔ DifferencesFit chunks₀ chunks₁ 0) := by
  obtain ⟨IsWide, value, hwide⟩ := WideInt.exists_exact hplatform
  exact compareLoop_eq hwide hpos₀ hpos₁ hpoints _ (CompareInv.start chunks₀ chunks₁ hpos₀ hpos₁)
    (by simp) (Nat.lt_succ_self _)

/-- A diagram that is higher at first by more than a fee can be below at its end, which does not
matter where the two ends are not compared. -/
theorem compareChunks_describes_highFirst :
    PartialOrdering.greater.Describes (diagram [⟨2 ^ 62 + 1, 1⟩, ⟨-2 ^ 62 - 1, 1⟩])
      (diagram [⟨0, 1⟩, ⟨0, 1⟩, ⟨-2 ^ 62 - 1, 1⟩]) ∧
    DifferencesFit [⟨2 ^ 62 + 1, 1⟩, ⟨-2 ^ 62 - 1, 1⟩] [⟨0, 1⟩, ⟨0, 1⟩, ⟨-2 ^ 62 - 1, 1⟩] 0 := by
  obtain ⟨hdescribes, hfit⟩ := compareChunks_describes WideInt.fallback (.inr rfl)
    [⟨2 ^ 62 + 1, 1⟩, ⟨-2 ^ 62 - 1, 1⟩] [⟨0, 1⟩, ⟨0, 1⟩, ⟨-2 ^ 62 - 1, 1⟩] (by decide) (by decide)
    ⟨by decide, by decide, by decide, by decide⟩
  have hresult : compareChunks WideInt.fallback [⟨2 ^ 62 + 1, 1⟩, ⟨-2 ^ 62 - 1, 1⟩]
      [⟨0, 1⟩, ⟨0, 1⟩, ⟨-2 ^ 62 - 1, 1⟩] = some .greater := by decide +kernel
  exact ⟨hdescribes _ hresult, hfit.mp ⟨_, hresult⟩⟩

/-- A negative fee on one side and a large one on the other.  The sums of either side are
representable; the slope from the one point to the other is not. -/
theorem compareChunks_overflow :
    (∀ chunk ∈ ([⟨-2 ^ 62 - 1, 1⟩] : List FeeFrac), 0 < chunk.size) ∧
    (∀ chunk ∈ ([⟨2 ^ 62 + 1, 2⟩] : List FeeFrac), 0 < chunk.size) ∧
    SumsRepresentable [⟨-2 ^ 62 - 1, 1⟩] [⟨2 ^ 62 + 1, 2⟩] ∧
    compareChunks WideInt.int128 [⟨-2 ^ 62 - 1, 1⟩] [⟨2 ^ 62 + 1, 2⟩] = none ∧
    compareChunks WideInt.fallback [⟨-2 ^ 62 - 1, 1⟩] [⟨2 ^ 62 + 1, 2⟩] = none := by
  refine ⟨by decide, by decide, ⟨by decide, by decide, by decide, by decide⟩, ?_, ?_⟩
  · decide +kernel
  · decide +kernel

end SlithyTove
