import PiIpython.Lib.Join
import PiIpython.Lib.JsString

/-!
# Guarded merges

`joins` of `headstart.py` merges two frames and refuses a left or inner merge
when a key of the first repeats in the second. What it uses of pandas is a
`Pandas`; `Relational` is what pandas documents of it: `merge` is the relational
join, and `isin`, `duplicated` and `unique` go by the same equality of keys.

A repeated key adds rows to a left join. An inner join also loses the rows of
`a` without a match, so that it can have a repeated key and no more rows than
`a`: there `joins` refuses a merge that multiplies nothing (`joins_exact_iff`).
-/

namespace PiIpython.Headstart

open Text Join

inductive Raised where
  | typeError (message : PyStr)
  | valueError (message : PyStr)
  /-- An exception of pandas. -/
  | pandas (message : PyStr)
  deriving DecidableEq

/-- The argument `key`: a column, or a list of them. -/
inductive Key where
  | column (name : PyStr)
  | columns (names : List PyStr)
  deriving DecidableEq

/-- The arguments `a` and `b`. -/
inductive Data (Frame Record : Type) where
  | frame (f : Frame)
  | records (rs : List Record)
  | other (typeName : PyStr)

/-- What `joins` uses of pandas. -/
structure Pandas (Frame Record Row Label : Type) where
  dataFrame : List Record → Frame
  rows : Frame → List Row
  /-- What a row has in the columns of the key. -/
  label : Key → Row → Label
  /-- `f.set_index(key).index` -/
  setIndex : Frame → Key → Except Raised (List Label)
  isin : List Label → List Label → List Bool
  duplicated : List Label → List Bool
  unique : List Label → List Label
  merge : Frame → Frame → Key → PyStr → Option PyStr → Except Raised Frame
  /-- The row of a merge for a row of the left frame and its match. -/
  joined : Key → Row → Option Row → Row
  /-- `repr` of a list of labels. -/
  repr : List Label → PyStr

variable {Frame Record Row Label : Type} (p : Pandas Frame Record Row Label)

/-- The entries of a list at which the mask is set. -/
def masked {α : Type} (l : List α) (mask : List Bool) : List α :=
  ((l.zip mask).filter (·.2)).map (·.1)

/-- `f"{n:,}"`: digits in groups of three. -/
def grouped (n : Nat) : PyStr :=
  if n < 1000 then py (toString n)
  else grouped (n / 1000) ++ py "," ++ (py (toString (1000 + n % 1000))).tail

def frame (verb : PyStr) : Data Frame Record → Except Raised Frame
  | .frame f => .ok f
  | .records rs => .ok (p.dataFrame rs)
  | .other typeName => .error (.typeError
      (verb ++ py " needs a DataFrame or records, not " ++ typeName))

/-- The keys that repeat in `b` and are in `a`. -/
def repeated (ia ib : List Label) : List Label :=
  p.unique (masked ib (List.zipWith (· && ·) (p.duplicated ib) (p.isin ib ia)))

/-- The line that is printed before the merge. -/
def counts (ia ib : List Label) : PyStr :=
  let found := p.isin ia ib
  py "matched " ++ grouped (found.count true) ++ py ", only a " ++ grouped (found.count false) ++
    py ", only b " ++ grouped ((p.isin ib ia).count false)

def refusal (labels : List Label) : PyStr :=
  py "joins gives more rows than a: " ++ grouped labels.length ++
    py " keys repeat in b, such as " ++ p.repr (labels.take 10) ++
    py "; pass validate= to allow it"

/-- What is printed, and the result. -/
def joins (a b : Data Frame Record) (key : Key) (how : PyStr) (validate : Option PyStr) :
    List PyStr × Except Raised Frame :=
  let read : Except Raised (Frame × Frame × List Label × List Label) := do
    let a ← frame p (py "joins") a
    let b ← frame p (py "joins") b
    let ia ← p.setIndex a key
    let ib ← p.setIndex b key
    pure (a, b, ia, ib)
  match read with
  | .error e => ([], .error e)
  | .ok (a, b, ia, ib) =>
    ([counts p ia ib],
      if validate = none ∧ (how = py "left" ∨ how = py "inner") ∧ (repeated p ia ib).length > 0 then
        .error (.valueError (refusal p (repeated p ia ib)))
      else p.merge a b key how validate)

/-! ## What pandas documents -/

/-- For each entry, whether it is among the earlier ones or `seen`. -/
def repeats [DecidableEq Label] (seen : List Label) : List Label → List Bool
  | [] => []
  | k :: ks => decide (k ∈ seen) :: repeats (k :: seen) ks

structure Pandas.Relational [DecidableEq Label] : Prop where
  setIndex : ∀ {f key labels}, p.setIndex f key = .ok labels →
    labels = (p.rows f).map (p.label key)
  isin : ∀ l m, p.isin l m = l.map fun k => decide (k ∈ m)
  duplicated : ∀ l, p.duplicated l = repeats [] l
  unique : ∀ l k, k ∈ p.unique l ↔ k ∈ l
  /-- `merge` on columns that both frames have. -/
  left : ∀ {a b key la lb}, p.setIndex a key = .ok la → p.setIndex b key = .ok lb →
    ∃ m, p.merge a b key (py "left") none = .ok m ∧
      p.rows m = (leftJoin (p.label key) (p.label key) (p.rows a) (p.rows b)).map fun x =>
        p.joined key x.1 x.2
  inner : ∀ {a b key la lb}, p.setIndex a key = .ok la → p.setIndex b key = .ok lb →
    ∃ m, p.merge a b key (py "inner") none = .ok m ∧
      p.rows m = (innerJoin (p.label key) (p.label key) (p.rows a) (p.rows b)).map fun x =>
        p.joined key x.1 (some x.2)

variable [DecidableEq Label]

theorem mem_masked_cons {α : Type} {k x : α} {l : List α} {set : Bool} {mask : List Bool} :
    k ∈ masked (x :: l) (set :: mask) ↔ set = true ∧ k = x ∨ k ∈ masked l mask := by
  unfold masked
  cases set <;> simp

theorem mem_masked_repeats {f : Label → Bool} {k : Label} (seen l : List Label) :
    k ∈ masked l (List.zipWith (· && ·) (repeats seen l) (l.map f)) ↔
      f k = true ∧ (k ∈ seen ∧ k ∈ l ∨ 1 < l.count k) := by
  induction l generalizing seen with
  | nil => simp [masked]
  | cons x l ih =>
    change k ∈ masked (x :: l) ((decide (x ∈ seen) && f x) ::
      List.zipWith (· && ·) (repeats (x :: seen) l) (l.map f)) ↔ _
    rw [mem_masked_cons, ih, Bool.and_eq_true, decide_eq_true_iff, List.mem_cons, List.mem_cons]
    by_cases hx : k = x
    · subst hx
      have hpos : 1 < (k :: l).count k ↔ k ∈ l := by
        rw [List.count_cons_self, ← List.count_pos_iff]
        omega
      have hmem : 1 < l.count k → k ∈ l := fun h => List.count_pos_iff.mp (by omega)
      rw [hpos]
      tauto
    · rw [List.count_cons_of_ne (Ne.symm hx)]
      tauto

variable {p} {a b : Frame} {ia ib : List Label} {key : Key}

/-- **The repeated keys** are those of `a` that occur more than once in `b`. -/
theorem mem_repeated (hp : p.Relational) {k : Label} :
    k ∈ repeated p ia ib ↔ k ∈ ia ∧ 1 < ib.count k := by
  unfold repeated
  rw [hp.unique, hp.duplicated, hp.isin, mem_masked_repeats]
  simp

theorem repeated_pos_iff (hp : p.Relational) :
    0 < (repeated p ia ib).length ↔ ∃ k ∈ ia, 1 < ib.count k := by
  rw [List.length_pos_iff_exists_mem]
  exact exists_congr fun k => mem_repeated hp

/-! ## The guard -/

/-- `joins` raises a `ValueError` exactly if the merge has more rows than `a`, and its result is
a merge with at most as many. -/
def Exact (p : Pandas Frame Record Row Label) (a b : Frame) (key : Key) (how : PyStr) : Prop :=
  ∃ m, p.merge a b key how none = .ok m ∧
    ((∃ message, (joins p (.frame a) (.frame b) key how none).2 = .error (.valueError message)) ↔
      (p.rows a).length < (p.rows m).length) ∧
    ∀ r, (joins p (.frame a) (.frame b) key how none).2 = .ok r →
      r = m ∧ (p.rows r).length ≤ (p.rows a).length

omit [DecidableEq Label] in
theorem joins_of_labels (ha : p.setIndex a key = .ok ia) (hb : p.setIndex b key = .ok ib)
    (how : PyStr) : (joins p (.frame a) (.frame b) key how none).2 =
      if (how = py "left" ∨ how = py "inner") ∧ 0 < (repeated p ia ib).length then
        .error (.valueError (refusal p (repeated p ia ib)))
      else p.merge a b key how none := by
  have hread : (do
      let a ← frame p (py "joins") (.frame a)
      let b ← frame p (py "joins") (.frame b)
      let ia ← p.setIndex a key
      let ib ← p.setIndex b key
      pure (a, b, ia, ib) : Except Raised _) = .ok (a, b, ia, ib) := by
    change (p.setIndex a key).bind _ = _
    rw [ha]
    change (p.setIndex b key).bind _ = _
    rw [hb]
    rfl
  unfold joins
  rw [hread]
  simp only [true_and, gt_iff_lt]

/-- The guard is exact where a key of `a` repeats in `b` just if the merge is the longer. -/
theorem exact_iff (hp : p.Relational) (ha : p.setIndex a key = .ok ia)
    (hb : p.setIndex b key = .ok ib) {how : PyStr} (hhow : how = py "left" ∨ how = py "inner")
    {m : Frame} (hm : p.merge a b key how none = .ok m) :
    Exact p a b key how ↔ ((∃ x ∈ p.rows a, 1 < ib.count (p.label key x)) ↔
      (p.rows a).length < (p.rows m).length) := by
  have hrepeated : 0 < (repeated p ia ib).length ↔
      ∃ x ∈ p.rows a, 1 < ib.count (p.label key x) := by
    rw [repeated_pos_iff hp, hp.setIndex ha]
    simp only [List.mem_map, exists_exists_and_eq_and]
  unfold Exact
  rw [joins_of_labels ha hb, hm, ← hrepeated]
  by_cases h : 0 < (repeated p ia ib).length
  · rw [if_pos ⟨hhow, h⟩]
    simp [h]
  · rw [if_neg fun hc => h hc.2]
    simp [h]

/-- The join is left, or no key of `a` repeats in `b`, or the further matches of the repeated keys
outnumber the rows of `a` that have none. -/
def Guarded (p : Pandas Frame Record Row Label) (a : Frame) (ib : List Label) (key : Key)
    (how : PyStr) : Prop :=
  how = py "left" ∨ (∀ x ∈ p.rows a, ib.count (p.label key x) ≤ 1) ∨
    unmatched (p.label key) ib (p.rows a) < additional (p.label key) ib (p.rows a)

/-- **What `joins` refuses.** -/
theorem joins_exact_iff (hp : p.Relational) (ha : p.setIndex a key = .ok ia)
    (hb : p.setIndex b key = .ok ib) {how : PyStr} (hhow : how = py "left" ∨ how = py "inner") :
    Exact p a b key how ↔ Guarded p a ib key how := by
  have hib := hp.setIndex hb
  have hadditional : 0 < additional (p.label key) ib (p.rows a) ↔
      ∃ x ∈ p.rows a, 1 < ib.count (p.label key x) := additional_pos_iff
  rcases hhow with rfl | rfl
  · obtain ⟨m, hm, hrows⟩ := hp.left ha hb
    have hlength : (p.rows m).length =
        (p.rows a).length + additional (p.label key) ib (p.rows a) := by
      rw [hrows, List.length_map, leftJoin_balance, ← hib]
    rw [exact_iff hp ha hb (.inl rfl) hm, ← hadditional, hlength]
    exact iff_of_true (by omega) (.inl rfl)
  · obtain ⟨m, hm, hrows⟩ := hp.inner ha hb
    have hlength : (p.rows m).length + unmatched (p.label key) ib (p.rows a) =
        (p.rows a).length + additional (p.label key) ib (p.rows a) := by
      rw [hrows, List.length_map, hib, innerJoin_balance]
    have hnone : (∀ x ∈ p.rows a, ib.count (p.label key x) ≤ 1) ↔
        additional (p.label key) ib (p.rows a) = 0 := by
      rw [← not_iff_not, ← Ne, ← Nat.pos_iff_ne_zero, hadditional]
      simp
    unfold Guarded
    rw [exact_iff hp ha hb (.inr rfl) hm, ← hadditional, hnone,
      or_iff_right (show ¬ py "inner" = py "left" by decide)]
    omega

/-! ## Frames of rows -/

/-- Frames as lists of rows, whose first cell is the key. -/
def plain : Pandas (List (List (Option Nat))) (List (Option Nat)) (List (Option Nat))
    (Option Nat) :=
  let label : List (Option Nat) → Option Nat := fun row => row.head?.join
  let joined : List (Option Nat) → Option (List (Option Nat)) → List (Option Nat) := fun row other =>
    row ++ other.elim [none] List.tail
  { dataFrame := id
    rows := id
    label := fun _ => label
    setIndex := fun f _ => .ok (f.map label)
    isin := fun l m => l.map fun k => decide (k ∈ m)
    duplicated := repeats []
    unique := List.dedup
    merge := fun f g _ how _ =>
      if how = py "left" then .ok ((leftJoin label label f g).map fun x => joined x.1 x.2)
      else if how = py "inner" then
        .ok ((innerJoin label label f g).map fun x => joined x.1 (some x.2))
      else .error (.pandas (py "how"))
    joined := fun _ => joined
    repr := fun labels => labels.flatMap fun k => k.elim (py "nan ") fun n => grouped n ++ py " " }

theorem plain_inner (f g : List (List (Option Nat))) (key : Key) :
    plain.merge f g key (py "inner") none =
      .ok ((innerJoin (plain.label key) (plain.label key) f g).map fun x =>
        plain.joined key x.1 (some x.2)) := by
  have h : py "inner" ≠ py "left" := by decide
  simp only [plain, if_neg h, if_true]

theorem plain_relational : plain.Relational where
  setIndex := by
    rintro f key labels h
    exact (Except.ok.inj h).symm
  isin l m := List.map_congr_left fun _ _ => decide_eq_decide.mpr Iff.rfl
  duplicated _ := rfl
  unique _ _ := List.mem_dedup
  left _ _ := ⟨_, rfl, rfl⟩
  inner _ _ := ⟨_, plain_inner .., rfl⟩

/-- Four matches of one row outnumber the two rows without a match. -/
theorem joins_exact_at_repeats :
    Exact plain [[some 1], [some 2], [some 3]]
      [[some 2, some 1], [some 2, some 2], [some 2, some 3], [some 2, some 4], [some 4, some 5]]
      (.column (py "id")) (py "inner") :=
  (joins_exact_iff plain_relational rfl rfl (.inr rfl)).mpr (.inr (.inr (by decide)))

/-- One key repeats and one row has no match: the inner join has as many rows as `a`, and is
refused. -/
theorem joins_refuses_balanced :
    ¬ Exact plain [[some 1], [some 2]] [[some 1, some 10], [some 1, some 11]]
      (.column (py "id")) (py "inner") := by
  rw [exact_iff plain_relational rfl rfl (.inr rfl) (plain_inner ..)]
  decide

end PiIpython.Headstart
