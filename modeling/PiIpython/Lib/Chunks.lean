import PiIpython.Lib.Regex

/-!
# Sequences in a text that comes in chunks

A text holds sequences that are not shown, and units that are never shown.
`shown` is what is left of it. `Sequences` is a grammar of sequences of which
one can tell where it ends: each begins with a unit that is not shown and one
that is, no later text changes where it ends, and one that begins within
another ends within it.

A boundary *straddles* a text when it falls within a sequence. What is shown of
two parts is what is shown of the whole unless their boundary straddles it, and
then it is more (`shown_append`, `shown_append_lt`); likewise for any number of
chunks (`shown_flatten`, `shown_flatten_lt`).
-/

namespace PiIpython

structure Sequences (α : Type) (shows : α → Bool) where
  /-- What follows the sequence at the head. -/
  next : List α → Option (List α)
  begins : ∀ {s rest : List α}, next s = some rest →
    ∃ c d w, s = c :: d :: (w ++ rest) ∧ shows c = false ∧ shows d = true
  delimited : ∀ {w rest rest' : List α}, next (w ++ rest) = some rest →
    next (w ++ rest') = some rest'
  nested : ∀ {u v rest x r : List α}, u ≠ [] → v ≠ [] → next (u ++ (v ++ rest)) = some rest →
    next (v ++ x) = some r → x.length ≤ r.length

namespace Sequences

variable {α : Type} {shows : α → Bool} (S : Sequences α shows) {s s' t u v w rest a b : List α}

/-- The text without its sequences and without the units that are never shown. -/
def shown (s : List α) : List α := (eraseAll S.next s).filter shows

/-- The boundary before the last `n` units falls within a sequence of the text. -/
def Straddles (t : List α) (n : Nat) : Prop :=
  ∃ w s s', Across S.next t w s ∧ S.next s = some s' ∧ s'.length < n ∧ n < s.length

variable {S}

/-! ## Sequences at the head -/

theorem next_suffix (h : S.next s = some rest) : ∃ w, w ≠ [] ∧ s = w ++ rest := by
  obtain ⟨c, d, w, rfl, -, -⟩ := S.begins h
  exact ⟨c :: d :: w, List.cons_ne_nil _ _, rfl⟩

theorem next_length (h : S.next s = some rest) : rest.length < s.length := by
  obtain ⟨w, hw, rfl⟩ := next_suffix h
  have := List.length_pos_iff.mpr hw
  rw [List.length_append]
  omega

theorem across_suffix (h : Across S.next t w s) : ∃ p, t = p ++ s := by
  induction h with
  | refl s => exact ⟨[], rfl⟩
  | pass hn _ _ ih =>
    obtain ⟨q, -, rfl⟩ := next_suffix hn
    obtain ⟨p, rfl⟩ := ih
    exact ⟨q ++ p, (List.append_assoc _ _ _).symm⟩
  | @unit u us _ _ _ _ ih =>
    obtain ⟨p, rfl⟩ := ih
    exact ⟨u :: p, rfl⟩

/-- A start of a text has no sequence that the text does not have. -/
theorem next_none_of_append (h : S.next (u ++ b) = none) : S.next u = none := by
  cases hu : S.next u with
  | none => rfl
  | some r =>
    obtain ⟨q, -, rfl⟩ := next_suffix hu
    have hq : S.next (q ++ (r ++ b)) = some (r ++ b) := S.delimited hu
    rw [List.append_assoc, hq] at h
    cases h

/-- A part of a sequence is none. -/
theorem next_none_of_part (h : S.next (u ++ (v ++ rest)) = some rest) (hv : v ≠ []) :
    S.next u = none := by
  cases hu : S.next u with
  | none => rfl
  | some r =>
    obtain ⟨q, -, rfl⟩ := next_suffix hu
    have hq : S.next (q ++ (r ++ (v ++ rest))) = some (r ++ (v ++ rest)) := S.delimited hu
    rw [List.append_assoc, hq] at h
    have := congrArg List.length (Option.some.inj h)
    have hpos := List.length_pos_iff.mpr hv
    simp only [List.length_append] at this
    omega

theorem next_none_of_shows {d : α} (h : shows d = true) (us : List α) :
    S.next (d :: us) = none := by
  cases hd : S.next (d :: us) with
  | none => rfl
  | some r =>
    obtain ⟨c, e, w, he, hc, -⟩ := S.begins hd
    rw [(List.cons.inj he).1, hc] at h
    cases h

/-- Of the two parts of a sequence that is cut, the second unit is shown. -/
theorem shown_parts (h : S.next (u ++ (v ++ rest)) = some rest) (hu : u ≠ []) (hv : v ≠ []) :
    0 < (S.shown u).length + (S.shown v).length := by
  have hlead : ∀ {d : α} {us : List α}, shows d = true → 0 < (S.shown (d :: us)).length := by
    intro d us hd
    rw [shown, eraseAll_none (next_none_of_shows hd us), List.filter_cons_of_pos hd]
    exact Nat.succ_pos _
  obtain ⟨c, d, w, he, hc, hd⟩ := S.begins h
  cases u with
  | nil => exact absurd rfl hu
  | cons x u =>
    cases u with
    | nil =>
      cases v with
      | nil => exact absurd rfl hv
      | cons y v =>
        obtain ⟨-, htail⟩ := List.cons.inj he
        obtain ⟨rfl, -⟩ := List.cons.inj htail
        exact Nat.add_pos_right _ (hlead hd)
    | cons y u =>
      obtain ⟨-, htail⟩ := List.cons.inj he
      obtain ⟨rfl, -⟩ := List.cons.inj htail
      refine Nat.add_pos_left ?_ _
      rw [shown, eraseAll_none (next_none_of_part h hv), List.filter_cons]
      split
      · exact Nat.succ_pos _
      · exact hlead hd

/-! ## Two parts -/

/-- Where the boundary is outside the sequences, reading passes through it. -/
theorem across_boundary (h : ¬ S.Straddles (a ++ b) b.length) :
    Across S.next (a ++ b) (eraseAll S.next a) b := by
  induction hn : a.length using Nat.strong_induction_on generalizing a with
  | h n ih =>
    cases a with
    | nil => rw [eraseAll_nil]; exact .refl b
    | cons u us =>
      have hn' : us.length < n := by rw [← hn, List.length_cons]; exact Nat.lt_succ_self _
      rw [List.cons_append] at h ⊢
      cases hnext : S.next (u :: (us ++ b)) with
      | none =>
        have hus : ¬ S.Straddles (us ++ b) b.length := fun ⟨w, s, s', hs, h1, h2, h3⟩ =>
          h ⟨u :: w, s, s', .unit hnext hs, h1, h2, h3⟩
        rw [eraseAll_none (next_none_of_append (b := b) hnext)]
        exact .unit hnext (ih _ hn' hus rfl)
      | some s' =>
        have hlen := next_length hnext
        have hle : b.length ≤ s'.length := by
          by_contra hlt
          refine h ⟨[], _, s', .refl _, hnext, by omega, ?_⟩
          rw [List.length_cons, List.length_append]
          omega
        obtain ⟨q, hq, hs⟩ := next_suffix hnext
        obtain ⟨a', rfl⟩ : b <:+ s' :=
          List.suffix_of_suffix_length_le ⟨u :: us, rfl⟩ ⟨q, hs.symm⟩ hle
        have ha : u :: us = q ++ a' := by
          rw [← List.cons_append, ← List.append_assoc] at hs
          exact List.append_cancel_right hs
        have hcut : S.next (u :: us) = some a' := by
          rw [ha]
          rw [hs] at hnext
          exact S.delimited hnext
        have hlt := next_length hcut
        rw [eraseAll_some hcut (Nat.lt_succ_iff.mp hlt)]
        refine .pass hnext hlen (ih a'.length (by rw [← hn]; exact hlt) ?_ rfl)
        exact fun ⟨w, s, s', hs, h1, h2, h3⟩ => h ⟨w, s, s', .pass hnext hlen hs, h1, h2, h3⟩

theorem eraseAll_append_of_not (h : ¬ S.Straddles (a ++ b) b.length) :
    eraseAll S.next (a ++ b) = eraseAll S.next a ++ eraseAll S.next b :=
  (across_boundary h).eraseAll_eq

theorem shown_append (h : ¬ S.Straddles (a ++ b) b.length) :
    S.shown (a ++ b) = S.shown a ++ S.shown b := by
  rw [shown, eraseAll_append_of_not h, List.filter_append]
  rfl

/-- Cut short after `s`, the text is read up to there as before. -/
theorem across_cut (h : Across S.next t w s) (ht : t = a ++ s) (hs : s = u ++ b) :
    Across S.next (a ++ u) w u := by
  induction h generalizing a with
  | refl s =>
    obtain rfl : a = [] := List.self_eq_append_left.mp ht
    exact .refl u
  | @pass t t' w s hn hlen h' ih =>
    obtain ⟨p, rfl⟩ := across_suffix h'
    obtain ⟨q, -, hq⟩ := next_suffix hn
    have ha : a = q ++ p := by
      rw [hq, ← List.append_assoc] at ht
      exact (List.append_cancel_right ht).symm
    subst ha
    rw [hq] at hn
    have hcut : S.next (q ++ (p ++ u)) = some (p ++ u) := S.delimited hn
    rw [List.append_assoc]
    exact .pass hcut (next_length hcut) (ih rfl hs)
  | @unit x us w s hn h' ih =>
    obtain ⟨p, rfl⟩ := across_suffix h'
    have ha : a = x :: p := by
      rw [← List.cons_append] at ht
      exact (List.append_cancel_right ht).symm
    subst ha
    rw [hs, ← List.append_assoc, ← List.cons_append] at hn
    exact .unit (next_none_of_append hn) (ih rfl hs)

/-- **A sequence that is cut shows more than nothing.** -/
theorem shown_append_lt (h : S.Straddles (a ++ b) b.length) :
    (S.shown (a ++ b)).length < (S.shown a).length + (S.shown b).length := by
  obtain ⟨w, s, s', hs, hnext, h1, h2⟩ := h
  obtain ⟨p, hp⟩ := across_suffix hs
  obtain ⟨q, hq, rfl⟩ := next_suffix hnext
  obtain ⟨u, hu⟩ : b <:+ q ++ s' :=
    List.suffix_of_suffix_length_le ⟨a, rfl⟩ ⟨p, hp.symm⟩ h2.le
  obtain ⟨v, rfl⟩ : s' <:+ b :=
    List.suffix_of_suffix_length_le ⟨q, rfl⟩ ⟨u, hu⟩ h1.le
  have hune : u ≠ [] := by
    rintro rfl
    rw [← hu, List.nil_append] at h2
    exact absurd h2 (lt_irrefl _)
  have hvne : v ≠ [] := by
    rintro rfl
    exact absurd h1 (lt_irrefl _)
  rw [← hu] at hnext hs hp
  have ha : a = p ++ u := by
    have hassoc : a ++ (v ++ s') = (p ++ u) ++ (v ++ s') := hp.trans (List.append_assoc _ _ _).symm
    exact List.append_cancel_right hassoc
  subst ha
  -- what begins within the second part ends within the sequence
  have hin : ¬ S.Straddles (v ++ s') s'.length := by
    rintro ⟨w₂, s₂, s₃, hs₂, hnext₂, h3, h4⟩
    obtain ⟨p₂, hp₂⟩ := across_suffix hs₂
    obtain ⟨v₂, rfl⟩ : s' <:+ s₂ :=
      List.suffix_of_suffix_length_le ⟨v, rfl⟩ ⟨p₂, hp₂.symm⟩ h4.le
    have hv₂ : v₂ ≠ [] := by
      rintro rfl
      exact absurd h4 (lt_irrefl _)
    have hv : v = p₂ ++ v₂ := by
      rw [← List.append_assoc] at hp₂
      exact List.append_cancel_right hp₂
    have hword : S.next ((u ++ p₂) ++ (v₂ ++ s')) = some s' := by
      rw [hv] at hnext
      simpa only [List.append_assoc] using hnext
    have := S.nested (by simp [hune]) hv₂ hword hnext₂
    omega
  have hwhole : S.shown ((p ++ u) ++ (v ++ s')) = w.filter shows ++ S.shown s' := by
    rw [shown, hs.eraseAll_eq, (Across.pass hnext (next_length hnext) (.refl s')).eraseAll_eq,
      List.nil_append, List.filter_append]
    rfl
  have hfirst : S.shown (p ++ u) = w.filter shows ++ S.shown u := by
    rw [shown, (across_cut hs hp rfl).eraseAll_eq, List.filter_append]
    rfl
  have hparts := shown_parts hnext hune hvne
  rw [hwhole, hfirst, shown_append hin]
  simp only [List.length_append]
  omega

theorem shown_append_le (a b : List α) :
    (S.shown (a ++ b)).length ≤ (S.shown a).length + (S.shown b).length := by
  by_cases h : S.Straddles (a ++ b) b.length
  · exact (shown_append_lt h).le
  · rw [shown_append h, List.length_append]

/-! ## Any number of chunks -/

/-- Reading is determined: of two places that it passes, one is passed first. -/
theorem across_of_le (h : Across S.next t v a) (h' : Across S.next t w b)
    (hle : b.length ≤ a.length) : ∃ w', Across S.next a w' b := by
  induction h generalizing w with
  | refl t => exact ⟨w, h'⟩
  | @pass t t' v a hn _ ha ih =>
    obtain ⟨p, rfl⟩ := across_suffix ha
    have hlen := next_length hn
    cases h' with
    | refl => rw [List.length_append] at hlen; omega
    | pass hn' _ hb =>
      rw [hn] at hn'
      cases hn'
      exact ih hb hle
    | unit hn' _ => rw [hn] at hn'; cases hn'
  | @unit x us v a hn ha ih =>
    obtain ⟨p, rfl⟩ := across_suffix ha
    cases h' with
    | refl => rw [List.length_cons, List.length_append] at hle; omega
    | pass hn' _ _ => rw [hn] at hn'; cases hn'
    | unit _ hb => exact ih hb hle

/-- Beyond a boundary outside the sequences, those of the rest are those of the text. -/
theorem straddles_append_iff (h : ¬ S.Straddles (a ++ b) b.length) {n : Nat} (hn : n ≤ b.length) :
    S.Straddles (a ++ b) n ↔ S.Straddles b n := by
  have hb := across_boundary h
  constructor
  · rintro ⟨w, s, s', hs, hnext, h1, h2⟩
    rcases Nat.le_total s.length b.length with hle | hle
    · obtain ⟨w', hs'⟩ := across_of_le hb hs hle
      exact ⟨w', s, s', hs', hnext, h1, h2⟩
    · -- the sequence would have to end before the boundary that is beyond its end
      obtain ⟨w', hs'⟩ := across_of_le hs hb hle
      rcases Nat.lt_or_ge s'.length b.length with hlt | hge
      · rcases Nat.lt_or_ge b.length s.length with hlt' | hge'
        · exact absurd ⟨w, s, s', hs, hnext, hlt, hlt'⟩ h
        · obtain ⟨p, rfl⟩ := across_suffix hs'
          rw [List.length_append] at hge'
          obtain rfl : p = [] := List.length_eq_zero_iff.mp (by omega)
          exact ⟨[], _, s', .refl _, hnext, h1, h2⟩
      · omega
  · rintro ⟨w, s, s', hs, hnext, h1, h2⟩
    exact ⟨_, s, s', hb.trans hs, hnext, h1, h2⟩

/-- **Chunks show what the whole shows** when no boundary straddles it. -/
theorem shown_flatten {ds : List (List α)}
    (h : ∀ ys zs, ds = ys ++ zs → ¬ S.Straddles ds.flatten zs.flatten.length) :
    ds.flatMap S.shown = S.shown ds.flatten := by
  induction ds with
  | nil => rw [List.flatMap_nil, List.flatten_nil, shown, eraseAll_nil]; rfl
  | cons d ds ih =>
    have hd := h [d] ds rfl
    rw [List.flatten_cons] at h hd
    rw [List.flatMap_cons, List.flatten_cons, shown_append hd, ih]
    rintro ys zs rfl
    rw [← straddles_append_iff hd (by simp)]
    exact h (d :: ys) zs rfl

/-- So do the chunks up to any boundary. -/
theorem shown_flatten_of_append {ds ys zs : List (List α)}
    (h : ∀ ys zs, ds = ys ++ zs → ¬ S.Straddles ds.flatten zs.flatten.length) (hds : ds = ys ++ zs) :
    ys.flatMap S.shown = S.shown ys.flatten ∧ zs.flatMap S.shown = S.shown zs.flatten := by
  have hall := shown_flatten h
  have hcut := h ys zs hds
  subst hds
  rw [List.flatten_append] at h hcut
  have hzs : zs.flatMap S.shown = S.shown zs.flatten := by
    refine shown_flatten fun y z hz => ?_
    rw [← straddles_append_iff hcut (by rw [hz]; simp)]
    exact h (ys ++ y) z (by rw [hz, List.append_assoc])
  refine ⟨?_, hzs⟩
  rw [List.flatMap_append, List.flatten_append, shown_append hcut, hzs] at hall
  exact List.append_cancel_right hall

theorem length_shown_flatten_le (ds : List (List α)) :
    (S.shown ds.flatten).length ≤ (ds.flatMap S.shown).length := by
  induction ds with
  | nil => rw [List.flatMap_nil, List.flatten_nil, shown, eraseAll_nil]; rfl
  | cons d ds ih =>
    rw [List.flatMap_cons, List.flatten_cons, List.length_append]
    exact (shown_append_le _ _).trans (Nat.add_le_add_left ih _)

/-- **A boundary that straddles shows more.** -/
theorem shown_flatten_lt {ds ys zs : List (List α)} (hds : ds = ys ++ zs)
    (h : S.Straddles ds.flatten zs.flatten.length) :
    (S.shown ds.flatten).length < (ds.flatMap S.shown).length := by
  subst hds
  induction ys with
  | nil =>
    obtain ⟨w, s, s', hs, -, -, h2⟩ := h
    obtain ⟨p, hp⟩ := across_suffix hs
    have := congrArg List.length hp
    simp only [List.nil_append, List.length_append] at this
    omega
  | cons d ys ih =>
    rw [List.cons_append, List.flatten_cons] at h
    rw [List.cons_append, List.flatMap_cons, List.flatten_cons, List.length_append]
    by_cases hd : S.Straddles (d ++ (ys ++ zs).flatten) (ys ++ zs).flatten.length
    · exact lt_of_lt_of_le (shown_append_lt hd)
        (Nat.add_le_add_left (length_shown_flatten_le _) _)
    · rw [straddles_append_iff hd (by simp)] at h
      rw [shown_append hd, List.length_append]
      exact Nat.add_lt_add_left (ih h) _

end Sequences

end PiIpython
