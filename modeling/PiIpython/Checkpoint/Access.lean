import PiIpython.Checkpoint.Sessions

/-!
# Reading files of the store

What `_read` returns: the content of a private regular file within the limit,
or an exception that tells whether there was no file at all. Nothing changes.
-/

namespace PiIpython.Checkpoint

open Text Prog

variable {V α : Type} {strikes kills : Store → Op V → Prop}

/-- The file that `_read` accepts. -/
def Store.readable (s : Store) (d : Dir) (name : PyStr) (limit : Nat) : Option File :=
  match s.node? d name with
  | some (.file f) => if f.owned ∧ f.data.length ≤ limit then some f else none
  | _ => none

theorem Store.readable_eq_some {s : Store} {d : Dir} {name : PyStr} {limit : Nat} {f : File} :
    s.readable d name limit = some f ↔
      s.node? d name = some (.file f) ∧ f.owned ∧ f.data.length ≤ limit := by
  unfold Store.readable
  split
  · next g hg =>
    rw [hg]
    constructor
    · intro h
      split at h
      · next hc => cases h; exact ⟨rfl, hc⟩
      · cases h
    · rintro ⟨h, hc⟩
      cases h
      exact if_pos hc
  · next hn =>
    constructor
    · intro h; cases h
    · rintro ⟨h, -⟩
      exact absurd h (hn f)

/-- Exceptions of a read that found nothing to accept. -/
structure Refused (s : Store) (d : Dir) (name : PyStr) (e : Exc) : Prop where
  notInterrupt : e.kind ≠ .interrupt
  osOrValue : e.isOsOrValue = true
  notFound : e.kind = .fileNotFound ↔ s.node? d name = none

theorem openFile_read (s : Store) (now : ℚ) (d : Dir) (name : PyStr) :
    (s.openFile now d name .read).2 = s ∧
      ((∃ f, s.node? d name = some (.file f) ∧ f.owned ∧
          (s.openFile now d name .read).1 = .ok ⟨d, name, .read⟩) ∨
        (∀ f, s.node? d name = some (.file f) → ¬ f.owned) ∧
          ∃ e, (s.openFile now d name .read).1 = .error e ∧ Refused s d name e) := by
  unfold Store.openFile
  cases hn : s.node? d name with
  | none => exact ⟨rfl, .inr ⟨nofun, _, rfl, nofun, rfl, by simp [hn, Exc.fileNotFound]⟩⟩
  | some n =>
    have hr : ∀ e : Exc, e.kind = .value ∨ e.kind = .os → Refused s d name e := by
      intro e he
      refine ⟨?_, ?_, ?_⟩
      · rcases he with he | he <;> rw [he] <;> decide
      · rcases he with he | he <;> simp [Exc.isOsOrValue, he]
      · rw [hn]
        rcases he with he | he <;> simp [he]
    cases n with
    | file f =>
      by_cases ho : f.owned
      · refine ⟨rfl, .inl ⟨f, rfl, ho, ?_⟩⟩
        dsimp only
        rw [if_pos ho]
      · refine ⟨rfl, .inr ⟨?_, unsafePath name, ?_, hr _ (.inl rfl)⟩⟩
        · rintro g hg
          cases hg
          exact ho
        · dsimp only
          rw [if_neg ho]
    | link => exact ⟨rfl, .inr ⟨nofun, _, rfl, hr _ (.inr rfl)⟩⟩
    | directory => exact ⟨rfl, .inr ⟨nofun, _, rfl, hr _ (.inl rfl)⟩⟩
    | special => exact ⟨rfl, .inr ⟨nofun, _, rfl, hr _ (.inl rfl)⟩⟩

/-- The operation is no unpickling. -/
def Op.isLoads : Op V → Bool
  | .loads _ => true
  | _ => false

/-- The operation is one of those that `_read` makes. -/
def Op.reading : Op V → Bool
  | .openFile _ _ mode => mode = .read
  | .fstat _ => true
  | .read _ _ => true
  | .close _ => true
  | _ => false

theorem Op.reading_use {o : Op V} (h : o.reading = true) : use o = .free ∨ use o = .locked := by
  cases o <;> first | exact .inr rfl | cases h

theorem Op.reading_unobserved {o : Op V} (h : o.reading = true) : o.unobserved = true := by
  cases o <;> first | rfl | cases h

theorem allOps_readFile {P : Op V → Prop} {d : Dir} {name : PyStr}
    (hopen : P (.openFile d name .read)) (hfstat : ∀ fd, P (.fstat fd))
    (hread : ∀ fd n, P (.read fd n)) (hclose : ∀ fd, P (.close fd)) (limit : Nat) :
    (readFile d name limit : Py V (Bytes × Info)).AllOps P := by
  refine allOps_bind (allOps_perform hopen) fun fd => allOps_bind ?_ fun x => ?_
  · refine allOps_ensure (allOps_bind (allOps_perform (hfstat _)) fun info => ?_)
      (allOps_perform (hclose _))
    split
    · exact allOps_raise _
    · exact allOps_bind (allOps_perform (hread _ _)) fun data => allOps_pure _
  · dsimp only
    split
    · exact allOps_raise _
    · exact allOps_pure _

theorem safe_suppress {W : Type} {pre : Op V → W → Prop}
    {step : W → (o : Op V) → Except Exc (Ans o) → W → Prop} {f : Exc → Bool} {body : Py V Unit}
    {Q : Except Exc Unit → W → Prop} {w : W} :
    (suppress f body).Safe pre step Q w ↔ body.Safe pre step (fun
      | .ok _, w => Q (.ok ()) w
      | .error e, w => if f e then Q (.ok ()) w else Q (.error e) w) w := by
  unfold suppress
  rw [safe_attempt]
  have hif : ∀ e w, ((if f e then pure () else .raise e : Py V Unit).Safe pre step Q w) ↔
      if f e then Q (.ok ()) w else Q (.error e) w := by
    intro e w
    split
    · exact Iff.rfl
    · exact Iff.rfl
  refine ⟨fun h => h.mono ?_, fun h => h.mono ?_⟩
  · rintro (e | _) w h
    · exact (hif e w).mp h
    · exact h
  · rintro (e | _) w h
    · exact (hif e w).mpr h
    · exact h

section Safe

variable {pre : Op V → Store → Prop} {s : Store}

/-- An operation that changes nothing. -/
theorem safe_constant {o : Op V} {k : Except Exc (Ans o) → Py V α} {Q : Except Exc α → Store → Prop}
    (hpre : pre o s) (hs : ∀ h r s', s.perform h o = some (r, s') → s' = s)
    (hk : ∀ h r, s.perform h o = some (r, s) → (k r).Safe pre (Store.Step strikes) Q s)
    (hi : strikes s o → (k (.error .keyboardInterrupt)).Safe pre (Store.Step strikes) Q s) :
    (Prog.op o k).Safe pre (Store.Step strikes) Q s := by
  refine ⟨hpre, ?_⟩
  rintro r s' (⟨h, hx⟩ | ⟨rfl, ⟨ha, rfl⟩ | ⟨ha, h, r₀, hx⟩⟩)
  · obtain rfl := hs h r s' hx
    exact hk h r hx
  · exact hi ha
  · obtain rfl := hs h r₀ s' hx
    exact hi ha

/-- A file is closed when the body ends, and the exception of a signal there wins. -/
theorem safe_closing {fd : Fd} {body : Py V α} {Q : Except Exc α → Store → Prop}
    (h : body.Safe pre (Store.Step strikes) (fun r w => pre (.close fd) w ∧ Q r w ∧
      (strikes w (.close fd) → Q (.error .keyboardInterrupt) w)) s) :
    (closing fd body).Safe pre (Store.Step strikes) Q s := by
  unfold closing
  refine safe_ensure.mpr (h.mono ?_)
  rintro r w ⟨hp, hq, hi⟩
  refine safe_constant hp ?_ ?_ hi
  · rintro h r s' hx
    cases hx
    rfl
  · rintro h r hx
    cases hx
    exact hq

/-- **What a read returns.** -/
theorem safe_readFile {d : Dir} {name : PyStr} {limit : Nat}
    {Q : Except Exc (Bytes × Info) → Store → Prop} (hpre : ∀ o, pre o s)
    (hok : ∀ f, s.readable d name limit = some f →
      Q (.ok (f.data, ⟨f.data.length, f.mtime⟩)) s)
    (hno : ∀ e, s.readable d name limit = none → Refused s d name e → Q (.error e) s)
    (hint : (∃ o : Op V, o.isLoads = false ∧ strikes s o) → Q (.error .keyboardInterrupt) s) :
    (readFile d name limit).Safe pre (Store.Step strikes) Q s := by
  have hi : ∀ {o : Op V}, o.isLoads = false → strikes s o → Q (.error .keyboardInterrupt) s :=
    fun ho hs => hint ⟨_, ho, hs⟩
  unfold readFile
  rw [safe_bind]
  refine safe_constant (hpre _) ?_ ?_ (hi rfl)
  · rintro h r s' hx
    obtain ⟨rfl, rfl⟩ := Prod.mk.inj (Option.some.inj hx)
    exact (openFile_read s h.now d name).1
  rintro h r hx
  have hr : (s.openFile h.now d name .read).1 = r := (Prod.mk.inj (Option.some.inj hx)).1
  rcases (openFile_read s h.now d name).2 with ⟨f, hf, ho, hfd⟩ | ⟨hno', e, he, hR⟩
  · rw [← hr, hfd]
    have hfile : s.file? ⟨d, name, .read⟩ = some f := by
      rw [Store.file?]
      dsimp only
      rw [hf]
    refine safe_bind.mpr (safe_closing (safe_bind.mpr (safe_constant (hpre _) ?_ ?_ ?_)))
    · rintro h r s' hx
      cases hx
      rfl
    · rintro h r hx
      cases hx
      rw [hfile]
      by_cases hl : limit < f.data.length
      · -- refused by its size: the exception is a `ValueError`
        have hnone : s.readable d name limit = none := by
          rw [Option.eq_none_iff_forall_not_mem]
          intro g hg
          obtain ⟨h1, -, h2⟩ := Store.readable_eq_some.mp hg
          rw [hf] at h1
          cases h1
          omega
        have hR : Refused s d name (exceeds limit) :=
          ⟨nofun, rfl, ⟨nofun, fun h => by rw [hf] at h; cases h⟩⟩
        change Prog.Safe pre _ (if limit < f.data.length then raise (exceeds limit) else _) _ s
        rw [if_pos hl]
        exact ⟨hpre _, hno _ hnone hR, hi rfl⟩
      · have hsome : s.readable d name limit = some f :=
          Store.readable_eq_some.mpr ⟨hf, ho, Nat.le_of_not_lt hl⟩
        change Prog.Safe pre _ (if limit < f.data.length then raise (exceeds limit) else _) _ s
        rw [if_neg hl]
        refine safe_bind.mpr (safe_constant (hpre _) ?_ ?_ ?_)
        · rintro h r s' hx
          cases hx
          rfl
        · rintro h r hx
          cases hx
          rw [hfile]
          have ht : f.data.take (limit + 1) = f.data := List.take_of_length_le (by omega)
          refine ⟨hpre _, ?_, hi rfl⟩
          change Prog.Safe pre _ (if limit < (f.data.take (limit + 1)).length then
            raise (exceeds limit) else pure (f.data.take (limit + 1), _)) Q s
          rw [ht, if_neg hl]
          exact hok f hsome
        · exact fun hs => ⟨hpre _, hi rfl hs, hi rfl⟩
    · exact fun hs => ⟨hpre _, hi rfl hs, hi rfl⟩
  · rw [← hr, he]
    refine hno e ?_ hR
    rw [Option.eq_none_iff_forall_not_mem]
    intro f hf
    obtain ⟨h1, h2, -⟩ := Store.readable_eq_some.mp hf
    exact hno' f h1 h2

end Safe

end PiIpython.Checkpoint
