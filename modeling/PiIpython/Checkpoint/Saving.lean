import PiIpython.Checkpoint.Collect

/-!
# Writing a checkpoint

What `_atomic_write` and `save` leave in the store, and what they can leave if
the kernel dies: a file has all of its content under its own name or none, next
to temporary files, and the blobs that a manifest names are there before it.
-/

namespace PiIpython.Checkpoint

open Text Prog
open Bridge (PyValue)

variable {V α : Type}

/-! ## Names of temporary files -/

theorem fullmatch_cons {p : CodePoint → Bool} {ps : Pattern} {c : CodePoint} {cs : PyStr}
    (h : fullmatch (p :: ps) (c :: cs) = true) : p c = true := by
  unfold fullmatch at h
  simp only [Bool.and_eq_true, List.zip_cons_cons, List.all_cons] at h
  exact h.2.1

theorem temporaryName_head (hex : Hex) : ∃ cs, temporaryName hex = chr '.' :: cs :=
  ⟨py "tmp-" ++ hex.val, by
    rw [temporaryName, show py ".tmp-" = chr '.' :: py "tmp-" by decide +kernel]
    rfl⟩

theorem not_isHex_dot : isHex (chr '.') = false := by decide +kernel

theorem IsTemporary.ne_digest {name : PyStr} (h : IsTemporary name) (d : Digest) :
    name ≠ d.val := by
  obtain ⟨hex, rfl⟩ := h
  obtain ⟨cs, hcs⟩ := temporaryName_head hex
  intro he
  have hd : fullmatch (List.replicate 64 isHex) d.val = true := d.2
  rw [← he, hcs] at hd
  have := fullmatch_cons (p := isHex) hd
  rw [not_isHex_dot] at this
  cases this

theorem IsTemporary.ne_manifestName {name : PyStr} (h : IsTemporary name) (id : Uuid) :
    name ≠ manifestName id := by
  obtain ⟨hex, rfl⟩ := h
  obtain ⟨cs, hcs⟩ := temporaryName_head hex
  intro he
  have hd : fullmatch uuidPattern id.val = true := id.2
  have hhead : ∃ cs', id.val = chr '.' :: cs' := by
    rw [hcs] at he
    cases hv : id.val with
    | nil =>
      rw [hv] at hd
      cases hd
    | cons c cs' =>
      rw [manifestName, hv] at he
      exact ⟨cs', by rw [(List.cons.inj he).1]⟩
  obtain ⟨cs', hcs'⟩ := hhead
  rw [hcs'] at hd
  have := fullmatch_cons (p := isHex) hd
  rw [not_isHex_dot] at this
  cases this

/-! ## Atomic writes -/

/-- The file that a write of `data` leaves. -/
def Holds (n : Option Node) (data : Bytes) : Prop := ∃ t, n = some (.file ⟨data, t, true⟩)

/-- The store `s'` on the way of a write that began with `s`. -/
def Writing (d : Dir) (name : PyStr) (data : Bytes) (s s' : Store) : Prop :=
  ∀ d' name', s'.node? d' name' = s.node? d' name' ∨
    d' = d ∧ (IsTemporary name' ∨ name' = name ∧ Holds (s'.node? d' name') data)

/-- The store `s'` after a write that ended with `r`. -/
structure Wrote (d : Dir) (name : PyStr) (data : Bytes) (s : Store) (r : Except Exc Unit)
    (s' : Store) : Prop where
  writing : Writing d name data s s'
  fewer : ∀ name', IsTemporary name' → s'.node? d name' = s.node? d name' ∨ s'.node? d name' = none
  holds : r = .ok () → Holds (s'.node? d name) data

section Write

variable {c : Disk V} {d : Dir} {name : PyStr} {data : Bytes} {s : Store}

theorem Writing.refl : Writing d name data s s := fun _ _ => .inl rfl

/-- While only the temporary file differs. -/
theorem writing_of_temporary {hex : Hex} {s' : Store}
    (h : ∀ d' name', ¬ (d' = d ∧ name' = temporaryName hex) →
      s'.node? d' name' = s.node? d' name') : Writing d name data s s' := by
  intro d' name'
  by_cases hc : d' = d ∧ name' = temporaryName hex
  · exact .inr ⟨hc.1, .inl ⟨hex, hc.2⟩⟩
  · exact .inl (h d' name' hc)

/-- Before the temporary file is unlinked. -/
structure Written (d : Dir) (name : PyStr) (data : Bytes) (hex : Hex) (s : Store)
    (r : Except Exc Unit) (s' : Store) : Prop where
  other : ∀ d' name', ¬ (d' = d ∧ (name' = temporaryName hex ∨ name' = name)) →
    s'.node? d' name' = s.node? d' name'
  file : s'.node? d name = s.node? d name ∨ Holds (s'.node? d name) data
  temporary : s'.node? d (temporaryName hex) = s.node? d (temporaryName hex) ∨
    s'.node? d (temporaryName hex) ≠ some .directory
  holds : r = .ok () → Holds (s'.node? d name) data

theorem Written.writing {hex : Hex} {r : Except Exc Unit} {s' : Store}
    (h : Written d name data hex s r s') : Writing d name data s s' := by
  intro d' name'
  by_cases hc : d' = d ∧ (name' = temporaryName hex ∨ name' = name)
  · obtain ⟨rfl, rfl | rfl⟩ := hc
    · exact .inr ⟨rfl, .inl ⟨hex, rfl⟩⟩
    · rcases h.file with hf | hf
      · exact .inl hf
      · exact .inr ⟨rfl, .inr ⟨rfl, hf⟩⟩
  · exact .inl (h.other d' name' hc)

/-- The exception of the `finally`, if any, wins. -/
theorem Written.unlinked {hex : Hex} {r r' : Except Exc Unit} {s' : Store}
    (h : Written d name data hex s r s') (hr : r' = .ok () → r = .ok ()) (hname : ¬ IsTemporary name) :
    Wrote d name data s r' (s'.unlink d (temporaryName hex)).2 := by
  have hne : name ≠ temporaryName hex := fun he => hname ⟨hex, he⟩
  -- what is left under the temporary name, and that nothing else changes
  have hleft : (s'.unlink d (temporaryName hex)).2.node? d (temporaryName hex) = none ∨
      (s'.unlink d (temporaryName hex)).2.node? d (temporaryName hex) =
        s.node? d (temporaryName hex) := by
    unfold Store.unlink
    split
    · next hn => exact .inl hn
    · next hn =>
      refine .inr (h.temporary.resolve_right ?_)
      exact fun hd => hd hn
    · left
      dsimp only
      rw [Store.node?_remove, if_pos ⟨rfl, rfl⟩]
  have hsame : ∀ d' name', ¬ (d' = d ∧ name' = temporaryName hex) →
      (s'.unlink d (temporaryName hex)).2.node? d' name' = s'.node? d' name' := by
    intro d' name' hc
    unfold Store.unlink
    split
    · rfl
    · rfl
    · dsimp only
      rw [Store.node?_remove, if_neg hc]
  have hfile := hsame d name fun hc => hne hc.2
  refine ⟨?_, ?_, ?_⟩
  · intro d' name'
    by_cases hc : d' = d ∧ name' = temporaryName hex
    · exact .inr ⟨hc.1, .inl ⟨hex, hc.2⟩⟩
    · rw [hsame d' name' hc]
      exact h.writing d' name'
  · intro name' ht
    by_cases hc : name' = temporaryName hex
    · subst hc
      exact hleft.symm
    · left
      rw [hsame d name' fun h => hc h.2]
      refine h.other d name' ?_
      rintro ⟨-, he | he⟩
      · exact hc he
      · exact hname (he ▸ ht)
  · intro he
    rw [hfile]
    exact h.holds (hr he)

/-- The temporary file has the content `x`, and nothing else has changed. -/
def Temporary (d : Dir) (hex : Hex) (x : Bytes) (s s' : Store) : Prop :=
  Holds (s'.node? d (temporaryName hex)) x ∧ ∀ d' name', ¬ (d' = d ∧ name' = temporaryName hex) →
    s'.node? d' name' = s.node? d' name'

theorem Temporary.written {hex : Hex} {x : Bytes} {s' : Store} (h : Temporary d hex x s s')
    (hname : ¬ IsTemporary name) (e : Exc) : Written d name data hex s (.error e) s' where
  other d' name' hc := h.2 d' name' fun hc' => hc ⟨hc'.1, .inl hc'.2⟩
  file := .inl (h.2 d name fun hc => hname ⟨hex, hc.2⟩)
  temporary := by
    obtain ⟨t, ht⟩ := h.1
    rw [ht]
    exact .inr nofun
  holds := nofun

theorem Temporary.writing {hex : Hex} {x : Bytes} {s' : Store} (h : Temporary d hex x s s') :
    Writing d name data s s' := writing_of_temporary h.2

theorem Temporary.write {hex : Hex} {s' : Store} (h : Temporary d hex [] s s') (now : ℚ) :
    Temporary d hex data s (s'.write now ⟨d, temporaryName hex, .create⟩ data) := by
  obtain ⟨t, ht⟩ := h.1
  have hfile : s'.file? ⟨d, temporaryName hex, .create⟩ = some ⟨[], t, true⟩ := by
    rw [Store.file?]
    dsimp only
    rw [ht]
  rw [Store.write, hfile]
  refine ⟨⟨now, by rw [Store.node?_put, if_pos ⟨rfl, rfl⟩]; rfl⟩, fun d' name' hc => ?_⟩
  rw [Store.node?_put, if_neg hc]
  exact h.2 d' name' hc

/-- The temporary file takes the name. -/
theorem Temporary.replace {hex : Hex} {s' : Store} (h : Temporary d hex data s s')
    (hname : ¬ IsTemporary name) :
    Written d name data hex s (s'.replace d (temporaryName hex) name).1
      (s'.replace d (temporaryName hex) name).2 := by
  have hne : name ≠ temporaryName hex := fun he => hname ⟨hex, he⟩
  obtain ⟨t, ht⟩ := h.1
  unfold Store.replace
  rw [ht]
  split
  · next hn => cases hn
  · exact h.written hname _
  · next _ hn _ =>
    cases hn
    have hnode : ∀ d' name', ((s'.remove d (temporaryName hex)).put d name
        (.file ⟨data, t, true⟩)).node? d' name' = if d' = d ∧ name' = name then
          some (.file ⟨data, t, true⟩) else if d' = d ∧ name' = temporaryName hex then none
            else s'.node? d' name' := by
      intro d' name'
      rw [Store.node?_put, Store.node?_remove]
    have hname' : Holds (((s'.remove d (temporaryName hex)).put d name
        (.file ⟨data, t, true⟩)).node? d name) data := ⟨t, by rw [hnode, if_pos ⟨rfl, rfl⟩]⟩
    refine ⟨fun d' name' hc => ?_, .inr hname', .inr ?_, fun _ => hname'⟩
    · rw [hnode, if_neg fun hc' => hc ⟨hc'.1, .inr hc'.2⟩,
        if_neg fun hc' => hc ⟨hc'.1, .inl hc'.2⟩]
      exact h.2 d' name' fun hc' => hc ⟨hc'.1, .inl hc'.2⟩
    · rw [hnode, if_neg fun hc => hne hc.2.symm, if_pos ⟨rfl, rfl⟩]
      exact nofun

/-- An operation that succeeds and changes nothing. -/
theorem Disk.Step.unchanged {o : Op V} {r : Except Exc (Ans o)} {s' : Store} (h : c.Step s o r s')
    (ho : ∀ id, ¬ o.Opens id) {a : Ans o} (ha : ∀ h, s.perform h o = some (.ok a, s)) :
    r = .ok a ∧ s' = s := by
  obtain ⟨x, -, hx⟩ := h.done ho
  rw [ha x] at hx
  cases hx
  exact ⟨rfl, rfl⟩

/-- **An atomic write** leaves the file with all of its content, or as it was. -/
theorem safe_atomicWrite (hname : ¬ IsTemporary name) :
    (atomicWrite d name data : Py V Unit).Safe (fun _ s' => Writing d name data s s') c.Step
      (fun r s' => Wrote d name data s r s') s := by
  refine safe_bind.mpr ⟨.refl, ?_⟩
  rintro r s₁ hs
  obtain ⟨h, -, hx⟩ := hs.done fun _ h => h
  change some (h.answer .uuid4, s) = _ at hx
  obtain ⟨rfl, rfl⟩ := Prod.mk.inj (Option.some.inj hx)
  rcases h.answer .uuid4 with e | hex
  · exact ⟨.refl, fun _ _ => .inl rfl, nofun⟩
  -- the `finally`
  have hfinally : ∀ r s', Written d name data hex s r s' →
      (suppress (·.kind = .fileNotFound) (unlink d (temporaryName hex) .temporary) : Py V Unit).Safe
        (fun _ s' => Writing d name data s s') c.Step (fun
          | .ok _, s' => Wrote d name data s r s'
          | .error e, s' => Wrote d name data s (.error e) s') s' := by
    intro r s' hw
    refine safe_suppress.mpr ⟨hw.writing, ?_⟩
    rintro r' s'' hs
    obtain ⟨h, -, hx⟩ := hs.done fun _ h => h
    obtain ⟨-, rfl⟩ := Prod.ext_iff.mp (Option.some.inj hx)
    rcases r' with e | _
    · refine safe_done.mpr ?_
      dsimp only
      split
      · exact hw.unlinked (fun h => h) hname
      · exact hw.unlinked (fun h => by cases h) hname
    · exact hw.unlinked (fun h => h) hname
  refine safe_ensure.mpr (Safe.mono (Q := fun r s' => Written d name data hex s r s') ?_ ?_)
  rotate_left
  · intro r s' hw
    refine (hfinally r s' hw).mono ?_
    rintro (e | _) w h
    · exact h
    · exact h
  have hsame : ∀ e, Written d name data hex s (.error e) s := fun e =>
    ⟨fun _ _ _ => rfl, .inl rfl, .inl rfl, nofun⟩
  -- the temporary file is opened
  refine safe_bind.mpr ⟨.refl, ?_⟩
  rintro r s₁ hs
  obtain ⟨h, -, hx⟩ := hs.done fun _ h => nomatch h.2.2
  obtain ⟨rfl, rfl⟩ := Prod.ext_iff.mp (Option.some.inj hx)
  cases hT : s.node? d (temporaryName hex) with
  | some n =>
    have ho : s.openFile h.now d (temporaryName hex) .create =
        (.error (.osError (py "[Errno 17] File exists")), s) := by
      unfold Store.openFile
      rw [hT]
    rw [ho]
    exact hsame _
  | none =>
  have ho : s.openFile h.now d (temporaryName hex) .create =
      (.ok ⟨d, temporaryName hex, .create⟩,
        s.put d (temporaryName hex) (.file ⟨[], h.now, true⟩)) := by
    unfold Store.openFile
    rw [hT]
  rw [ho]
  have h₁ : Temporary d hex [] s (s.put d (temporaryName hex) (.file ⟨[], h.now, true⟩)) := by
    refine ⟨⟨h.now, by rw [Store.node?_put, if_pos ⟨rfl, rfl⟩]⟩, fun d' name' hc => ?_⟩
    rw [Store.node?_put, if_neg hc]
  generalize s.put d (temporaryName hex) (.file ⟨[], h.now, true⟩) = s₁ at h₁
  -- it is written
  refine safe_bind.mpr (safe_ensure.mpr (safe_bind.mpr ⟨h₁.writing, ?_⟩))
  rintro r s₂ hs
  obtain ⟨h, -, hx⟩ := hs.done fun _ h => h
  obtain ⟨rfl, rfl⟩ := Prod.ext_iff.mp (Option.some.inj hx)
  have h₂ : Temporary d hex data s (s₁.write h.now ⟨d, temporaryName hex, .create⟩ data) :=
    h₁.write h.now
  generalize s₁.write h.now ⟨d, temporaryName hex, .create⟩ data = s₂ at h₂
  refine ⟨h₂.writing, ?_⟩
  rintro r s₃ hs
  obtain ⟨rfl, rfl⟩ := hs.unchanged (a := ()) (fun _ h => h) fun _ => rfl
  refine ⟨h₂.writing, ?_⟩
  rintro r s₄ hs
  obtain ⟨rfl, rfl⟩ := hs.unchanged (a := ()) (fun _ h => h) fun _ => rfl
  -- it takes the name
  refine safe_bind.mpr ⟨h₂.writing, ?_⟩
  rintro r s₅ hs
  obtain ⟨h, -, hx⟩ := hs.done fun _ h => h
  obtain ⟨rfl, rfl⟩ := Prod.ext_iff.mp (Option.some.inj hx)
  have h₃ := h₂.replace hname
  generalize s₄.replace d (temporaryName hex) name = x at h₃
  obtain ⟨e | _, s₅⟩ := x
  · exact h₃
  refine ⟨h₃.writing, ?_⟩
  rintro r s₆ hs
  obtain ⟨rfl, rfl⟩ := hs.unchanged (a := ()) (fun _ h => h) fun _ => rfl
  exact h₃

end Write

/-! ## Blobs -/

/-- The store `s'` has more blobs than `s`, each with the content that its name is the digest of. -/
structure Growing (python : Python V) (s s' : Store) : Prop where
  other : ∀ d name, d ≠ .blobs → s'.node? d name = s.node? d name
  blob : ∀ name, s'.node? .blobs name = s.node? .blobs name ∨ IsTemporary name ∨
    ∃ d : Digest, name = d.val ∧ s.node? .blobs name = none ∧
      ∃ data, Holds (s'.node? .blobs name) data ∧ python.sha256 data = d

/-- No temporary file is new. -/
def Fewer (d : Dir) (s s' : Store) : Prop :=
  ∀ name, IsTemporary name → s'.node? d name = s.node? d name ∨ s'.node? d name = none

theorem Fewer.trans {d : Dir} {s s' s'' : Store} (h : Fewer d s s') (h' : Fewer d s' s'') :
    Fewer d s s'' := by
  intro name hn
  rcases h' name hn with h₁ | h₁
  · rw [h₁]
    exact h name hn
  · exact .inr h₁

theorem Growing.refl (python : Python V) (s : Store) : Growing python s s :=
  ⟨fun _ _ _ => rfl, fun _ => .inl rfl⟩

theorem Growing.trans {python : Python V} {s s' s'' : Store} (h : Growing python s s')
    (h' : Growing python s' s'') : Growing python s s'' := by
  refine ⟨fun d name hd => (h'.other d name hd).trans (h.other d name hd), fun name => ?_⟩
  rcases h'.blob name with h₁ | h₁ | ⟨d, rfl, hnone, data, hdata, hsha⟩
  · rw [h₁]
    exact h.blob name
  · exact .inr (.inl h₁)
  · refine .inr (.inr ⟨d, rfl, ?_, data, hdata, hsha⟩)
    rcases h.blob d.val with h₁ | h₁ | ⟨d', -, h₁, -⟩
    · rw [← h₁, hnone]
    · exact absurd rfl (h₁.ne_digest d)
    · exact h₁

/-- A blob that is written where there was none. -/
theorem Writing.growing {python : Python V} {d : Digest} {data : Bytes} {s s' : Store}
    (h : Writing .blobs d.val data s s') (hd : python.sha256 data = d)
    (hs : s.node? .blobs d.val = none) : Growing python s s' := by
  refine ⟨fun d' name hd' => ?_, fun name => ?_⟩
  · rcases h d' name with h | ⟨rfl, -⟩
    · exact h
    · exact absurd rfl hd'
  · rcases h .blobs name with h | ⟨-, h | ⟨rfl, h⟩⟩
    · exact .inl h
    · exact .inr (.inl h)
    · exact .inr (.inr ⟨d, rfl, hs, data, h, hd⟩)

/-- The blob of `d` is there. -/
def Store.HasBlob (s : Store) (d : Digest) : Prop :=
  ∃ f, s.node? .blobs d.val = some (.file f) ∧ f.owned = true

theorem Growing.hasBlob {python : Python V} {s s' : Store} (h : Growing python s s') {d : Digest}
    (hd : s.HasBlob d) : s'.HasBlob d := by
  obtain ⟨f, hf, ho⟩ := hd
  rcases h.blob d.val with h | h | ⟨d', -, h, -⟩
  · exact ⟨f, h.trans hf, ho⟩
  · exact absurd rfl (h.ne_digest d)
  · rw [hf] at h
    cases h

section Blob

variable {python : Python V} {c : Disk V} {s : Store}

/-- **A blob is there** when the code goes on. -/
theorem safe_keepBlob {d : Digest} {data : Bytes} (hd : python.sha256 data = d) :
    (keepBlob d data : Py V Unit).Safe (fun _ s' => Growing python s s') c.Step
      (fun r s' => Growing python s s' ∧ Fewer .blobs s s' ∧ (r = .ok () → s'.HasBlob d)) s := by
  have hname : ¬ IsTemporary d.val := fun h => h.ne_digest d rfl
  have hrefl : ∀ {e : Exc}, Growing python s s ∧ Fewer .blobs s s ∧
      ((.error e : Except Exc Unit) = .ok () → s.HasBlob d) :=
    ⟨.refl python s, fun _ _ => .inl rfl, nofun⟩
  refine safe_attempt.mpr (safe_bind.mpr ⟨.refl python s, ?_⟩)
  rintro r s₁ hs
  obtain ⟨h, -, hx⟩ := hs.done fun id h => by cases h.1
  obtain ⟨rfl, rfl⟩ := Prod.ext_iff.mp (Option.some.inj hx)
  obtain ⟨hsame, hopen⟩ := openFile_read s h.now .blobs d.val
  rw [hsame]
  rcases hopen with ⟨f, hf, ho, hok⟩ | ⟨-, e, he, hR⟩
  · rw [hok]
    refine ⟨.refl python s, ?_⟩
    rintro r s₂ hs
    obtain ⟨rfl, rfl⟩ := hs.unchanged (a := ()) (fun _ h => h) fun _ => rfl
    exact ⟨.refl python _, fun _ _ => .inl rfl, fun _ => ⟨f, hf, ho⟩⟩
  · rw [he]
    change Prog.Safe _ _ (if e.kind = .fileNotFound then _ else _) _ s
    split
    · next hk =>
      have hnone := hR.notFound.mp hk
      refine ((safe_atomicWrite hname).weaken fun _ s' h => h.growing hd hnone).mono ?_
      rintro r s' hw
      refine ⟨hw.writing.growing hd hnone, hw.fewer, fun hr => ?_⟩
      obtain ⟨t, ht⟩ := hw.holds hr
      exact ⟨_, ht, rfl⟩
    · exact hrefl

end Blob

/-! ## The values -/

/-- The store `s'` when the loop of `save` has made `acc`: the blobs of `acc` are there. -/
structure Grown (python : Python V) (acc : Saving) (s s' : Store) : Prop where
  growing : Growing python s s'
  fewer : Fewer .blobs s s'
  blobs : ∀ name d bytes, .value name d bytes ∈ acc.saved → s'.HasBlob d

/-- The same, for what was saved so far. -/
theorem Grown.of_saved {python : Python V} {acc acc' : Saving} {s s' : Store}
    (h : Grown python acc s s') (ha : acc'.saved = acc.saved) : Grown python acc' s s' :=
  ⟨h.growing, h.fewer, by rw [ha]; exact h.blobs⟩

theorem allOps_estimate (value : V) :
    (estimate value).AllOps fun o => o.kernel = true :=
  allOps_bind (allOps_perform rfl) fun _ => allOps_bind (allOps_perform rfl) fun _ =>
    allOps_bind (allOps_perform rfl) fun _ => trivial

section Save

variable {python : Python V} {c : Disk V} {s₀ s : Store}

/-- A program on the kernel, on the way of a save. -/
theorem safe_kernel_then {β : Type} {p : Py V β} {f : β → Py V α} {pre : Op V → Store → Prop}
    {Q : Except Exc α → Store → Prop} (hp : p.AllOps fun o => o.kernel = true)
    (hpre : ∀ o, pre o s) (hf : ∀ b, (f b).Safe pre c.Step Q s) (he : ∀ e, Q (.error e) s) :
    (p >>= f).Safe pre c.Step Q s := by
  refine safe_bind.mpr ((safe_kernel hp hpre).mono ?_)
  rintro (e | b) s' rfl
  · exact he e
  · exact hf b

/-- What a round of the loop leaves: the blobs of what it has saved. -/
def Kept (python : Python V) (acc : Saving) (s₀ : Store) (r : Except Exc Saving) (s : Store) :
    Prop :=
  match r with
  | .ok acc => Grown python acc s₀ s
  | .error _ => Grown python acc s₀ s

theorem safe_saveValue {acc : Saving} (h : Grown python acc s₀ s) (name : PyStr) (value : V) :
    (saveValue python acc name value).Safe (fun _ s => Growing python s₀ s) c.Step
      (Kept python acc s₀) s := by
  have hpre : ∀ _ : Op V, Growing python s₀ s := fun _ => h.growing
  unfold saveValue
  split
  · refine safe_kernel_then (allOps_perform rfl) hpre (fun m => ?_) fun _ => h
    refine ⟨h.growing, h.fewer, fun n d b hm => h.blobs n d b ?_⟩
    simpa using hm
  refine safe_kernel_then (allOps_estimate value) hpre (fun size => ?_) fun _ => h
  split
  · exact h
  refine safe_kernel_then (allOps_perform rfl) hpre (fun x => ?_) fun _ => h
  refine safe_kernel_then trivial hpre (fun data => ?_) fun _ => h
  split
  · exact h
  -- the blob is there before the entry is made
  refine safe_bind.mpr ((safe_keepBlob (d := python.sha256 data) rfl).weaken
    (fun _ _ hg => h.growing.trans hg) |>.mono ?_)
  rintro (e | _) s' ⟨hg, hf, hd⟩
  · exact ⟨h.growing.trans hg, h.fewer.trans hf, fun n d b hm => hg.hasBlob (h.blobs n d b hm)⟩
  · refine ⟨h.growing.trans hg, h.fewer.trans hf, fun n d b hm => ?_⟩
    rcases List.mem_append.mp hm with hm | hm
    · exact hg.hasBlob (h.blobs n d b hm)
    · cases List.mem_singleton.mp hm
      exact hd rfl

theorem safe_saveName {acc : Saving} (h : Grown python acc s₀ s) (item : PyStr × V) :
    (saveName python acc item).Safe (fun _ s => Growing python s₀ s) c.Step
      (Kept python acc s₀) s := by
  refine safe_kernel_then (allOps_perform rfl) (fun _ => h.growing) (fun g => ?_) fun _ => h
  split
  · exact h
  refine safe_attempt.mpr ((safe_saveValue h item.1 item.2).mono ?_)
  rintro (e | acc') s' h'
  · dsimp only
    split
    · exact Grown.of_saved h' rfl
    · exact h'
  · exact h'

/-- **The loop of `save`** leaves the blobs of what it has saved. -/
theorem safe_saveNames (items : List (PyStr × V)) :
    (items.foldlM (saveName python) ⟨[], .empty, 0⟩).Safe (fun _ s => Growing python s₀ s) c.Step
      (fun r s => ∃ acc, Grown python acc s₀ s ∧ ∀ acc', r = .ok acc' → acc' = acc) s₀ := by
  refine safe_foldlM (fun _ acc s => Grown python acc s₀ s) ?_ ?_ ?_
  · intro item rest acc s h
    refine (safe_saveName h item).mono ?_
    rintro (e | acc') s' h'
    · exact ⟨acc, h', nofun⟩
    · exact h'
  · exact fun acc s h => ⟨acc, h, fun acc' he => (Except.ok.inj he).symm⟩
  · exact ⟨.refl python s₀, fun _ _ => .inl rfl, nofun⟩

end Save

/-! ## A save -/

/-- The store when the manifest of `acc` is written. -/
structure Publishing (python : Python V) (id : Uuid) (s₀ s₁ : Store) (text : Bytes) : Prop where
  text : ∃ acc cell duration v, Grown python acc s₀ s₁ ∧ acc.manifest cell duration = .ok v ∧
    python.jsonDumps v = text

/-- A store on the way of a save that began with `s₀`. -/
inductive SaveState (python : Python V) (fails : Uuid → Bool) (id : Uuid) (s₀ s : Store) : Prop
  | blobs (h : Growing python s₀ s)
  | manifest (s₁ : Store) (text : Bytes) (h : Publishing python id s₀ s₁ text)
      (hw : Writing .manifests (manifestName id) text s₁ s)
  | collect (s₁ s₂ : Store) (text : Bytes) (h : Publishing python id s₀ s₁ text)
      (hw : Wrote .manifests (manifestName id) text s₁ (.ok ()) s₂)
      (hc : Collecting python fails id s₂ s)

/-- What a save that ended with `r` leaves. -/
inductive SaveEnd (python : Python V) (c : Disk V) (id : Uuid) (limit : Int) (maxAge : ℚ)
    (s₀ s : Store) : Except Exc Unit → Prop
  | blobs (e : Exc) (acc : Saving) (h : Grown python acc s₀ s) : SaveEnd _ _ _ _ _ _ _ (.error e)
  | manifest (e : Exc) (s₁ : Store) (text : Bytes) (h : Publishing python id s₀ s₁ text)
      (r : Except Exc Unit) (hw : Wrote .manifests (manifestName id) text s₁ r s) :
      SaveEnd _ _ _ _ _ _ _ (.error e)
  | collect (s₁ s₂ : Store) (text : Bytes) (h : Publishing python id s₀ s₁ text)
      (hw : Wrote .manifests (manifestName id) text s₁ (.ok ()) s₂) (names : List PyStr) (now : ℚ)
      (hnames : c.Lists s₂ .manifests names) (hnow : ∃ h, c.hint h ∧ h.answer .time = .ok now)
      (hc : Collected (byMtime (s₂.scan python c.fails names))
        (s₂.kept id limit maxAge now (byMtime (s₂.scan python c.fails names))) s₂ s) :
      SaveEnd _ _ _ _ _ _ _ (.ok ())

section Save

variable {python : Python V} {c : Disk V} {s₀ : Store}

/-- **A save**, of any namespace: the blobs are written, then the manifest that names them, and
then the store is collected. -/
theorem safe_saveLocked (id : Uuid) (began : ℚ) (limit : Int) (maxAge : ℚ) :
    (saveLocked python id began limit maxAge).Safe (fun _ s => SaveState python c.fails id s₀ s)
      c.Step (fun r s => SaveEnd python c id (max 0 limit) (max 0 maxAge) s₀ s r) s₀ := by
  have hempty : Grown python ⟨[], .empty, 0⟩ s₀ s₀ :=
    ⟨.refl python s₀, fun _ _ => .inl rfl, nofun⟩
  refine safe_kernel_then (allOps_perform rfl) (fun _ => .blobs (.refl python s₀)) (fun items => ?_)
    fun e => .blobs e _ hempty
  refine safe_bind.mpr (((safe_saveNames items).weaken fun _ s h => .blobs h).mono ?_)
  rintro (e | acc) s₁ ⟨acc', h, he⟩
  · exact .blobs e acc' h
  obtain rfl := he acc rfl
  have hpre : ∀ _ : Op V, SaveState python c.fails id s₀ s₁ := fun _ => .blobs h.growing
  refine safe_kernel_then (allOps_perform rfl) hpre (fun g => ?_) fun e => .blobs e _ h
  refine safe_kernel_then (allOps_perform rfl) hpre (fun ended => ?_) fun e => .blobs e _ h
  refine safe_bind.mpr (safe_done.mpr ?_)
  cases hv : acc.manifest (max 0 (g.executionCount - 1)) (ended - began) with
  | error e => exact .blobs e _ h
  | ok v =>
  have hp : Publishing python id s₀ s₁ (python.jsonDumps v) := ⟨acc, _, _, v, h, hv, rfl⟩
  refine safe_bind.mpr (((safe_atomicWrite fun ht => ht.ne_manifestName id rfl).weaken
    fun _ s hw => .manifest s₁ _ hp hw).mono ?_)
  rintro (e | _) s₂ hw
  · exact .manifest e s₁ _ hp _ hw
  refine ((safe_cleanup python c id _ _ s₂).weaken fun _ s hc => .collect s₁ s₂ _ hp hw hc).mono ?_
  rintro (e | _) s hc
  · obtain ⟨rfl, -⟩ := hc
    exact .manifest e s₁ _ hp _ hw
  · obtain ⟨names, now, hnames, hnow, hc⟩ := hc
    exact .collect s₁ s₂ _ hp hw names now hnames hnow hc

/-- A save without a store keeps the id alone. -/
def Disk.NoStore (c : Disk V) : Prop :=
  ∃ h g, c.hint h ∧ h.answer .globals = .ok g ∧ g.directory = false

/-- **A save**, with the lock or without a store. -/
theorem safe_save (checkpointId : PyValue) (limit : Int) (maxAge : ℚ) :
    (save python checkpointId limit maxAge).Safe (fun _ _ => True) c.Step (fun r s =>
      s = s₀ ∧ (r = .ok () → c.NoStore) ∨
        ∃ id, asUuid checkpointId = some id ∧
          SaveEnd python c id (max 0 limit) (max 0 maxAge) s₀ s r) s₀ := by
  have htrue : ∀ _ : Op V, True := fun _ => trivial
  unfold save
  split
  · exact .inl ⟨rfl, nofun⟩
  next id hid =>
  refine safe_kernel_then (allOps_perform rfl) htrue (fun _ => ?_) fun _ => .inl ⟨rfl, nofun⟩
  refine safe_bind.mpr ⟨trivial, ?_⟩
  rintro r s hs
  obtain ⟨rfl, h, hc, rfl⟩ := hs.kernel rfl
  cases hg : h.answer .globals with
  | error e => exact .inl ⟨rfl, nofun⟩
  | ok g =>
  refine safe_done.mpr ?_
  dsimp only
  split
  · next hd => exact .inl ⟨rfl, fun _ => ⟨h, g, hc, hg, by simpa using hd⟩⟩
  refine safe_kernel_then (allOps_perform rfl) htrue (fun began => ?_) fun _ => .inl ⟨rfl, nofun⟩
  refine safe_kernel_then (allOps_perform rfl) htrue (fun g => ?_) fun _ => .inl ⟨rfl, nofun⟩
  split
  · exact .inl ⟨rfl, nofun⟩
  refine safe_andThen.mpr (Safe.mono (Q := fun r s' => s' = s ∧ (r = .ok () → c.NoStore) ∨
    SaveEnd python c id (max 0 limit) (max 0 maxAge) s s' r) ?_ ?_)
  rotate_left
  · rintro r s h
    refine ⟨trivial, ?_⟩
    rintro r' s' hs
    obtain ⟨rfl, rfl⟩ := hs.unchanged (a := ()) (fun _ h => h) fun _ => rfl
    rcases h with h | h
    · exact .inl h
    · exact .inr ⟨id, hid, h⟩
  refine safe_kernel_then (allOps_perform rfl) htrue (fun _ => ?_) fun _ => .inl ⟨rfl, nofun⟩
  refine safe_kernel_then (allOps_perform rfl) htrue (fun _ => ?_) fun _ => .inl ⟨rfl, nofun⟩
  refine safe_bind.mpr ⟨trivial, ?_⟩
  rintro r s₁ hs
  obtain ⟨rfl, rfl⟩ := hs.unchanged (a := ()) (fun _ h => h) fun _ => rfl
  refine safe_bind.mpr ⟨trivial, ?_⟩
  rintro r s₂ hs
  obtain ⟨rfl, rfl⟩ := hs.unchanged (a := ()) (fun _ h => h) fun _ => rfl
  refine safe_bind.mpr ⟨trivial, ?_⟩
  rintro r s₃ hs
  obtain ⟨rfl, rfl⟩ := hs.unchanged (a := ()) (fun _ h => h) fun _ => rfl
  exact ((safe_saveLocked id began limit maxAge).weaken fun _ _ _ => trivial).mono fun _ _ h => .inr h

end Save

end PiIpython.Checkpoint
