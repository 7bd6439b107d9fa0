import PiIpython.Lib.Json

/-!
# Facts about values and their texts

`All` splits over conjunctions, and says of a printed value what holds of every
character of its text (`forall_mem_value`). A homomorphism of texts takes a
printed value to the value printed its way (`map_value`).
-/

namespace PiIpython.Json

variable {α S N : Type}

/-! ## Values -/

mutual

theorem all_and {p p' : S → Prop} {q q' : N → Prop} : ∀ v : Json S N,
    v.All (fun s => p s ∧ p' s) (fun n => q n ∧ q' n) ↔ v.All p q ∧ v.All p' q'
  | .null => by simp [All]
  | .bool _ => by simp [All]
  | .num _ => by simp [All]
  | .str _ => by simp [All]
  | .arr vs => allElems_and vs
  | .obj fs => allFields_and fs

theorem allElems_and {p p' : S → Prop} {q q' : N → Prop} : ∀ vs : List (Json S N),
    AllElems (fun s => p s ∧ p' s) (fun n => q n ∧ q' n) vs ↔ AllElems p q vs ∧ AllElems p' q' vs
  | [] => by simp [AllElems]
  | v :: vs => by simp only [AllElems, all_and v, allElems_and vs]; tauto

theorem allFields_and {p p' : S → Prop} {q q' : N → Prop} : ∀ fs : List (S × Json S N),
    AllFields (fun s => p s ∧ p' s) (fun n => q n ∧ q' n) fs ↔
      AllFields p q fs ∧ AllFields p' q' fs
  | [] => by simp [AllFields]
  | (k, v) :: fs => by simp only [AllFields, all_and v, allFields_and fs]; tauto

end

mutual

theorem all_congr {p p' : S → Prop} {q q' : N → Prop} (hp : ∀ s, p s ↔ p' s)
    (hq : ∀ n, q n ↔ q' n) : ∀ v : Json S N, v.All p q ↔ v.All p' q'
  | .null => Iff.rfl
  | .bool _ => Iff.rfl
  | .num n => hq n
  | .str s => hp s
  | .arr vs => allElems_congr hp hq vs
  | .obj fs => allFields_congr hp hq fs

theorem allElems_congr {p p' : S → Prop} {q q' : N → Prop} (hp : ∀ s, p s ↔ p' s)
    (hq : ∀ n, q n ↔ q' n) : ∀ vs : List (Json S N), AllElems p q vs ↔ AllElems p' q' vs
  | [] => Iff.rfl
  | v :: vs => and_congr (all_congr hp hq v) (allElems_congr hp hq vs)

theorem allFields_congr {p p' : S → Prop} {q q' : N → Prop} (hp : ∀ s, p s ↔ p' s)
    (hq : ∀ n, q n ↔ q' n) : ∀ fs : List (S × Json S N), AllFields p q fs ↔ AllFields p' q' fs
  | [] => Iff.rfl
  | (k, v) :: fs => and_congr (hp k) (and_congr (all_congr hp hq v) (allFields_congr hp hq fs))

end

mutual

theorem all_of {p : S → Prop} {q : N → Prop} (hp : ∀ s, p s) (hq : ∀ n, q n) :
    ∀ v : Json S N, v.All p q
  | .null => trivial
  | .bool _ => trivial
  | .num n => hq n
  | .str s => hp s
  | .arr vs => allElems_of hp hq vs
  | .obj fs => allFields_of hp hq fs

theorem allElems_of {p : S → Prop} {q : N → Prop} (hp : ∀ s, p s) (hq : ∀ n, q n) :
    ∀ vs : List (Json S N), AllElems p q vs
  | [] => trivial
  | v :: vs => ⟨all_of hp hq v, allElems_of hp hq vs⟩

theorem allFields_of {p : S → Prop} {q : N → Prop} (hp : ∀ s, p s) (hq : ∀ n, q n) :
    ∀ fs : List (S × Json S N), AllFields p q fs
  | [] => trivial
  | (k, v) :: fs => ⟨hp k, all_of hp hq v, allFields_of hp hq fs⟩

end

/-! ## Texts -/

namespace Printer

variable (P : Printer α S N)

/-- The printer that spells with `char` what `P` spells, its strings and numbers sent through `φ`. -/
def map {β : Type} (char : Char → β) (φ : List α → List β) : Printer β S N :=
  ⟨char, φ ∘ P.str, φ ∘ P.num⟩

/-- The characters of JSON's own syntax. -/
def IsSyntax (c : Char) : Prop := 32 ≤ c.toNat ∧ c.toNat < 128

instance (c : Char) : Decidable (IsSyntax c) := inferInstanceAs (Decidable (_ ∧ _))

section Map

variable {P} {β : Type} {char : Char → β} {φ : List α → List β}
  (hφ : ∀ a b, φ (a ++ b) = φ a ++ φ b) (hc : ∀ c, IsSyntax c → φ [P.char c] = [char c])

include hφ hc

theorem map_cons {c : Char} (h : IsSyntax c) (l : List α) :
    φ (P.char c :: l) = char c :: φ l := by
  rw [← List.singleton_append, hφ, hc c h, List.singleton_append]

theorem map_quoted (s : S) : φ (P.quoted s) = (P.map char φ).quoted s := by
  rw [quoted, map_cons hφ hc (by decide), hφ, hc '"' (by decide)]
  rfl

theorem map_lit {s : String} (hs : s ≠ "") (h : ∀ c ∈ s.toList, IsSyntax c) :
    φ (P.lit s) = (P.map char φ).lit s := by
  have : ∀ l : List Char, l ≠ [] → (∀ c ∈ l, IsSyntax c) → φ (l.map P.char) = l.map char := by
    intro l
    induction l with
    | nil => intro h; exact absurd rfl h
    | cons c l ih =>
      intro _ h
      have h' : ∀ d ∈ l, IsSyntax d := fun d hd => h d (List.mem_cons_of_mem _ hd)
      rw [List.map_cons]
      cases l with
      | nil => exact hc c (h c List.mem_cons_self)
      | cons d l =>
        rw [map_cons hφ hc (h c List.mem_cons_self), ih (by simp) h']
        rfl
  exact this _ (by simpa using hs) h

mutual

/-- **A homomorphism of texts maps the printed value to the value printed its way.** -/
theorem map_value : ∀ v : Json S N, φ (P.value v) = (P.map char φ).value v
  | .null => map_lit hφ hc (by decide) (by simp [IsSyntax])
  | .bool true => map_lit hφ hc (by decide) (by simp [IsSyntax])
  | .bool false => map_lit hφ hc (by decide) (by simp [IsSyntax])
  | .num _ => rfl
  | .str s => map_quoted hφ hc s
  | .arr [] => map_lit hφ hc (by decide) (by simp [IsSyntax])
  | .arr (v :: vs) => by
    rw [value, map_cons hφ hc (by decide), hφ, map_value v, map_elems vs]; rfl
  | .obj [] => map_lit hφ hc (by decide) (by simp [IsSyntax])
  | .obj ((k, v) :: fs) => by
    rw [value, map_cons hφ hc (by decide), hφ, map_quoted hφ hc, map_cons hφ hc (by decide), hφ,
      map_value v, map_fields fs]
    rfl

theorem map_elems : ∀ vs : List (Json S N), φ (P.elems vs) = (P.map char φ).elems vs
  | [] => hc ']' (by decide)
  | v :: vs => by rw [elems, map_cons hφ hc (by decide), hφ, map_value v, map_elems vs]; rfl

theorem map_fields : ∀ fs : List (S × Json S N), φ (P.fields fs) = (P.map char φ).fields fs
  | [] => hc '}' (by decide)
  | (k, v) :: fs => by
    rw [fields, map_cons hφ hc (by decide), hφ, map_quoted hφ hc, map_cons hφ hc (by decide), hφ,
      map_value v, map_fields fs]
    rfl

end

end Map

section Mem

variable {P} {p : α → Prop} (hp : ∀ c, IsSyntax c → p (P.char c))

include hp

theorem forall_mem_quoted (s : S) : (∀ c ∈ P.quoted s, p c) ↔ ∀ c ∈ P.str s, p c := by
  have hq : p (P.char '"') := hp '"' (by decide)
  constructor
  · exact fun h c hc => h c (List.mem_cons_of_mem _ (List.mem_append_left _ hc))
  · intro h c hc
    rcases List.mem_cons.mp hc with rfl | hc
    · exact hq
    rcases List.mem_append.mp hc with hc | hc
    · exact h c hc
    · rw [List.mem_singleton.mp hc]; exact hq

theorem forall_mem_lit {s : String} (h : ∀ c ∈ s.toList, IsSyntax c) : ∀ c ∈ P.lit s, p c := by
  intro c hc
  obtain ⟨d, hd, rfl⟩ := List.mem_map.mp hc
  exact hp d (h d hd)

theorem forall_mem_cons {c : Char} (hc : IsSyntax c) {l : List α} :
    (∀ d ∈ P.char c :: l, p d) ↔ ∀ d ∈ l, p d := by
  rw [List.forall_mem_cons, and_iff_right (hp c hc)]

mutual

/-- **What holds of the characters of the syntax holds of the whole text exactly when it holds of
the strings and numbers in it.** -/
theorem forall_mem_value : ∀ v : Json S N,
    (∀ c ∈ P.value v, p c) ↔ v.All (fun s => ∀ c ∈ P.str s, p c) (fun n => ∀ c ∈ P.num n, p c)
  | .null => iff_of_true (forall_mem_lit hp (by simp [IsSyntax])) trivial
  | .bool true => iff_of_true (forall_mem_lit hp (by simp [IsSyntax])) trivial
  | .bool false => iff_of_true (forall_mem_lit hp (by simp [IsSyntax])) trivial
  | .num _ => Iff.rfl
  | .str s => forall_mem_quoted hp s
  | .arr [] => iff_of_true (forall_mem_lit hp (by simp [IsSyntax])) trivial
  | .arr (v :: vs) => by
    rw [value, forall_mem_cons hp (by decide), List.forall_mem_append, forall_mem_value v,
      forall_mem_elems vs]
    rfl
  | .obj [] => iff_of_true (forall_mem_lit hp (by simp [IsSyntax])) trivial
  | .obj ((k, v) :: fs) => by
    rw [value, forall_mem_cons hp (by decide), List.forall_mem_append, forall_mem_quoted hp,
      forall_mem_cons hp (by decide), List.forall_mem_append, forall_mem_value v,
      forall_mem_fields fs]
    rfl

theorem forall_mem_elems : ∀ vs : List (Json S N), (∀ c ∈ P.elems vs, p c) ↔
    AllElems (fun s => ∀ c ∈ P.str s, p c) (fun n => ∀ c ∈ P.num n, p c) vs
  | [] => iff_of_true (by rintro c hc; rw [List.mem_singleton.mp hc]; exact hp _ (by decide)) trivial
  | v :: vs => by
    rw [elems, forall_mem_cons hp (by decide), List.forall_mem_append, forall_mem_value v,
      forall_mem_elems vs]
    rfl

theorem forall_mem_fields : ∀ fs : List (S × Json S N), (∀ c ∈ P.fields fs, p c) ↔
    AllFields (fun s => ∀ c ∈ P.str s, p c) (fun n => ∀ c ∈ P.num n, p c) fs
  | [] => iff_of_true (by rintro c hc; rw [List.mem_singleton.mp hc]; exact hp _ (by decide)) trivial
  | (k, v) :: fs => by
    rw [fields, forall_mem_cons hp (by decide), List.forall_mem_append, forall_mem_quoted hp,
      forall_mem_cons hp (by decide), List.forall_mem_append, forall_mem_value v,
      forall_mem_fields fs]
    rfl

end

end Mem

end Printer

end PiIpython.Json
