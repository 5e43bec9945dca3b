import Mathlib.Data.List.Count
import Mathlib.Data.List.Forall2
import Mathlib.Data.List.Perm.Basic
import Mathlib.Data.List.TakeWhile

/-!
Lists: looking up and replacing an entry, cutting texts, results one by one, and the answers to one
request after the other.
-/

namespace SingleTape

section

variable {α : Type} {l : List α} {a b : α} {i j : Nat}

theorem getElem?_concat (l : List α) (a : α) (i : Nat) :
    (l ++ [a])[i]? = if l.length = i then some a else l[i]? := by
  rw [List.getElem?_append]
  rcases Nat.lt_trichotomy i l.length with h | h | h
  · simp [h, Nat.ne_of_gt h]
  · simp [h]
  · have hsub : i - l.length ≠ 0 := by omega
    simp [Nat.ne_of_lt h, Nat.not_lt_of_lt h, hsub]

theorem last_of_new (hold : l[i]? = none) (hnew : (l ++ [a])[i]? = some b) :
    i = l.length ∧ a = b := by
  rw [getElem?_concat, hold] at hnew
  by_cases hi : l.length = i
  · rw [if_pos hi] at hnew
    exact ⟨hi.symm, Option.some.inj hnew⟩
  · rw [if_neg hi] at hnew
    cases hnew

theorem set_of_getElem? (h : l[i]? = some a) : l.set i a = l := by
  obtain ⟨hi, rfl⟩ := List.getElem?_eq_some_iff.mp h
  exact List.set_getElem_self hi

theorem none_of_set (hold : l[i]? = none) (j : Nat) (a : α) : (l.set j a)[i]? = none := by
  rw [List.getElem?_eq_none_iff] at hold ⊢
  rwa [List.length_set]

theorem set_perm (h : l[i]? = some a) (b : α) : (a :: l.set i b).Perm (b :: l) := by
  obtain ⟨hi, rfl⟩ := List.getElem?_eq_some_iff.mp h
  have hset : (l.set i b).Perm (b :: l.eraseIdx i) := List.set_perm_cons_eraseIdx hi b
  have hget : (l[i] :: l.eraseIdx i).Perm l := List.getElem_cons_eraseIdx_perm hi
  exact (hset.cons _).trans ((List.Perm.swap _ _ _).trans (hget.cons b))

theorem eq_of_count_eq_one [BEq α] [LawfulBEq α] (h : l.count a = 1) (hi : l[i]? = some a)
    (hj : l[j]? = some a) : i = j := by
  by_contra hne
  have hlt : i < l.length := (List.getElem?_eq_some_iff.mp hi).1
  have hperm := List.getElem_cons_eraseIdx_perm hlt
  rw [(List.getElem?_eq_some_iff.mp hi).2] at hperm
  have hmem : a ∈ l.eraseIdx i := List.mem_eraseIdx_iff_getElem?.mpr ⟨j, Ne.symm hne, hj⟩
  have hcount := hperm.count_eq a
  rw [List.count_cons_self, h] at hcount
  have := List.count_pos_iff.mpr hmem
  omega

theorem eraseDups_concat [DecidableEq α] (l : List α) (a : α) :
    (l ++ [a]).eraseDups = if a ∈ l then l.eraseDups else l.eraseDups ++ [a] := by
  rw [List.eraseDups_append]
  by_cases ha : a ∈ l <;> simp [List.removeAll, ha, List.eraseDups_cons]

end

section

variable {p : Char → Bool} {front rest : List Char}

theorem exists_dropWhile (p : Char → Bool) (cs : List Char) :
    ∃ front, cs = front ++ cs.dropWhile p ∧ (∀ c ∈ front, p c = true) ∧
      ∀ c ∈ (cs.dropWhile p).head?, p c = false := by
  refine ⟨cs.takeWhile p, List.takeWhile_append_dropWhile.symm, ?_, ?_⟩
  · intro c hc
    exact List.mem_takeWhile_imp hc
  · intro c hc
    have h := List.head?_dropWhile_not p cs
    rw [Option.mem_def.mp hc] at h
    simpa using h

theorem dropWhile_append (hf : ∀ c ∈ front, p c = true) (hr : ∀ c ∈ rest.head?, p c = false) :
    (front ++ rest).dropWhile p = rest := by
  rw [List.dropWhile_append_of_pos hf]
  cases rest with
  | nil => rfl
  | cons c rest => exact List.dropWhile_cons_of_neg (by simp [hr c rfl])

end

theorem mapM_ok_iff {ε α β : Type} {f : α → Except ε β} {xs : List α} {ys : List β} :
    xs.mapM f = .ok ys ↔ List.Forall₂ (fun x y => f x = .ok y) xs ys := by
  induction xs generalizing ys with
  | nil => simp [pure, Except.pure, eq_comm]
  | cons x xs ih =>
    rw [List.mapM_cons, List.forall₂_cons_left_iff]
    cases hx : f x with
    | error e => simp [bind, Except.bind]
    | ok y =>
      cases hxs : xs.mapM f with
      | error e =>
        have hn : ∀ ys, ¬ List.Forall₂ (fun x y => f x = .ok y) xs ys := by
          intro ys h
          cases hxs.symm.trans (ih.mpr h)
        simp [bind, Except.bind, hn]
      | ok zs =>
        have hz : ∀ ys, List.Forall₂ (fun x y => f x = .ok y) xs ys ↔ zs = ys := by
          intro ys
          rw [← ih, hxs, Except.ok.injEq]
        simp [bind, Except.bind, pure, Except.pure, hz, eq_comm]

section

variable {σ ω ρ : Type}

/-- What something answers to one operation after the other, and what becomes of it. -/
def serve (act : σ → ω → ρ × σ) (s : σ) : List ω → List ρ × σ
  | [] => ([], s)
  | op :: ops =>
    let (answer, s) := act s op
    let (answers, s) := serve act s ops
    (answer :: answers, s)

@[simp] theorem serve_nil (act : σ → ω → ρ × σ) (s : σ) : serve act s [] = ([], s) := rfl

theorem serve_cons (act : σ → ω → ρ × σ) (s : σ) (op : ω) (ops : List ω) :
    serve act s (op :: ops) =
      ((act s op).1 :: (serve act (act s op).2 ops).1, (serve act (act s op).2 ops).2) := rfl

theorem serve_snd (act : σ → ω → ρ × σ) (s : σ) (ops : List ω) :
    (serve act s ops).2 = ops.foldl (fun s op => (act s op).2) s := by
  induction ops generalizing s with
  | nil => rfl
  | cons op ops ih => exact ih _

end

end SingleTape
